import Mathlib.Logic.Function.Basic
import TessariDB.HttpSession

/-!
# Threads That Share an HTTP Client

`_send` calls of one client, made by any number of threads at once. A step is a section of the
client that the lock guards, or a request sent, or answered. The node takes a token as long as it
holds it, and answers every sign-in with a token it never gave before; only the first token
lapses.

Whether a request that met a 401 is sent again hangs on whether the session holds a token at that
moment, not on the token the request carried.

## Main results

* `Kept.next`: what a step keeps of the tokens.
* `lapsed_token_goes_unnoticed`: in which runs a lapsed token is never the caller's problem.
-/

namespace TessariDB

open ByteCodec Utf8

namespace Http.Threads

/-! ### The system -/

inductive Credential where
  | token (token : Json)
  | password

/-- A request that was answered; `refused` is a 401. -/
structure Attempt where
  credential : Credential
  refused : Bool

/-- Where a thread is in `_send`; `first` is the refused request it has behind it, if any. -/
inductive Phase where
  | idle
  | authorizing (first : Option Attempt)
  | signingIn (first : Option Attempt)
  | signInSent (first : Option Attempt)
  | storing (first : Option Attempt) (token : Json)
  | sending (first : Option Attempt) (credential : Credential)
  | sent (first : Option Attempt) (credential : Credential)
  | discarding (first : Attempt)

/-- A `_send` that is over, with the requests it made. -/
structure Finished where
  first : Attempt
  second : Option Attempt

/-- The client, its threads, the node's tokens, and the calls that are over. -/
structure World (ι : Type) where
  session : Session
  phase : ι → Phase
  issued : List Str
  lapsed : Bool
  finished : List Finished

inductive Event (ι : Type) where
  | start (i : ι)
  | authorize (i : ι)
  | sendSignIn (i : ι)
  | answerSignIn (i : ι) (token : Str)
  | store (i : ι)
  | send (i : ι)
  | answer (i : ι)
  | discard (i : ι)
  | lapse

section

variable {ι : Type} [DecidableEq ι]

namespace World

def goto (w : World ι) (i : ι) (phase : Phase) : World ι :=
  { w with phase := Function.update w.phase i phase }

/-- A call ends, as its last request was answered. -/
def finish (w : World ι) (i : ι) (call : Finished) : World ι :=
  { w.goto i .idle with finished := w.finished ++ [call] }

/-- A client that holds the token `lapsing`, and threads that have made no call yet. -/
def initial (lapsing : Str) : World ι where
  session := { token := .string lapsing }
  phase _ := .idle
  issued := [lapsing]
  lapsed := false
  finished := []

/-- The node answers 401 to a token that it does not hold. -/
def refuses (lapsing : Str) (w : World ι) : Credential → Bool
  | .token (.string token) => token ∉ w.issued ∨ (w.lapsed = true ∧ token = lapsing)
  | .token _ => true
  | .password => false

end World

/-- What the session says a request is to present, or that a sign-in comes first. -/
def presenting (first : Option Attempt) : Presents → Phase
  | .token token => .sending first (.token token)
  | .password => .sending first .password
  | .fresh => .signingIn first

/-- One step, when it is that thread's turn. -/
def World.next (lapsing : Str) (w : World ι) : Event ι → Option (World ι)
  | .start i =>
      match w.phase i with
      | .idle => some (w.goto i (.authorizing none))
      | _ => none
  | .authorize i =>
      match w.phase i with
      | .authorizing first => some (w.goto i (presenting first w.session.present))
      | _ => none
  | .sendSignIn i =>
      match w.phase i with
      | .signingIn first => some (w.goto i (.signInSent first))
      | _ => none
  | .answerSignIn i token =>
      match w.phase i with
      | .signInSent first =>
          if token ≠ [] ∧ token ∉ w.issued then
            some { w.goto i (.storing first (.string token)) with issued := token :: w.issued }
          else none
      | _ => none
  | .store i =>
      match w.phase i with
      | .storing first token => some
          { w.goto i (.sending first (if token.truthy then .token token else .password)) with
            session := w.session.store token }
      | _ => none
  | .send i =>
      match w.phase i with
      | .sending first credential => some (w.goto i (.sent first credential))
      | _ => none
  | .answer i =>
      match w.phase i with
      | .sent none credential =>
          let attempt := ⟨credential, w.refuses lapsing credential⟩
          if attempt.refused then some (w.goto i (.discarding attempt))
          else some (w.finish i ⟨attempt, none⟩)
      | .sent (some first) credential =>
          some (w.finish i ⟨first, some ⟨credential, w.refuses lapsing credential⟩⟩)
      | _ => none
  | .discard i =>
      match w.phase i with
      | .discarding first =>
          let w' := { w with session := w.session.discard.2 }
          if w.session.discard.1 then some (w'.goto i (.authorizing (some first)))
          else some (w'.finish i ⟨first, none⟩)
      | _ => none
  | .lapse => some { w with lapsed := true }

/-- The worlds a run comes to when every step meets a condition. -/
inductive Reaches (lapsing : Str) (meets : World ι → Event ι → Prop) : World ι → Prop
  | initial : Reaches lapsing meets (.initial lapsing)
  | next {w w' : World ι} {e : Event ι} (hw : Reaches lapsing meets w) (hmeets : meets w e)
      (hstep : w.next lapsing e = some w') : Reaches lapsing meets w'

/-! ### What callers see -/

/-- The call raised `HTTPError` 401: its last request was refused. -/
def Finished.Raised401 (call : Finished) : Prop := (call.second.getD call.first).refused = true

/-- A refused first request was sent once more, with another token, and the call did not raise. -/
def Finished.Unnoticed (lapsing : Str) (call : Finished) : Prop :=
  (call.first.refused = true →
    ∃ token refused, token ≠ lapsing ∧ call.second = some ⟨.token (.string token), refused⟩) ∧
  ¬ call.Raised401

/-- No call that is over was a caller's problem. -/
def World.Unnoticed (lapsing : Str) (w : World ι) : Prop :=
  ∀ call ∈ w.finished, call.Unnoticed lapsing

/-- A thread that comes to discard a token finds one held. -/
def FindsToken (w : World ι) (e : Event ι) : Prop :=
  ∀ i, e = .discard i → w.session.token ≠ .null

/-! ### The invariant -/

section

variable (lapsing : Str)

/-- Behind a refused request the first token is gone for good. -/
def Behind (w : World ι) (first : Option Attempt) : Prop :=
  ∀ attempt, first = some attempt → w.session.token ≠ .string lapsing

/-- A token the node gave; behind a refused request, one it still holds. -/
def Given (w : World ι) (first : Option Attempt) (token : Str) : Prop :=
  token ∈ w.issued ∧ (first ≠ none → token ≠ lapsing)

def PhaseKept (w : World ι) : Phase → Prop
  | .idle => True
  | .authorizing first => Behind lapsing w first
  | .signingIn first => Behind lapsing w first
  | .signInSent first => Behind lapsing w first
  | .storing first token => Behind lapsing w first ∧
      ∃ t, token = .string t ∧ t ≠ [] ∧ t ≠ lapsing ∧ t ∈ w.issued
  | .sending first credential => Behind lapsing w first ∧
      ∃ t, credential = .token (.string t) ∧ Given lapsing w first t
  | .sent first credential => Behind lapsing w first ∧
      ∃ t, credential = .token (.string t) ∧ Given lapsing w first t
  | .discarding first => first.refused = true

structure Kept (w : World ι) : Prop where
  token : w.session.token = .null ∨ ∃ t ∈ w.issued, w.session.token = .string t
  sessionless : w.session.sessionless = false
  issued : lapsing ∈ w.issued
  phases : ∀ i, PhaseKept lapsing w (w.phase i)

end

variable {lapsing : Str} {w w' : World ι}

omit [DecidableEq ι] in
theorem kept_initial : Kept lapsing (.initial lapsing : World ι) where
  token := .inr ⟨lapsing, List.mem_singleton_self _, rfl⟩
  sessionless := rfl
  issued := List.mem_singleton_self _
  phases _ := trivial

omit [DecidableEq ι] in
/-- A phase does not mind tokens given to others, nor the first token being given up. -/
theorem PhaseKept.mono {phase : Phase} (h : PhaseKept lapsing w phase)
    (htoken : w.session.token ≠ .string lapsing → w'.session.token ≠ .string lapsing)
    (hissued : w.issued ⊆ w'.issued) : PhaseKept lapsing w' phase := by
  have hbehind : ∀ {first}, Behind lapsing w first → Behind lapsing w' first := fun h a ha =>
    htoken (h a ha)
  cases phase with
  | idle => trivial
  | authorizing first => exact hbehind h
  | signingIn first => exact hbehind h
  | signInSent first => exact hbehind h
  | storing first token =>
      obtain ⟨hfirst, t, ht, hne, hother, hmem⟩ := h
      exact ⟨hbehind hfirst, t, ht, hne, hother, hissued hmem⟩
  | sending first credential =>
      obtain ⟨hfirst, t, ht, hmem, hother⟩ := h
      exact ⟨hbehind hfirst, t, ht, hissued hmem, hother⟩
  | sent first credential =>
      obtain ⟨hfirst, t, ht, hmem, hother⟩ := h
      exact ⟨hbehind hfirst, t, ht, hissued hmem, hother⟩
  | discarding first => exact h

/-- A step of one thread, which leaves the others where they are. -/
theorem Kept.step (h : Kept lapsing w) {i : ι} {phase : Phase}
    (hphase : w'.phase = Function.update w.phase i phase)
    (hkept : PhaseKept lapsing w' phase)
    (htoken : w'.session.token = .null ∨ ∃ t ∈ w'.issued, w'.session.token = .string t)
    (hother : w.session.token ≠ .string lapsing → w'.session.token ≠ .string lapsing)
    (hless : w'.session.sessionless = w.session.sessionless)
    (hissued : w.issued ⊆ w'.issued) : Kept lapsing w' where
  token := htoken
  sessionless := hless.trans h.sessionless
  issued := hissued h.issued
  phases j := by
    rw [hphase]
    by_cases hj : j = i
    · rw [hj, Function.update_self]
      exact hkept
    · rw [Function.update_of_ne hj]
      exact (h.phases j).mono hother hissued

/-- The same, when the session and the node stay as they are. -/
theorem Kept.goto (h : Kept lapsing w) {i : ι} {phase : Phase}
    (hkept : PhaseKept lapsing w phase) : Kept lapsing (w.goto i phase) :=
  h.step rfl (hkept.mono id (List.Subset.refl _)) h.token id rfl (List.Subset.refl _)

theorem not_behind_of_stored {t : Str} (h : t ≠ lapsing) :
    Json.string t ≠ .string lapsing := fun heq => h (Json.string.inj heq)

/-- **What a step keeps.** -/
theorem Kept.next (h : Kept lapsing w) {e : Event ι} (hstep : w.next lapsing e = some w') :
    Kept lapsing w' := by
  cases e with
  | start i =>
      rw [World.next] at hstep
      split at hstep
      · obtain rfl := Option.some.inj hstep
        exact h.goto fun _ ha => nomatch ha
      · cases hstep
  | authorize i =>
      rw [World.next] at hstep
      split at hstep
      · next first hphase =>
        obtain rfl := Option.some.inj hstep
        have hfirst := h.phases i
        rw [hphase] at hfirst
        refine h.goto ?_
        rcases h.token with htoken | ⟨t, hmem, htoken⟩
        · rw [Session.present_null htoken, h.sessionless, if_neg Bool.false_ne_true]
          exact hfirst
        · rw [Session.present_string htoken]
          refine ⟨hfirst, t, rfl, hmem, fun hsome heq => ?_⟩
          obtain ⟨a, rfl⟩ := Option.ne_none_iff_exists'.mp hsome
          exact hfirst a rfl (heq ▸ htoken)
      · cases hstep
  | sendSignIn i =>
      rw [World.next] at hstep
      split at hstep
      · next first hphase =>
        obtain rfl := Option.some.inj hstep
        have hfirst := h.phases i
        rw [hphase] at hfirst
        exact h.goto hfirst
      · cases hstep
  | answerSignIn i token =>
      rw [World.next] at hstep
      split at hstep
      · next first hphase =>
        split at hstep
        · next hfresh =>
          obtain rfl := Option.some.inj hstep
          have hfirst := h.phases i
          rw [hphase] at hfirst
          have hother : token ≠ lapsing := fun heq => hfresh.2 (heq ▸ h.issued)
          refine h.step rfl ⟨hfirst, token, rfl, hfresh.1, hother, List.mem_cons_self⟩ ?_ id rfl
            (List.subset_cons_self _ _)
          exact h.token.imp id fun ⟨t, hmem, ht⟩ => ⟨t, List.mem_cons_of_mem _ hmem, ht⟩
        · cases hstep
      · cases hstep
  | store i =>
      rw [World.next] at hstep
      split at hstep
      · next first token hphase =>
        obtain rfl := Option.some.inj hstep
        have hfirst := h.phases i
        rw [hphase] at hfirst
        obtain ⟨-, t, rfl, hne, hother, hmem⟩ := hfirst
        have htruthy : (Json.string t).truthy = true := by simpa [Json.truthy] using hne
        rw [if_pos htruthy]
        exact h.step rfl ⟨fun _ _ => not_behind_of_stored hother, t, rfl, hmem, fun _ => hother⟩
          (.inr ⟨t, hmem, rfl⟩) (fun _ => not_behind_of_stored hother) rfl (List.Subset.refl _)
      · cases hstep
  | send i =>
      rw [World.next] at hstep
      split at hstep
      · next first credential hphase =>
        obtain rfl := Option.some.inj hstep
        have hfirst := h.phases i
        rw [hphase] at hfirst
        exact h.goto hfirst
      · cases hstep
  | answer i =>
      rw [World.next] at hstep
      split at hstep
      · dsimp only at hstep
        split at hstep
        · next hrefused =>
          obtain rfl := Option.some.inj hstep
          exact h.goto hrefused
        · obtain rfl := Option.some.inj hstep
          exact h.step rfl trivial h.token id rfl (List.Subset.refl _)
      · obtain rfl := Option.some.inj hstep
        exact h.step rfl trivial h.token id rfl (List.Subset.refl _)
      · cases hstep
  | discard i =>
      rw [World.next] at hstep
      split at hstep
      · dsimp only at hstep
        split at hstep
        · obtain rfl := Option.some.inj hstep
          exact h.step rfl (fun _ _ heq => nomatch heq) (.inl rfl) (fun _ heq => nomatch heq) rfl
            (List.Subset.refl _)
        · obtain rfl := Option.some.inj hstep
          exact h.step rfl trivial (.inl rfl) (fun _ heq => nomatch heq) rfl (List.Subset.refl _)
      · cases hstep
  | lapse =>
      obtain rfl := Option.some.inj hstep
      exact ⟨h.token, h.sessionless, h.issued, fun i => (h.phases i).mono id (List.Subset.refl _)⟩

/-! ### Calls that are over -/

omit [DecidableEq ι] in
theorem unnoticed_concat {call : Finished} (hfinished : w'.finished = w.finished ++ [call]) :
    w'.Unnoticed lapsing ↔ w.Unnoticed lapsing ∧ call.Unnoticed lapsing := by
  rw [World.Unnoticed, hfinished]
  simp only [List.mem_append, List.mem_singleton, or_imp, forall_and, forall_eq]
  rfl

omit [DecidableEq ι] in
theorem unnoticed_congr (hfinished : w'.finished = w.finished) :
    w'.Unnoticed lapsing ↔ w.Unnoticed lapsing := by
  rw [World.Unnoticed, hfinished]
  rfl

omit [DecidableEq ι] in
/-- The node holds every token but the first. -/
theorem refuses_given {t : Str} (hmem : t ∈ w.issued) (hother : t ≠ lapsing) :
    w.refuses lapsing (.token (.string t)) = false := by
  rw [World.refuses]
  exact decide_eq_false fun hor => hor.elim (fun h => h hmem) fun h => hother h.2

/-- A call is over when its last request is answered, or when no token is found. -/
theorem finished_next {e : Event ι} (hstep : w.next lapsing e = some w')
    (hanswer : ∀ i, e ≠ .answer i) (hdiscard : ∀ i, e ≠ .discard i) :
    w'.finished = w.finished := by
  cases e with
  | answer i => exact absurd rfl (hanswer i)
  | discard i => exact absurd rfl (hdiscard i)
  | answerSignIn i token =>
      rw [World.next] at hstep
      split at hstep
      · split at hstep
        · obtain rfl := Option.some.inj hstep
          rfl
        · cases hstep
      · cases hstep
  | lapse =>
      obtain rfl := Option.some.inj hstep
      rfl
  | start i | authorize i | sendSignIn i | store i | send i =>
      rw [World.next] at hstep
      split at hstep
      · obtain rfl := Option.some.inj hstep
        rfl
      · cases hstep

/-- **What a step makes of the calls that are over.** It leaves them as good as they were, unless a
thread that met a 401 comes to discard a token and finds none. -/
theorem unnoticed_next (h : Kept lapsing w) {e : Event ι} (hstep : w.next lapsing e = some w') :
    w'.Unnoticed lapsing ↔ w.Unnoticed lapsing ∧ FindsToken w e := by
  cases e with
  | answer i =>
      have hfinds : FindsToken w (.answer i) := fun _ he => nomatch he
      rw [World.next] at hstep
      split at hstep
      · next credential hphase =>
        dsimp only at hstep
        split at hstep
        · obtain rfl := Option.some.inj hstep
          exact (unnoticed_congr rfl).trans (and_iff_left hfinds).symm
        · next hanswered =>
          obtain rfl := Option.some.inj hstep
          rw [unnoticed_concat rfl, and_congr_right_iff]
          exact fun _ => iff_of_true ⟨fun hrefused => absurd hrefused hanswered, hanswered⟩ hfinds
      · next first credential hphase =>
        obtain rfl := Option.some.inj hstep
        have hsent := h.phases i
        rw [hphase] at hsent
        obtain ⟨-, t, rfl, hmem, hother⟩ := hsent
        have hne : t ≠ lapsing := hother (Option.some_ne_none first)
        have hholds := refuses_given hmem hne
        rw [unnoticed_concat rfl, and_congr_right_iff]
        refine fun _ => iff_of_true ⟨fun _ => ⟨t, _, hne, rfl⟩, ?_⟩ hfinds
        rw [Finished.Raised401, Option.getD_some, hholds]
        exact Bool.false_ne_true
      · cases hstep
  | discard i =>
      rw [World.next] at hstep
      split at hstep
      · next first hphase =>
        dsimp only at hstep
        split at hstep
        · next hheld =>
          obtain rfl := Option.some.inj hstep
          refine (unnoticed_congr (w := w) rfl).trans (and_iff_left fun _ _ hnull => ?_).symm
          rw [Session.discard, hnull] at hheld
          cases hheld
        · next hheld =>
          obtain rfl := Option.some.inj hstep
          have hrefused := h.phases i
          rw [hphase] at hrefused
          rw [unnoticed_concat (w := w) rfl, and_congr_right_iff]
          refine fun _ => iff_of_false (fun hcall => hcall.2 hrefused) fun hfinds => ?_
          rcases h.token with htoken | ⟨t, -, htoken⟩
          · exact hfinds i rfl htoken
          · rw [Session.discard, htoken] at hheld
            exact hheld rfl
      · cases hstep
  | start i | authorize i | sendSignIn i | answerSignIn i token | store i | send i | lapse =>
      have hfinished := finished_next hstep (fun _ he => nomatch he) fun _ he => nomatch he
      exact (unnoticed_congr hfinished).trans (and_iff_left fun _ he => nomatch he).symm

/-! ### Runs -/

theorem Reaches.kept {meets : World ι → Event ι → Prop} (h : Reaches lapsing meets w) :
    Kept lapsing w := by
  induction h with
  | initial => exact kept_initial
  | next _ _ hstep ih => exact ih.next hstep

theorem Reaches.unnoticed (h : Reaches lapsing FindsToken w) : w.Unnoticed lapsing := by
  induction h with
  | initial => exact fun _ hcall => nomatch hcall
  | next hw hmeets hstep ih => exact (unnoticed_next hw.kept hstep).mpr ⟨ih, hmeets⟩

/-- **When a lapsed token is never the caller's problem.** In a run in which every thread that
comes to discard a token finds one held, no call that is over raised 401, and each whose first
request met one was sent again with another token. The first thread to find none raises. -/
theorem lapsed_token_goes_unnoticed (lapsing : Str) :
    (∀ w : World ι, Reaches lapsing FindsToken w → w.Unnoticed lapsing) ∧
    ∀ (w w' : World ι) (e : Event ι), Reaches lapsing (fun _ _ => True) w →
      w.next lapsing e = some w' → ¬ FindsToken w e → ¬ w'.Unnoticed lapsing :=
  ⟨fun _ h => h.unnoticed, fun _ _ _ hw hstep hfinds hafter =>
    hfinds ((unnoticed_next hw.kept hstep).mp hafter).2⟩

end

/-- Two threads whose requests left with the token that lapses. The first has stored a new token
before the second comes to discard one. -/
theorem lapsed_token_goes_unnoticed_twice :
    ∃ w : World Bool, w.finished = ["u", "v"].map (fun token =>
        ⟨⟨.token (.string "t"), true⟩, some ⟨.token (.string (ofString token)), false⟩⟩) ∧
      w.Unnoticed "t" := by
  have hquiet : ∀ {w w' : World Bool} (e : Event Bool), (∀ i, e ≠ .discard i) →
      Reaches "t" FindsToken w → w.next "t" e = some w' → Reaches "t" FindsToken w' :=
    fun _ hne hw hstep => hw.next (fun i he => absurd he (hne i)) hstep
  have h₁ := hquiet (.start true) (by simp) .initial rfl
  have h₂ := hquiet (.authorize true) (by simp) h₁ rfl
  have h₃ := hquiet (.send true) (by simp) h₂ rfl
  have h₄ := hquiet (.start false) (by simp) h₃ rfl
  have h₅ := hquiet (.authorize false) (by simp) h₄ rfl
  have h₆ := hquiet (.send false) (by simp) h₅ rfl
  have h₇ := hquiet .lapse (by simp) h₆ rfl
  have h₈ := hquiet (.answer true) (by simp) h₇ rfl
  have h₉ := hquiet (.answer false) (by simp) h₈ rfl
  have h₁₀ := h₉.next (e := .discard true) (fun _ _ h => nomatch h) rfl
  have h₁₁ := hquiet (.authorize true) (by simp) h₁₀ rfl
  have h₁₂ := hquiet (.sendSignIn true) (by simp) h₁₁ rfl
  have h₁₃ := hquiet (.answerSignIn true "u") (by simp) h₁₂ rfl
  have h₁₄ := hquiet (.store true) (by simp) h₁₃ rfl
  have h₁₅ := h₁₄.next (e := .discard false) (fun _ _ h => nomatch h) rfl
  have h₁₆ := hquiet (.send true) (by simp) h₁₅ rfl
  have h₁₇ := hquiet (.answer true) (by simp) h₁₆ rfl
  have h₁₈ := hquiet (.authorize false) (by simp) h₁₇ rfl
  have h₁₉ := hquiet (.sendSignIn false) (by simp) h₁₈ rfl
  have h₂₀ := hquiet (.answerSignIn false "v") (by simp) h₁₉ rfl
  have h₂₁ := hquiet (.store false) (by simp) h₂₀ rfl
  have h₂₂ := hquiet (.send false) (by simp) h₂₁ rfl
  have h₂₃ := hquiet (.answer false) (by simp) h₂₂ rfl
  exact ⟨_, rfl, (lapsed_token_goes_unnoticed "t").1 _ h₂₃⟩

/-- Two threads whose requests are both refused: the second to come finds no token to discard. -/
theorem second_thread_raises :
    ¬ ∀ w : World Bool, Reaches (ofString "t") (fun _ _ => True) w → w.Unnoticed (ofString "t") := by
  intro hall
  have hnext : ∀ {w w' : World Bool} (e : Event Bool),
      Reaches (ofString "t") (fun _ _ => True) w → w.next (ofString "t") e = some w' →
      Reaches (ofString "t") (fun _ _ => True) w' := fun _ hw hstep => hw.next trivial hstep
  have h₁ := hnext (.start true) .initial rfl
  have h₂ := hnext (.authorize true) h₁ rfl
  have h₃ := hnext (.send true) h₂ rfl
  have h₄ := hnext (.start false) h₃ rfl
  have h₅ := hnext (.authorize false) h₄ rfl
  have h₆ := hnext (.send false) h₅ rfl
  have h₇ := hnext .lapse h₆ rfl
  have h₈ := hnext (.answer true) h₇ rfl
  have h₉ := hnext (.answer false) h₈ rfl
  have h₁₀ := hnext (.discard true) h₉ rfl
  have h₁₁ := hnext (.discard false) h₁₀ rfl
  exact (hall _ h₁₁ ⟨⟨.token (.string (ofString "t")), true⟩, none⟩ (.head _)).2 rfl

end Http.Threads

end TessariDB
