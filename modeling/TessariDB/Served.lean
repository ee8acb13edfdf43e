import TessariDB.Heard
import TessariDB.Histories

/-!
# Programs over Connections

A program asks one thing after another. What it asks is planned: it is answered at once, or a script
is executed over a connection and something is made of the outcomes.

On the other side of the connection is a node that answers what it hears. Nothing is assumed about
its answers at first; they are kept beside what was heard, in order, as the history of the
connection. What a program was told over the connection is this history: a script that was heard got
the outcomes that are beside it, and a script that was not heard got an error.

Where several nodes, or one, answer out of one store, the histories of all connections are in the
order of the store, and the programs are interleaved on it.

## Main results

* `told_over`: what a program is told over a connection.
* `sockets_share_a_store`: programs over connections are programs interleaved on the store.
-/

namespace TessariDB

open ByteCodec ByteStream Utf8 Connection Interleaving

section

variable {α : Type} (take : Script → Option α)

/-- A script that is taken for something, with parameters that can be written. -/
structure Question where
  rendered : Rendered Value
  keyed : ∀ p ∈ rendered.parameters, p.2.Keyed
  heard : α
  taken : Script.taken take (rendered.script, rendered.parameters) = some heard

/-- What is planned for what a program asks: an answer at once, or a question and what is made of
the outcomes. -/
abbrev Plans {Q : Type} (A : Q → Type) :=
  (q : Q) → Except (A q) (Question take × (Except Raised (List Outcome) → A q))

/-- What a node heard, and the outcomes it answered with. -/
abbrev Hearing (α : Type) := α × List Outcome

variable {take} {Q R : Type} {A : Q → Type} (plan : Plans take A)

/-- A program over a connection. -/
def overConnection : Program Q A R → Connection × World → R × (Connection × World)
  | .result r, cw => (r, cw)
  | .ask q next, cw =>
      match plan q with
      | .error a => overConnection (next a) cw
      | .ok (question, make) =>
          let x := Connection.execute question.rendered.script question.rendered.parameters cw
          overConnection (next (make ((outcome x).map Reply.outcomes))) (after x)

/-- An answer that comes from no node. -/
def Silent (q : Q) (a : A q) : Prop :=
  plan q = .error a ∨ ∃ question make e, plan q = .ok (question, make) ∧ a = make (.error e)

/-- An answer that is made of what a node answered. -/
def Loud (q : Q) (event : Hearing α) (a : A q) : Prop :=
  ∃ question make, plan q = .ok (question, make) ∧ question.heard = event.1 ∧
    a = make (.ok event.2)

/-- A stream of answers, of these outcomes. -/
inductive Answering : List (Hearing α) → Bytes → Prop
  | nil : Answering [] []
  | cons {heard : α} {outcomes : List Outcome} {events : List (Hearing α)} {raw flat : Bytes}
      (read : readAnswer raw = .ok outcomes) (le : raw.length ≤ Frames.CEILING)
      (rest : Answering events flat) :
      Answering ((heard, outcomes) :: events) (Frames.frame Frames.ANSWER raw ++ flat)

/-- What a statement does on its own socket: nothing goes out; or it goes out, and the next frame
is read as the answer where it is one; or it goes out, and no frame comes. -/
theorem execute_cases {script : Str} {ps : List (Str × Value)} (hkeyed : ∀ p ∈ ps, p.2.Keyed)
    {c : Connection} {w : World} {said : List Script} (h : Spoken said (w.sockets c.sock)) :
    (∃ e c', c'.sock = c.sock ∧ Connection.execute script ps (c, w) = .error e (c', w)) ∨
    (∃ k raw s', replyIn (w.sockets c.sock).flat (w.sockets c.sock).source.ending = .ok (k, raw) ∧
      (w.sockets c.sock).flat = Frames.frame k raw ++ s'.flat ∧ Spoken (said ++ [(script, ps)]) s' ∧
      (k = Frames.ANSWER → Connection.execute script ps (c, w) =
        settle ((readAnswer raw).map fun outcomes => { outcomes })
          (c.spent, w.put c.sock s'))) ∨
    ∃ e s', replyIn (w.sockets c.sock).flat (w.sockets c.sock).source.ending = .error e ∧
      Spoken (said ++ [(script, ps)]) s' ∧
      Connection.execute script ps (c, w) = .error e (c.spent, w.put c.sock s') := by
  have hsent : ∀ {body : Bytes} {t : Socket},
      requestBody script c.credentials ps = .ok body → body.length ≤ Frames.CEILING →
      t.sent = ((w.sockets c.sock).wrote (Frames.frame Frames.REQUEST body)).sent →
      Spoken (said ++ [(script, ps)]) t := fun {body t} hbody hle ht =>
    ⟨by rw [ht]; exact List.append_ne_nil_of_right_ne_nil _ (List.cons_ne_nil _ _),
      h.carries.concat h.greeted (.request hkeyed hbody hle) ht⟩
  rcases ask_spec script ps c w with ⟨-, e, hask⟩ | ⟨-, e, -, hask⟩ |
    ⟨-, body, s', r, hbody, hr, hask⟩
  · exact .inl ⟨e, c, rfl, bind_of_error hask _⟩
  · exact .inl ⟨e, _, Follow.sock_of_spent (requested_eq c script), bind_of_error hask _⟩
  · cases hr with
    | unsent e _ =>
        rw [World.put_self] at hask
        exact .inl ⟨e, c.spent, rfl, bind_of_error hask _⟩
    | answered k raw _ hle _ hreply hadv =>
        refine .inr (.inl ⟨k, raw, s', hreply, hadv.flat, hsent hbody hle hadv.sent, ?_⟩)
        rintro rfl
        have hread : replyOf Frames.ANSWER raw =
            (readAnswer raw).map fun outcomes => { outcomes } := if_pos rfl
        rw [hread] at hask
        cases hos : readAnswer raw with
        | error e =>
            rw [hos] at hask
            exact bind_of_error hask _
        | ok outcomes =>
            rw [hos] at hask
            exact bind_of_ok hask _
    | broken e b t hle _ hreply hadv =>
        exact .inr (.inr ⟨e, t.close, hreply, hsent hbody hle hadv.sent, bind_of_error hask _⟩)

/-- What a program leaves on every socket: something more of what there was. -/
theorem overConnection_logged (hdiscerns : Discerns take) (program : Program Q A R) {base : ℕ}
    {log : ℕ → List Script} {cw : Connection × World} (h : Logged base log cw.2)
    (hc : Held base cw.1 cw.2) :
    ∃ log', Logged base log' (overConnection plan program cw).2.2 ∧
      Held base (overConnection plan program cw).2.1 (overConnection plan program cw).2.2 ∧
      ∀ i, ∃ more, log' i = log i ++ more := by
  induction program generalizing log cw with
  | result r => exact ⟨log, h, hc, fun i => ⟨[], (List.append_nil _).symm⟩⟩
  | ask q next ih =>
      rw [overConnection]
      cases plan q with
      | error a => exact ih a h hc
      | ok planned =>
          obtain ⟨question, make⟩ := planned
          obtain ⟨c, w⟩ := cw
          obtain ⟨log₁, hlogged, hheld, hmore, -⟩ :=
            executed hdiscerns question.rendered.script question.keyed h hc
          obtain ⟨log₂, hlogged₂, hheld₂, hmore₂⟩ := ih _ hlogged hheld
          refine ⟨log₂, hlogged₂, hheld₂, fun i => ?_⟩
          obtain ⟨first, hfirst, -⟩ := hmore i
          obtain ⟨rest, hrest⟩ := hmore₂ i
          exact ⟨first ++ rest, by rw [hrest, hfirst, List.append_assoc]⟩

variable {plan}

/-- What went out on a socket is heard on it before all that a program has yet to ask. -/
theorem heard_next (hdiscerns : Discerns take) (program : Program Q A R) {base : ℕ}
    {log : ℕ → List Script} {cw : Connection × World} (h : Logged base log cw.2)
    (hc : Held base cw.1 cw.2) {i : ℕ} (hi : base ≤ i) {said : List Script}
    {question : Question take}
    (hlog : log i = said ++ [(question.rendered.script, question.rendered.parameters)])
    {heard : List α} (hheard : listenOn take ((overConnection plan program cw).2.2.sockets i) =
      some (said.filterMap (Script.taken take) ++ heard)) :
    ∃ rest, heard = question.heard :: rest := by
  obtain ⟨log', hlogged, -, hmore⟩ := overConnection_logged plan hdiscerns program h hc
  obtain ⟨more, hlog'⟩ := hmore i
  rw [hlog] at hlog'
  have hopened : i < (overConnection plan program cw).2.2.opened := by
    by_contra hge
    have hnone := hlogged.fresh i (Nat.not_lt.mp hge)
    rw [hlog'] at hnone
    simp at hnone
  have hlisten := (hlogged.carries i hi hopened).listenOn_eq take
  rw [hheard, hlog', List.append_assoc, List.filterMap_append, List.singleton_append,
    List.filterMap_cons_some question.taken] at hlisten
  exact ⟨_, List.append_cancel_left (Option.some.inj hlisten)⟩

theorem replyIn_answer {raw : Bytes} (hle : raw.length ≤ Frames.CEILING) (flat : Bytes)
    (ending : Ending) :
    replyIn (Frames.frame Frames.ANSWER raw ++ flat) ending = .ok (Frames.ANSWER, raw) := by
  rw [replyIn, Frames.frameOf_frame (by decide) hle]
  exact if_pos (by decide)

/-- A script that went out on the connection's own socket is one more on its log. -/
theorem logged_asked {base : ℕ} {log : ℕ → List Script} {c : Connection} {w : World}
    (h : Logged base log w) (hc : Held base c w) {asked : Script} {s' : Socket}
    (hs' : Spoken (log c.sock ++ [asked]) s') :
    Logged base (Function.update log c.sock (log c.sock ++ [asked])) (w.put c.sock s') ∧
      Held base c.spent (w.put c.sock s') := by
  refine ⟨h.put hc.opened hs'.carries, hc.base, hc.opened, ?_⟩
  rw [spent_sock, World.put_sockets_self]
  exact hs'.greeted

/-- **What a program is told over a connection** is the history of the connection, where the node
answered all that it heard and nothing else. -/
theorem told_over (hdiscerns : Discerns take) (program : Program Q A R) {base : ℕ}
    {log : ℕ → List Script} {c : Connection} {w : World} (h : Logged base log w)
    (hc : Held base c w) {events : List (Hearing α)}
    (hanswering : Answering events (w.sockets c.sock).flat)
    (hheard : listenOn take ((overConnection plan program (c, w)).2.2.sockets c.sock) =
      some ((log c.sock).filterMap (Script.taken take) ++ events.map Prod.fst)) :
    Told (Silent plan) (Loud plan) events program
      (.result (overConnection plan program (c, w)).1) := by
  induction program generalizing log c w events with
  | result r =>
      have hlog := (h.carries _ hc.base hc.opened).listenOn_eq take
      rw [overConnection, hlog] at hheard
      have hnone := List.self_eq_append_right.mp (Option.some.inj hheard)
      rw [List.map_eq_nil_iff.mp hnone]
      exact .refl _
  | ask q next ih =>
      rw [overConnection] at hheard ⊢
      cases hplan : plan q with
      | error a =>
          rw [hplan] at hheard
          exact .silent (.inl hplan) (ih a h hc hanswering hheard)
      | ok planned =>
          obtain ⟨question, make⟩ := planned
          rw [hplan] at hheard
          dsimp only at hheard ⊢
          rcases execute_cases question.keyed ⟨hc.greeted, h.carries _ hc.base hc.opened⟩ with
            ⟨e, c', hsock, hexecute⟩ | ⟨k, raw, s', hreply, hflat, hspoken, hexecute⟩ |
            ⟨e, s', hreply, hspoken, hexecute⟩
          · rw [hexecute] at hheard ⊢
            have hc' : Held base c' w := ⟨hsock ▸ hc.base, hsock ▸ hc.opened, hsock ▸ hc.greeted⟩
            rw [← hsock] at hanswering hheard
            exact .silent (.inr ⟨question, make, e, hplan, rfl⟩) (ih _ h hc' hanswering hheard)
          · generalize (w.sockets c.sock).flat = flat at hanswering hreply hflat
            cases hanswering with
            | nil => cases hflat
            | @cons heard outcomes events answer flat hread hle hrest =>
                rw [replyIn_answer hle] at hreply
                obtain ⟨rfl, rfl⟩ := Prod.mk.inj (Except.ok.inj hreply)
                rw [List.append_cancel_left hflat] at hrest
                have hanswered := hexecute rfl
                rw [hread] at hanswered
                rw [hanswered] at hheard ⊢
                -- The question went out, so it is what is heard next.
                obtain ⟨hlogged, hheld⟩ := logged_asked h hc hspoken
                obtain ⟨rest, hnext⟩ := heard_next hdiscerns _ hlogged hheld hc.base
                  (Function.update_self ..) hheard
                obtain ⟨rfl, -⟩ := List.cons.inj hnext
                refine .loud ⟨question, make, hplan, rfl, rfl⟩ (ih _ hlogged hheld ?_ ?_)
                · rwa [spent_sock, World.put_sockets_self]
                · rw [spent_sock, Function.update_self, List.filterMap_append,
                    List.filterMap_cons_some question.taken, List.append_assoc]
                  exact hheard
          · generalize (w.sockets c.sock).flat = flat at hanswering hreply
            cases hanswering with
            | nil =>
                rw [hexecute] at hheard
                obtain ⟨hlogged, hheld⟩ := logged_asked h hc hspoken
                obtain ⟨rest, hnext⟩ := heard_next hdiscerns _ hlogged hheld hc.base
                  (Function.update_self ..) hheard
                cases hnext
            | cons hread hle hrest =>
                rw [replyIn_answer hle] at hreply
                cases hreply

/-- A store goes through an event where it answers what was heard with the outcomes beside it. -/
def Serves {σ : Type} (step : α → σ → List Outcome × σ) (store : σ) (event : Hearing α)
    (store' : σ) : Prop :=
  step event.1 store = (event.2, store')

/-- **Sockets share a store.** Programs that each run over a connection of their own, to nodes that
answer what they hear and nothing else, are programs interleaved on the store, where the store went
through what all the nodes heard in one order and answered as they did. -/
theorem sockets_share_a_store {ι σ : Type} [Finite ι] [DecidableEq ι] (hdiscerns : Discerns take)
    {step : α → σ → List Outcome × σ} {address : ι → Str} {user password : ι → Option Str}
    {w₀ w : ι → World} {c : ι → Connection}
    (hconnect : ∀ i, connect (address i) (user i) (password i) (w₀ i) = .ok (c i) (w i))
    {programs : ι → Program Q A R} {history : ι → List (Hearing α)}
    (hanswering : ∀ i, Answering (history i) ((w i).sockets (c i).sock).flat)
    (hheard : ∀ i, listenOn take
      ((overConnection plan (programs i) (c i, w i)).2.2.sockets (c i).sock) =
        some ((history i).map Prod.fst))
    {store store' : σ} (hordered : Ordered (Serves step) store history store') :
    Reached (Answers (Silent plan) (Loud plan) (Serves step)) Undisturbed ⟨store, programs⟩
      ⟨store', fun i => .result (overConnection plan (programs i) (c i, w i)).1⟩ :=
  reached_of_told hordered fun i =>
    have hlogged := logged_of_connect (hconnect i)
    told_over hdiscerns (programs i) hlogged.1 hlogged.2 (hanswering i) (hheard i)

end

end TessariDB
