import TessariDB.Answer

/-!
# Outcomes Are Isolated

What one outcome of an answer says depends on its own bytes alone, and on no more of them
than this build knows.

`fullRecords` reads a Records outcome with every field present. It is local, so what follows
it does not matter; and where it succeeds, `records` does the same, because each of its
optional fields needs a byte at least (`records_of_full`).

## Main results

* `Answer.readAnswer_of_read`, `Answer.readAnswer_of_refused`: an answer is read body by body.
* `Answer.outcome_append`: a body that has every known field is not changed by what is
  appended to it.
* `answers_are_isolated`: both, with the unknown tags.
-/

namespace TessariDB

open ByteCodec Utf8 Get

namespace Answer

open Decode (counted)

/-! ### Locality -/

instance : Local name := by rw [name]; infer_instance
instance : Local names := by rw [names]; infer_instance
instance : Local row := by rw [row]; infer_instance
instance : Local recordsHead := by rw [recordsHead]; infer_instance
instance : Local note := by rw [note]; infer_instance
instance : Local noteList := by rw [noteList]; infer_instance
instance : Local only := by rw [only]; infer_instance
instance : Local exactness := by rw [exactness]; infer_instance
instance : Local correction := by rw [correction]; infer_instance
instance : Local suggestion := by rw [suggestion]; infer_instance

instance (records : Reader Records) [Local records] (rest : Bytes) (tag : ℕ) :
    Local (outcomeOf records rest tag) := by
  rw [outcomeOf]; infer_instance

/-! ### Bodies with every field -/

/-- A Records outcome with every field present. -/
def fullRecords : Reader Records := do
  let head ← recordsHead
  let notes ← noteList
  let only ← only
  let exactness ← exactness
  let suggestion ← suggestion
  return { head with notes, only, exactness, suggestion }

instance : Local fullRecords := by rw [fullRecords]; infer_instance

/-- A body of a known kind that carries every field this build knows. -/
def Full (raw : Bytes) : Prop :=
  ∃ tag rest o s, raw = tag :: rest ∧ tag.toNat ≤ 4 ∧
    outcomeOf fullRecords rest tag.toNat rest = .ok (o, s)

/-- With every field present, none is taken for absent. -/
theorem records_of_full {s s' : Bytes} {r : Records} (h : fullRecords s = .ok (r, s')) :
    records s = .ok (r, s') := by
  obtain ⟨head, s₁, hhead, h⟩ := bind_eq_ok.mp h
  obtain ⟨notes, s₂, hnotes, h⟩ := bind_eq_ok.mp h
  obtain ⟨flag, s₃, hflag, h⟩ := bind_eq_ok.mp h
  obtain ⟨claim, s₄, hclaim, h⟩ := bind_eq_ok.mp h
  obtain ⟨advice, s₅, hadvice, h⟩ := bind_eq_ok.mp h
  have hne : ∀ {α : Type} {g : Reader α} {t t' : Bytes} {a : α} {e : ProtocolError},
      g [] = .error e → g t = .ok (a, t') → t.isEmpty = false := by
    intro α g t t' a e hnil hrun
    rcases t with - | ⟨x, t⟩
    · cases hnil.symm.trans hrun
    · rfl
  have h₁ : s₁.isEmpty = false := hne (g := noteList) rfl hnotes
  have h₂ : s₂.isEmpty = false := hne (g := only) rfl hflag
  have h₃ : s₃.isEmpty = false := hne (g := exactness) rfl hclaim
  have h₄ : s₄.isEmpty = false := hne (g := suggestion) rfl hadvice
  rw [records, bind_of_ok hhead, exhausted_bind, h₁, if_neg Bool.false_ne_true,
    bind_of_ok hnotes, exhausted_bind, h₂, if_neg Bool.false_ne_true, bind_of_ok hflag,
    exhausted_bind, h₃, if_neg Bool.false_ne_true, bind_of_ok hclaim, exhausted_bind, h₄,
    if_neg Bool.false_ne_true, bind_of_ok hadvice]
  exact h

theorem outcome_cons (tag : UInt8) (rest : Bytes) :
    outcome (tag :: rest) = (outcomeOf records rest tag.toNat rest).map Prod.fst := by
  have htag : Reader.u8 "an outcome tag" (tag :: rest) = .ok (tag.toNat, rest) :=
    Reader.u8_eq_ok.mpr ⟨tag, rfl, rfl⟩
  rw [outcome, bind_of_ok htag]
  rfl

/-- The branch of an outcome does not look at what follows the tag, but for an unknown one. -/
theorem outcomeOf_congr {tag : ℕ} (htag : tag ≤ 4) (records : Reader Records)
    (rest rest' : Bytes) : outcomeOf records rest tag = outcomeOf records rest' tag := by
  obtain rfl | rfl | rfl | rfl | rfl : tag = 0 ∨ tag = 1 ∨ tag = 2 ∨ tag = 3 ∨ tag = 4 := by
    omega
  all_goals rfl

theorem outcomeOf_of_full {rest s s' : Bytes} {tag : ℕ} {o : Outcome}
    (h : outcomeOf fullRecords rest tag s = .ok (o, s')) :
    outcomeOf records rest tag s = .ok (o, s') := by
  by_cases htag : tag = 1
  · subst htag
    obtain ⟨r, s₁, hr, hpure⟩ := bind_eq_ok.mp
      (show (fullRecords >>= fun r => pure (.records r)) s = .ok (o, s') from h)
    change (records >>= fun r => pure (.records r)) s = .ok (o, s')
    rw [bind_of_ok (records_of_full hr)]
    exact hpure
  · rw [outcomeOf] at h ⊢
    simp only [htag, if_false] at h ⊢
    exact h

/-- **Forward compatibility.** Bytes appended to a body that has every known field change
nothing. -/
theorem outcome_append {raw : Bytes} (h : Full raw) (extra : Bytes) :
    ∃ o, outcome raw = .ok o ∧ outcome (raw ++ extra) = .ok o := by
  obtain ⟨tag, rest, o, s, rfl, htag, hrun⟩ := h
  refine ⟨o, ?_, ?_⟩
  · rw [outcome_cons, outcomeOf_of_full hrun]
    rfl
  · obtain ⟨b, rfl, hreads⟩ := Local.reads_of_ok hrun
    have hrun' := hreads (s ++ extra)
    rw [outcomeOf_congr htag fullRecords (b ++ s) (b ++ s ++ extra)] at hrun'
    rw [List.cons_append, outcome_cons, List.append_assoc,
      outcomeOf_of_full (by rw [List.append_assoc] at hrun'; exact hrun')]
    rfl

/-- An unknown tag keeps its bytes. -/
theorem outcome_unknown {tag : UInt8} (h : 4 < tag.toNat) (rest : Bytes) :
    outcome (tag :: rest) = .ok (.unknown tag.toNat rest) := by
  have hne : ∀ n ≤ 4, tag.toNat ≠ n := by omega
  rw [outcome_cons, outcomeOf]
  simp only [hne 0 (by omega), hne 1 (by omega), hne 2 (by omega), hne 3 (by omega),
    hne 4 (by omega), if_false]
  rfl

/-! ### An answer, body by body -/

/-- The Answer body of these outcome bodies. -/
def answerOf (bodies : List Bytes) : Writer :=
  Writer.u32 bodies.length ++ Put.concat (bodies.map Writer.lenbytes)

/-- An entry is read from its own bytes and nothing after them. -/
theorem entry_append {body b : Bytes} (hne : body ≠ []) (hb : Writer.lenbytes body = .ok b)
    (s : Bytes) :
    entry (b ++ s) = Get.mapError Raised.protocolError (Get.ofExcept (outcome body)) s := by
  obtain ⟨hmax, rfl⟩ := Writer.lenbytes_eq_ok.mp hb
  rw [UINT32_MAX] at hmax
  have hpos := List.length_pos_iff.mpr hne
  have hlen : Reader.u32 "an outcome length" (BigEndian.toBytes 4 body.length ++ (body ++ s)) =
      .ok (body.length, body ++ s) :=
    Reader.u32_eq_ok.mpr ⟨_, BigEndian.length_toBytes .., rfl,
      (BigEndian.ofBytes_toBytes (by omega)).symm⟩
  have hbody : Reader.fixed body.length "an outcome body" (body ++ s) = .ok (body, s) :=
    Reader.take_eq_ok.mpr ⟨rfl, rfl⟩
  rw [entry.eq_1, List.append_assoc, bind_of_ok (mapError_eq_ok.mpr hlen), if_neg (by omega),
    bind_of_ok (mapError_eq_ok.mpr hbody)]

theorem entry_reads {body b : Bytes} {o : Outcome} (hne : body ≠ [])
    (hb : Writer.lenbytes body = .ok b) (ho : outcome body = .ok o) : entry.Reads b o :=
  fun s => (entry_append hne hb s).trans (mapError_eq_ok.mpr (ofExcept_eq_ok.mpr ⟨ho, rfl⟩))

/-- Bodies that all read make an answer that reads. -/
theorem entries_reads {bodies : List Bytes} {os : List Outcome}
    (hne : ∀ body ∈ bodies, body ≠ [])
    (hos : List.Forall₂ (fun body o => outcome body = .ok o) bodies os) {b : Bytes}
    (hb : Put.concat (bodies.map Writer.lenbytes) = .ok b) :
    (repeatN bodies.length entry).Reads b os := by
  induction hos generalizing b with
  | nil =>
      obtain rfl := Except.ok.inj hb
      exact reads_pure []
  | cons ho _ ih =>
      obtain ⟨hbody, hrest⟩ := List.forall_mem_cons.mp hne
      obtain ⟨b₁, b₂, h₁, h₂, rfl⟩ := Put.append_eq_ok.mp hb
      exact (entry_reads hbody h₁ ho).bind ((ih hrest h₂).map _)

/-- A body that does not read makes an answer that does not. -/
theorem entries_refused {bodies : List Bytes} (hne : ∀ body ∈ bodies, body ≠ []) {b : Bytes}
    (hb : Put.concat (bodies.map Writer.lenbytes) = .ok b)
    (hfail : ∃ body ∈ bodies, ∃ e, outcome body = .error e) (s : Bytes) :
    ∃ e, repeatN bodies.length entry (b ++ s) = .error e := by
  induction bodies generalizing b with
  | nil => simp at hfail
  | cons body bodies ih =>
      obtain ⟨hbody, hrest⟩ := List.forall_mem_cons.mp hne
      obtain ⟨b₁, b₂, h₁, h₂, rfl⟩ := Put.append_eq_ok.mp hb
      have hentry := entry_append hbody h₁ (b₂ ++ s)
      rw [List.length_cons, repeatN, List.append_assoc]
      rcases ho : outcome body with e | o
      · rw [ho] at hentry
        exact ⟨_, bind_of_error hentry _⟩
      · rw [ho] at hentry
        obtain ⟨e, he⟩ := ih hrest h₂ (by
          obtain ⟨body', hmem, e, he⟩ := hfail
          rcases List.mem_cons.mp hmem with rfl | hmem
          · cases ho.symm.trans he
          · exact ⟨body', hmem, e, he⟩)
        exact ⟨e, (bind_of_ok hentry _).trans (bind_of_error he _)⟩

/-- Either every body reads, or one does not. -/
theorem all_read_or_not (bodies : List Bytes) :
    (∃ os, List.Forall₂ (fun body o => outcome body = .ok o) bodies os) ∨
      ∃ body ∈ bodies, ∃ e, outcome body = .error e := by
  induction bodies with
  | nil => exact .inl ⟨[], .nil⟩
  | cons body bodies ih =>
      rcases ho : outcome body with e | o
      · exact .inr ⟨body, List.mem_cons_self, e, ho⟩
      rcases ih with ⟨os, hos⟩ | ⟨body', hmem, hfail⟩
      · exact .inl ⟨o :: os, .cons ho hos⟩
      · exact .inr ⟨body', List.mem_cons_of_mem _ hmem, hfail⟩

theorem readAnswer_of_read {bodies : List Bytes} {os : List Outcome}
    (hne : ∀ body ∈ bodies, body ≠ [])
    (hos : List.Forall₂ (fun body o => outcome body = .ok o) bodies os) {raw : Bytes}
    (hraw : answerOf bodies = .ok raw) : readAnswer raw = .ok os := by
  obtain ⟨b₁, b₂, hcount, hbodies, rfl⟩ := Put.append_eq_ok.mp hraw
  have hread := (Reader.u32_inverts "the outcome count" bodies.length b₁ hcount).mapError
    Raised.protocolError
  have hrun := (hread.bind (f := fun count => repeatN count entry)
    (entries_reads hne hos hbodies)).eq_ok
  rw [readAnswer, entries, hrun]
  rfl

theorem readAnswer_of_refused {bodies : List Bytes} (hne : ∀ body ∈ bodies, body ≠ [])
    (hfail : ∃ body ∈ bodies, ∃ e, outcome body = .error e) {raw : Bytes}
    (hraw : answerOf bodies = .ok raw) : ∃ e, readAnswer raw = .error e := by
  obtain ⟨b₁, b₂, hcount, hbodies, rfl⟩ := Put.append_eq_ok.mp hraw
  have hread := (Reader.u32_inverts "the outcome count" bodies.length b₁ hcount).mapError
    Raised.protocolError
  obtain ⟨e, he⟩ := entries_refused hne hbodies hfail []
  rw [List.append_nil] at he
  refine ⟨e, ?_⟩
  rw [readAnswer, entries, bind_of_ok (hread b₂), Int.toNat_natCast, he]
  rfl

end Answer

open Answer

/-- **Outcomes are isolated and forward compatible.** An answer made of non-empty bodies reads
as what each of its bodies reads as on its own, and fails exactly when one of them does; a body
of an unknown tag always reads, as its tag and the rest of its bytes; and a body that has every
field this build knows reads the same with any bytes after it. -/
theorem answers_are_isolated :
    (∀ (bodies : List Bytes) (raw : Bytes), (∀ body ∈ bodies, body ≠ []) →
      answerOf bodies = .ok raw →
      (∀ os, readAnswer raw = .ok os ↔
        List.Forall₂ (fun body o => outcome body = .ok o) bodies os) ∧
      ((∃ e, readAnswer raw = .error e) ↔ ∃ body ∈ bodies, ∃ e, outcome body = .error e)) ∧
    (∀ (tag : UInt8) (rest : Bytes), 4 < tag.toNat →
      outcome (tag :: rest) = .ok (.unknown tag.toNat rest)) ∧
    ∀ raw extra : Bytes, Full raw → ∃ o, outcome raw = .ok o ∧ outcome (raw ++ extra) = .ok o := by
  refine ⟨fun bodies raw hne hraw => ?_, fun tag rest h => outcome_unknown h rest,
    fun raw extra h => outcome_append h extra⟩
  rcases all_read_or_not bodies with ⟨os, hos⟩ | hfail
  · have hread := readAnswer_of_read hne hos hraw
    constructor
    · intro os'
      refine ⟨fun h => ?_, fun h => readAnswer_of_read hne h hraw⟩
      obtain rfl := Except.ok.inj (hread.symm.trans h)
      exact hos
    · refine ⟨fun ⟨e, he⟩ => (nomatch hread.symm.trans he), fun hfail => ?_⟩
      exact readAnswer_of_refused hne hfail hraw
  · obtain ⟨e, he⟩ := readAnswer_of_refused hne hfail hraw
    constructor
    · intro os
      refine ⟨fun h => (nomatch he.symm.trans h), fun h => ?_⟩
      exact readAnswer_of_read hne h hraw
    · exact ⟨fun _ => hfail, fun _ => ⟨e, he⟩⟩

/-- An answer of a count of removed records with a byte of a later version, and of an unknown
outcome. -/
theorem answers_are_isolated_later :
    readAnswer [0, 0, 0, 2, 0, 0, 0, 10, 4, 0, 0, 0, 0, 0, 0, 0, 3, 9, 0, 0, 0, 2, 77, 5] =
        .ok [.removed 3, .unknown 77 [5]] ∧
      outcome [4, 0, 0, 0, 0, 0, 0, 0, 3, 9] = .ok (.removed 3) := by
  obtain ⟨hread, hunknown, happend⟩ := answers_are_isolated
  obtain ⟨o, ho, hlater⟩ := happend [4, 0, 0, 0, 0, 0, 0, 0, 3] [9]
    ⟨4, [0, 0, 0, 0, 0, 0, 0, 3], .removed 3, [], rfl, by decide, rfl⟩
  obtain rfl := Except.ok.inj (ho.symm.trans (rfl : _ = Except.ok (Outcome.removed 3)))
  refine ⟨((hread [[4, 0, 0, 0, 0, 0, 0, 0, 3, 9], [77, 5]] _ (by decide) rfl).1 _).mpr ?_, hlater⟩
  exact .cons hlater (.cons (hunknown 77 [5] (by decide)) .nil)

end TessariDB
