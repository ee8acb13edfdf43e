import TessariDB.AnswerIsolation

/-!
# Records Outcomes of Older Nodes

A node that predates a field of the Records outcome ends the body where the field would begin.
A complete body has four such places. Cut at one of them it reads as the same record with the
later fields at their absent values; cut anywhere else after its tag it is refused.

`RecordsBody` is a complete body in parts, with the value that each row's payload decodes to.

## Main results

* `Answer.records_cut`: what a strict prefix of a complete body reads as.
* `older_records_bodies`: the four places, and what it takes to be read as exact.
-/

namespace TessariDB

open ByteCodec Utf8 Get

/-- A row as it is written, with the value its payload decodes to. -/
structure WrittenRow where
  identity : Str
  payload : Bytes
  value : Value
  reads : decode payload = .ok value

/-- A complete Records outcome, field by field. -/
structure RecordsBody where
  path : UInt8
  names : List (ℕ × Str)
  rows : List WrittenRow
  notes : List Note
  only : UInt8
  exactness : UInt8
  reason : Str
  suggestion : Suggestion

namespace RecordsBody

/-! ### Its bytes -/

def writeHead (b : RecordsBody) : Writer :=
  Writer.u8 b.path.toNat ++
    ((Writer.u32 b.names.length ++
      Put.concat (b.names.map fun n => Writer.u32 n.1 ++ Writer.text n.2)) ++
    (Writer.u32 b.rows.length ++
      Put.concat (b.rows.map fun r => Writer.text r.identity ++ Writer.lenbytes r.payload)))

def writeNotes (b : RecordsBody) : Writer :=
  Writer.u32 b.notes.length ++
    Put.concat (b.notes.map fun n => Writer.text n.kind ++ Writer.text n.message)

def writeOnly (b : RecordsBody) : Writer := Writer.u8 b.only.toNat

def writeExactness (b : RecordsBody) : Writer :=
  Writer.u8 b.exactness.toNat ++ Writer.text b.reason

def writeSuggestion (b : RecordsBody) : Writer :=
  match b.suggestion with
  | .notConsulted => Writer.u8 0
  | .complete => Writer.u8 1
  | .corrections items =>
      Writer.u8 2 ++ (Writer.u32 items.length ++
        Put.concat (items.map fun c => Writer.text c.typed ++ Writer.text c.instead))

/-! ### The record it says, as far as it goes -/

/-- Through the rows. -/
def head (b : RecordsBody) : Records where
  path := AccessPath.fromByte b.path.toNat
  names := Dict.ofPairs b.names
  rows := b.rows.map fun r => ⟨r.identity, r.value⟩

/-- Through the notes. -/
def noted (b : RecordsBody) : Records := { b.head with notes := b.notes }

/-- Through the only flag. -/
def flagged (b : RecordsBody) : Records := { b.noted with only := b.only.toNat ≠ 0 }

/-- Through the exactness reason. -/
def claimed (b : RecordsBody) : Records :=
  { b.flagged with exactness := if b.exactness.toNat = 0 then .exact else .inexact b.reason }

/-- All of it. -/
def record (b : RecordsBody) : Records := { b.claimed with suggestion := b.suggestion }

end RecordsBody

namespace Answer

open Decode (counted counted_inverts_self)

/-! ### Each part reads back -/

theorem byte_inverts (what : String) (byte : UInt8) :
    (Reader.u8 what).Inverts (Writer.u8 byte.toNat) byte.toNat :=
  Reader.u8_inverts what byte.toNat

theorem name_inverts (n : ℕ × Str) :
    name.Inverts (Writer.u32 n.1 ++ Writer.text n.2) n :=
  (Reader.u32_inverts _ n.1).bind ((Reader.text_inverts _ n.2).map _)

theorem row_inverts (r : WrittenRow) :
    row.Inverts (Writer.text r.identity ++ Writer.lenbytes r.payload) ⟨r.identity, r.value⟩ := by
  refine (Reader.text_inverts _ r.identity).bind fun c hc => ?_
  have hpayload := (Reader.lenbytes_inverts "a record value" r.payload c hc).bind
    (f := fun raw => Get.ofExcept (decode raw) >>= fun value =>
      (pure ⟨r.identity, value⟩ : Reader Row)) ((reads_ofExcept r.reads).map _)
  rwa [List.append_nil] at hpayload

theorem recordsHead_inverts (b : RecordsBody) : recordsHead.Inverts b.writeHead b.head := by
  have hnames : names.Inverts _ (Dict.ofPairs b.names) :=
    (counted_inverts_self _ name_inverts b.names).map _
  have hrows : (counted "a record count" row).Inverts _ b.head.rows :=
    inverts_of_below fun _ => Decode.counted_inverts _ fun r _ => (row_inverts r).below
  exact (byte_inverts _ b.path).bind (hnames.bind (hrows.map _))

theorem note_inverts (n : Note) :
    note.Inverts (Writer.text n.kind ++ Writer.text n.message) n :=
  (Reader.text_inverts _ n.kind).bind ((Reader.text_inverts _ n.message).map _)

theorem noteList_inverts (b : RecordsBody) : noteList.Inverts b.writeNotes b.notes :=
  counted_inverts_self _ note_inverts b.notes

theorem only_inverts (b : RecordsBody) :
    only.Inverts b.writeOnly (decide (b.only.toNat ≠ 0)) :=
  (byte_inverts _ b.only).map _

theorem exactness_inverts (b : RecordsBody) :
    exactness.Inverts b.writeExactness
      (if b.exactness.toNat = 0 then .exact else .inexact b.reason) :=
  (byte_inverts _ b.exactness).bind ((Reader.text_inverts _ b.reason).map _)

theorem correction_inverts (c : Correction) :
    correction.Inverts (Writer.text c.typed ++ Writer.text c.instead) c :=
  (Reader.text_inverts _ c.typed).bind ((Reader.text_inverts _ c.instead).map _)

theorem suggestion_inverts (b : RecordsBody) :
    suggestion.Inverts b.writeSuggestion b.suggestion := by
  rcases hb : b.suggestion with - | - | items
  · rw [RecordsBody.writeSuggestion, hb]
    dsimp only
    rw [← Put.append_ok_nil (Writer.u8 0)]
    exact (Reader.u8_inverts _ 0).bind (inverts_nil _)
  · rw [RecordsBody.writeSuggestion, hb]
    dsimp only
    rw [← Put.append_ok_nil (Writer.u8 1)]
    exact (Reader.u8_inverts _ 1).bind (inverts_nil _)
  · rw [RecordsBody.writeSuggestion, hb]
    exact (Reader.u8_inverts _ 2).bind
      ((counted_inverts_self _ correction_inverts items).map _)

/-! ### The four places -/

/-- What is left of `records` after the rows, the notes, the flag and the reason. -/
def afterExactness (r : Records) (claim : Exactness) : Reader Records := do
  let advice ← suggestion
  return { r with exactness := claim, suggestion := advice }

def afterOnly (r : Records) (flag : Bool) : Reader Records := do
  let claim ← exactness
  if ← Get.exhausted then
    return { r with only := flag, exactness := claim }
  else
    afterExactness { r with only := flag } claim

def afterNotes (r : Records) (notes : List Note) : Reader Records := do
  let flag ← only
  if ← Get.exhausted then
    return { r with notes, only := flag }
  else
    afterOnly { r with notes } flag

def afterRows (head : Records) : Reader Records := do
  let notes ← noteList
  if ← Get.exhausted then
    return { head with notes }
  else
    afterNotes head notes

theorem records_eq :
    records = (do
      let head ← recordsHead
      if ← Get.exhausted then
        return head
      else
        afterRows head) := rfl

/-- **The four places.** A prefix of a complete body is refused, unless it ends after the
rows, the notes, the flag, the reason or at the end of the body. -/
theorem records_cut (b : RecordsBody) {H N O E S p q : Bytes} (hH : b.writeHead = .ok H)
    (hN : b.writeNotes = .ok N) (hO : b.writeOnly = .ok O) (hE : b.writeExactness = .ok E)
    (hS : b.writeSuggestion = .ok S) (hpq : H ++ (N ++ (O ++ (E ++ S))) = p ++ q) :
    (∃ e, records p = .error e) ∨ p = H ∨ p = H ++ N ∨ p = H ++ (N ++ O) ∨
      p = H ++ (N ++ (O ++ E)) ∨ q = [] := by
  have rH := recordsHead_inverts b H hH
  have rN := noteList_inverts b N hN
  have rO := only_inverts b O hO
  have rE := exactness_inverts b E hE
  have rS := suggestion_inverts b S hS
  rw [records_eq]
  rcases rH.cut hpq _ _ with he | rfl | ⟨p₁, hne₁, rfl, h₁, hrun₁⟩
  · exact .inl he
  · exact .inr (.inl rfl)
  rw [hrun₁]
  rcases rN.cut h₁ _ _ with he | rfl | ⟨p₂, hne₂, rfl, h₂, hrun₂⟩
  · exact .inl he
  · exact .inr (.inr (.inl rfl))
  rw [afterRows, hrun₂]
  rcases rO.cut h₂ _ _ with he | rfl | ⟨p₃, hne₃, rfl, h₃, hrun₃⟩
  · exact .inl he
  · exact .inr (.inr (.inr (.inl rfl)))
  rw [afterNotes, hrun₃]
  rcases rE.cut h₃ _ _ with he | rfl | ⟨p₄, hne₄, rfl, h₄, hrun₄⟩
  · exact .inl he
  · exact .inr (.inr (.inr (.inr (.inl rfl))))
  rw [afterOnly, hrun₄]
  rcases q with - | ⟨x, q⟩
  · exact .inr (.inr (.inr (.inr (.inr rfl))))
  · rw [h₄] at rS
    obtain ⟨e, he⟩ := rS.refused_of_prefix (List.cons_ne_nil x q)
    exact .inl ⟨e, bind_of_error he _⟩

/-- What the body reads as at each of the four places, and whole. -/
theorem records_places (b : RecordsBody) {H N O E S : Bytes} (hH : b.writeHead = .ok H)
    (hN : b.writeNotes = .ok N) (hO : b.writeOnly = .ok O) (hE : b.writeExactness = .ok E)
    (hS : b.writeSuggestion = .ok S) :
    records H = .ok (b.head, []) ∧ records (H ++ N) = .ok (b.noted, []) ∧
      records (H ++ (N ++ O)) = .ok (b.flagged, []) ∧
      records (H ++ (N ++ (O ++ E))) = .ok (b.claimed, []) ∧
      records (H ++ (N ++ (O ++ (E ++ S)))) = .ok (b.record, []) := by
  have rH := recordsHead_inverts b H hH
  have rN := noteList_inverts b N hN
  have rO := only_inverts b O hO
  have rE := exactness_inverts b E hE
  have rS := suggestion_inverts b S hS
  -- Every part is at least a byte, or its reader would have read nothing.
  have hne : ∀ {α : Type} {g : Reader α} {c : Bytes} {a : α} {e : ProtocolError},
      g [] = .error e → g.Reads c a → ∀ t, c ++ t ≠ [] := by
    rintro α g c a e hnil hg t ht
    obtain ⟨rfl, rfl⟩ := List.append_eq_nil_iff.mp ht
    cases hnil.symm.trans hg.eq_ok
  have nN := hne (g := noteList) rfl rN
  have nO := hne (g := only) rfl rO
  have nE := hne (g := exactness) rfl rE
  have nS := hne (g := suggestion) rfl rS
  rw [records_eq]
  refine ⟨rH.ended .., ?_, ?_, ?_, ?_⟩
  · rw [← List.append_nil N, rH.goes_on (nN _), List.append_nil]
    exact rN.ended ..
  · rw [rH.goes_on (nN _), afterRows, ← List.append_nil O, rN.goes_on (nO _), List.append_nil]
    exact rO.ended ..
  · rw [rH.goes_on (nN _), afterRows, rN.goes_on (nO _), afterNotes, ← List.append_nil E,
      rO.goes_on (nE _), List.append_nil]
    exact rE.ended ..
  · rw [rH.goes_on (nN _), afterRows, rN.goes_on (nO _), afterNotes, rO.goes_on (nE _),
      afterOnly, ← List.append_nil S, rE.goes_on (nS _), List.append_nil]
    exact (rS.map _).eq_ok

theorem outcome_records {s s' : Bytes} {r : Records} (h : records s = .ok (r, s')) :
    outcome (1 :: s) = .ok (.records r) := by
  rw [outcome_cons]
  change Except.map Prod.fst
    ((records >>= fun r => (pure (.records r) : Reader Outcome)) s) = _
  rw [bind_of_ok h]
  rfl

theorem outcome_refused {s : Bytes} {e : ProtocolError} (h : records s = .error e) :
    outcome (1 :: s) = .error e := by
  rw [outcome_cons]
  change Except.map Prod.fst
    ((records >>= fun r => (pure (.records r) : Reader Outcome)) s) = _
  rw [bind_of_error h]
  rfl

/-! ### What it takes to be exact -/

/-- A body from its tag through its only flag. -/
def throughOnly : Reader Unit := do
  let _ ← Reader.u8 "an outcome tag"
  let _ ← recordsHead
  let _ ← noteList
  let _ ← only
  return ()

instance : Local throughOnly := by rw [throughOnly]; infer_instance

theorem recordsHead_unstated {s s' : Bytes} {head : Records}
    (h : recordsHead s = .ok (head, s')) : head.exactness = .unstated := by
  obtain ⟨byte, s₁, -, h⟩ := bind_eq_ok.mp h
  obtain ⟨names, s₂, -, h⟩ := bind_eq_ok.mp h
  obtain ⟨rows, s₃, -, h⟩ := bind_eq_ok.mp h
  obtain ⟨rfl, -⟩ := pure_eq_ok.mp h
  rfl

theorem exactness_eq_exact {s s' : Bytes} (h : exactness s = .ok (.exact, s')) :
    ∃ text reason, s = 0 :: (text ++ s') ∧
      (Reader.text "the exactness reason").Reads text reason := by
  obtain ⟨byte, s₁, hbyte, h⟩ := bind_eq_ok.mp h
  obtain ⟨reason, s₂, hreason, h⟩ := bind_eq_ok.mp h
  obtain ⟨hclaim, rfl⟩ := pure_eq_ok.mp h
  obtain ⟨x, rfl, rfl⟩ := Reader.u8_eq_ok.mp hbyte
  obtain ⟨text, rfl, htext⟩ := Local.reads_of_ok hreason
  split at hclaim
  · next hx =>
    obtain rfl : x = 0 := UInt8.toNat_inj.mp hx
    exact ⟨text, reason, rfl, htext⟩
  · cases hclaim

/-- A record read as exact was read through its exactness. -/
theorem records_eq_exact {s s' : Bytes} {r : Records} (h : records s = .ok (r, s'))
    (hexact : r.exactness = .exact) :
    ∃ head s₁ notes s₂ flag s₃ s₄, recordsHead s = .ok (head, s₁) ∧
      noteList s₁ = .ok (notes, s₂) ∧ only s₂ = .ok (flag, s₃) ∧
      exactness s₃ = .ok (.exact, s₄) := by
  rw [records_eq] at h
  obtain ⟨head, s₁, hhead, h⟩ := bind_eq_ok.mp h
  have hunstated := recordsHead_unstated hhead
  rw [exhausted_bind] at h
  split at h
  · obtain ⟨rfl, -⟩ := pure_eq_ok.mp h
    cases hunstated.symm.trans hexact
  obtain ⟨notes, s₂, hnotes, h⟩ := bind_eq_ok.mp h
  rw [exhausted_bind] at h
  split at h
  · obtain ⟨rfl, -⟩ := pure_eq_ok.mp h
    cases hunstated.symm.trans hexact
  obtain ⟨flag, s₃, hflag, h⟩ := bind_eq_ok.mp h
  rw [exhausted_bind] at h
  split at h
  · obtain ⟨rfl, -⟩ := pure_eq_ok.mp h
    cases hunstated.symm.trans hexact
  obtain ⟨claim, s₄, hclaim, h⟩ := bind_eq_ok.mp h
  have hr : r.exactness = claim := by
    rw [exhausted_bind] at h
    split at h
    · obtain ⟨rfl, -⟩ := pure_eq_ok.mp h
      rfl
    · obtain ⟨advice, s₅, -, h⟩ := bind_eq_ok.mp h
      obtain ⟨rfl, -⟩ := pure_eq_ok.mp h
      rfl
  obtain rfl : claim = .exact := hr.symm.trans hexact
  exact ⟨head, s₁, notes, s₂, flag, s₃, s₄, hhead, hnotes, hflag, hclaim⟩

/-- An outcome that is a record has the tag of one. -/
theorem outcome_eq_records {raw : Bytes} {r : Records} (h : outcome raw = .ok (.records r)) :
    ∃ s s', raw = 1 :: s ∧ records s = .ok (r, s') := by
  rcases raw with - | ⟨tag, s⟩
  · cases h
  rw [outcome_cons] at h
  rcases hrun : outcomeOf records s tag.toNat s with e | ⟨o, s'⟩
  · rw [hrun] at h
    cases h
  rw [hrun] at h
  obtain rfl : o = .records r := Except.ok.inj h
  rw [outcomeOf] at hrun
  split at hrun
  · cases (pure_eq_ok.mp hrun).1
  split at hrun
  · next htag =>
    obtain rfl : tag = 1 := UInt8.toNat_inj.mp htag
    obtain ⟨r', s₁, hr, hpure⟩ := bind_eq_ok.mp hrun
    obtain ⟨hr', rfl⟩ := pure_eq_ok.mp hpure
    obtain rfl := Outcome.records.inj hr'
    exact ⟨s, s₁, rfl, hr⟩
  split at hrun
  · obtain ⟨_, _, -, hrun⟩ := bind_eq_ok.mp hrun
    obtain ⟨_, _, -, hrun⟩ := bind_eq_ok.mp hrun
    obtain ⟨_, _, -, hrun⟩ := bind_eq_ok.mp hrun
    cases (pure_eq_ok.mp hrun).1
  split at hrun
  · obtain ⟨_, _, -, hrun⟩ := bind_eq_ok.mp hrun
    cases (pure_eq_ok.mp hrun).1
  split at hrun
  · obtain ⟨_, _, -, hrun⟩ := bind_eq_ok.mp hrun
    cases (pure_eq_ok.mp hrun).1
  · cases (pure_eq_ok.mp hrun).1

end Answer

open Answer

/-- **An older node's Records body.** A complete body, and its prefix up to the rows, the
notes, the only flag or the exactness reason, read as the record with what follows at its
absent values; every other strict prefix that keeps the tag is refused. So whatever the bytes,
a record is read as exact only from a body that carries the exactness byte 0 and its reason. -/
theorem older_records_bodies :
    (∀ (b : RecordsBody) (H N O E S : Bytes), b.writeHead = .ok H → b.writeNotes = .ok N →
      b.writeOnly = .ok O → b.writeExactness = .ok E → b.writeSuggestion = .ok S →
      outcome (1 :: H) = .ok (.records b.head) ∧
      outcome (1 :: (H ++ N)) = .ok (.records b.noted) ∧
      outcome (1 :: (H ++ (N ++ O))) = .ok (.records b.flagged) ∧
      outcome (1 :: (H ++ (N ++ (O ++ E)))) = .ok (.records b.claimed) ∧
      outcome (1 :: (H ++ (N ++ (O ++ (E ++ S))))) = .ok (.records b.record) ∧
      ∀ p q : Bytes, H ++ (N ++ (O ++ (E ++ S))) = p ++ q → q ≠ [] → p ≠ H → p ≠ H ++ N →
        p ≠ H ++ (N ++ O) → p ≠ H ++ (N ++ (O ++ E)) →
        ∃ e : ProtocolError, outcome (1 :: p) = .error e) ∧
    ∀ (raw : Bytes) (r : Records), outcome raw = .ok (.records r) → r.exactness = .exact →
      ∃ before text reason rest, raw = before ++ 0 :: (text ++ rest) ∧
        throughOnly.Reads before () ∧
        (Reader.text "the exactness reason").Reads text reason := by
  constructor
  · intro b H N O E S hH hN hO hE hS
    obtain ⟨h₁, h₂, h₃, h₄, h₅⟩ := records_places b hH hN hO hE hS
    refine ⟨outcome_records h₁, outcome_records h₂, outcome_records h₃, outcome_records h₄,
      outcome_records h₅, fun p q hpq hq hne₁ hne₂ hne₃ hne₄ => ?_⟩
    rcases records_cut b hH hN hO hE hS hpq with ⟨e, he⟩ | h | h | h | h | h
    · exact ⟨e, outcome_refused he⟩
    · exact absurd h hne₁
    · exact absurd h hne₂
    · exact absurd h hne₃
    · exact absurd h hne₄
    · exact absurd h hq
  · intro raw r h hexact
    obtain ⟨s, s', rfl, hrecords⟩ := outcome_eq_records h
    obtain ⟨head, s₁, notes, s₂, flag, s₃, s₄, hhead, hnotes, hflag, hclaim⟩ :=
      records_eq_exact hrecords hexact
    have htag : Reader.u8 "an outcome tag" (1 :: s) = .ok (1, s) :=
      Reader.u8_eq_ok.mpr ⟨1, rfl, rfl⟩
    have hthrough : throughOnly (1 :: s) = .ok ((), s₃) := by
      rw [throughOnly, bind_of_ok htag, bind_of_ok hhead, bind_of_ok hnotes, bind_of_ok hflag]
      rfl
    obtain ⟨before, hbefore, hreads⟩ := Local.reads_of_ok hthrough
    obtain ⟨text, reason, rfl, htext⟩ := exactness_eq_exact hclaim
    exact ⟨before, text, reason, s₄, hbefore, hreads, htext⟩

/-- An empty result with one note, whole, cut after the note, and cut inside it. -/
theorem older_records_bodies_one_note :
    outcome [1, 2, 0, 0, 0, 0, 0, 0, 0, 0, 0, 0, 0, 1, 0, 0, 0, 1, 0x6B, 0, 0, 0, 0] =
        .ok (.records ⟨.scan, [], [], [⟨ofString "k", []⟩], false, .unstated, .notConsulted⟩) ∧
      ∃ e, outcome [1, 2, 0, 0, 0, 0, 0, 0, 0, 0, 0, 0, 0, 1, 0, 0] = .error e := by
  obtain ⟨-, hnoted, -, -, -, hcut⟩ := older_records_bodies.1
    ⟨2, [], [], [⟨ofString "k", []⟩], 0, 0, [], .complete⟩ _ _ _ _ _ rfl rfl rfl rfl rfl
  refine ⟨hnoted, hcut [2, 0, 0, 0, 0, 0, 0, 0, 0, 0, 0, 0, 1, 0, 0] _ rfl ?_ ?_ ?_ ?_ ?_⟩
  all_goals decide

end TessariDB
