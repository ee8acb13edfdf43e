import TessariDB.JsonRestored
import TessariDB.OlderRecords
import TessariDB.Script

/-!
# One Outcome, Two Transports

A records outcome as a node has it (`RecordsOutcome`), written for the wire (`writeAnswer`) and
written as a document (`InDocument`). The wire says by where a body ends, and by a state byte,
what the document says by the keys it has and by the length of a list.

## Main results

* `RecordsOutcome.readAnswer_written`: what the answer reader makes of the one.
* `RecordsOutcome.readOutcome_written`: what the script reader makes of the other.
* `transports_agree`: the two say the same, and it is what the node had.
-/

namespace TessariDB

open ByteCodec Utf8 Text Script

/-! ### What a node has to say -/

/-- Advice, with a correction at least where it is corrections. -/
inductive Advice where
  | notConsulted
  | complete
  | corrections (first : Correction) (others : List Correction)

/-- Nothing, or how exact the answer is, with the reason when it is not, and advice. -/
inductive Remark where
  | unstated
  | stated (inexact : Option Str) (advice : Advice)

/-- A row, with the bytes and the document of its value. -/
structure SharedRow (python : Interpreter) (reading : Reading) where
  identity : Str
  payload : Bytes
  value : Value
  decodes : decode payload = .ok value
  document : Json
  loaded : Loaded
  reads : ∃ kind, reading.value = some kind ∧
    JsonValues.readValue python kind document = .ok loaded

/-- A records outcome whose rows read at the declared kind. -/
structure RecordsOutcome (python : Interpreter) (reading : Reading) where
  path : AccessPath
  rows : List (SharedRow python reading)
  notes : List Note
  only : Bool
  remark : Remark

def Advice.suggestion : Advice → Suggestion
  | .notConsulted => .notConsulted
  | .complete => .complete
  | .corrections first others => .corrections (first :: others)

namespace Remark

def exactness : Remark → Exactness
  | .unstated => .unstated
  | .stated none _ => .exact
  | .stated (some reason) _ => .inexact reason

def suggestion : Remark → Suggestion
  | .unstated => .notConsulted
  | .stated _ advice => advice.suggestion

end Remark

/-! ### On the wire -/

def AccessPath.byte : AccessPath → UInt8
  | .record => 0
  | .index => 1
  | .scan => 2
  | .ordered => 3
  | .approximate => 4
  | .graph => 5
  | .join => 6
  | .materialised => 7
  | .span => 8

theorem AccessPath.fromByte_byte (path : AccessPath) : fromByte path.byte.toNat = path := by
  cases path <;> rfl

namespace RecordsOutcome

variable {python : Interpreter} {reading : Reading} (o : RecordsOutcome python reading)
  (names : List (ℕ × Str))

/-- The parts of the body, with the table names the node resolved. -/
def body : RecordsBody where
  path := o.path.byte
  names
  rows := o.rows.map fun row => ⟨row.identity, row.payload, row.value, row.decodes⟩
  notes := o.notes
  only := if o.only then 1 else 0
  exactness := match o.remark with
    | .stated (some _) _ => 1
    | _ => 0
  reason := match o.remark with
    | .stated (some reason) _ => reason
    | _ => []
  suggestion := o.remark.suggestion

/-- What follows the only flag: the body ends there when nothing is stated. -/
def writeRemark : Writer :=
  match o.remark with
  | .unstated => .ok []
  | .stated _ _ => (o.body names).writeExactness ++ (o.body names).writeSuggestion

/-- The outcome, behind its tag. -/
def writeOutcome : Writer :=
  Writer.u8 1 ++ ((o.body names).writeHead ++ ((o.body names).writeNotes ++
    ((o.body names).writeOnly ++ o.writeRemark names)))

/-- The answer of a script that is one statement. -/
def writeAnswer : Writer :=
  (o.writeOutcome names).bind fun outcome => Answer.answerOf [outcome]

/-- What the answer reader makes of it. -/
def record : Records where
  path := o.path
  names := Dict.ofPairs names
  rows := o.rows.map fun row => ⟨row.identity, row.value⟩
  notes := o.notes
  only := o.only
  exactness := o.remark.exactness
  suggestion := o.remark.suggestion

theorem only_body : decide ((o.body names).only.toNat ≠ 0) = o.only := by
  rw [body]
  cases o.only <;> rfl

theorem flagged_body (h : o.remark = .unstated) : (o.body names).flagged = o.record names := by
  rw [RecordsBody.flagged, RecordsBody.noted, RecordsBody.head, record, only_body, body, h,
    AccessPath.fromByte_byte, List.map_map]
  rfl

theorem record_body {inexact : Option Str} {advice : Advice}
    (h : o.remark = .stated inexact advice) : (o.body names).record = o.record names := by
  rw [RecordsBody.record, RecordsBody.claimed, RecordsBody.flagged, RecordsBody.noted,
    RecordsBody.head, record, only_body, body, h, AccessPath.fromByte_byte, List.map_map]
  cases inexact <;> rfl

/-- **The wire's side.** -/
theorem readAnswer_written {raw : Bytes} (h : o.writeAnswer names = .ok raw) :
    readAnswer raw = .ok [.records (o.record names)] := by
  obtain ⟨bytes, hbytes, hanswer⟩ := Sequences.bind_eq_ok.mp h
  obtain ⟨tag, s₁, htag, h₁, rfl⟩ := Put.append_eq_ok.mp hbytes
  obtain ⟨H, s₂, hH, h₂, rfl⟩ := Put.append_eq_ok.mp h₁
  obtain ⟨N, s₃, hN, h₃, rfl⟩ := Put.append_eq_ok.mp h₂
  obtain ⟨O, R, hO, hR, rfl⟩ := Put.append_eq_ok.mp h₃
  obtain rfl : tag = [1] := (Except.ok.inj htag).symm
  have houtcome : Answer.outcome (1 :: (H ++ (N ++ (O ++ R)))) =
      .ok (.records (o.record names)) := by
    cases hremark : o.remark with
    | unstated =>
        rw [writeRemark, hremark] at hR
        obtain rfl := Except.ok.inj hR
        have hE : (o.body names).writeExactness = .ok [0, 0, 0, 0, 0] := by
          rw [RecordsBody.writeExactness, body, hremark]
          rfl
        have hS : (o.body names).writeSuggestion = .ok [0] := by
          rw [RecordsBody.writeSuggestion, body, hremark]
          rfl
        obtain ⟨-, -, hflagged, -⟩ := Answer.records_places _ hH hN hO hE hS
        rw [flagged_body o names hremark] at hflagged
        rw [List.append_nil]
        exact Answer.outcome_records hflagged
    | stated inexact advice =>
        rw [writeRemark, hremark] at hR
        obtain ⟨E, S, hE, hS, rfl⟩ := Put.append_eq_ok.mp hR
        obtain ⟨-, -, -, -, hrecord⟩ := Answer.records_places _ hH hN hO hE hS
        rw [record_body o names hremark] at hrecord
        exact Answer.outcome_records hrecord
  exact Answer.readAnswer_of_read (by simp) (.cons houtcome .nil) hanswer

end RecordsOutcome

/-! ### In a document -/

/-- An object with these members, whatever else it has. -/
def Holds (members : List (String × Json)) (node : Json) : Prop :=
  ∃ body, node = .object body ∧ ∀ m ∈ members, Dict.get? body (ofString m.1) = some m.2

theorem Holds.subscript {members : List (String × Json)} {node : Json} (h : Holds members node)
    {key : String} {held : Json} (hmem : (key, held) ∈ members) :
    Script.subscript node key = .ok held := by
  obtain ⟨body, rfl, hbody⟩ := h
  rw [Script.subscript, JsonValues.item, hbody _ hmem]

/-- An object of two members. -/
def pair (key other : String) (held beside : Json) : Json :=
  .object [(ofString key, held), (ofString other, beside)]

theorem holds_pair {key other : String} (h : ofString key ≠ ofString other) (held beside : Json) :
    Holds [(key, held), (other, beside)] (pair key other held beside) :=
  ⟨_, rfl, by simp [Dict.get?, h]⟩

section Documents

variable {python : Interpreter} {reading : Reading}

def InRow (row : SharedRow python reading) : Json → Prop :=
  Holds [("id", .string row.identity), ("value", row.document)]

def InNote (note : Note) : Json → Prop :=
  Holds [("kind", .string note.kind), ("message", .string note.message)]

def InCorrection (correction : Correction) : Json → Prop :=
  Holds [("typed", .string correction.typed), ("instead", .string correction.instead)]

/-- `exact` is there when the node stated it, and `inexact` when it is not. -/
structure InPlan (path : AccessPath) (remark : Remark) (plan : List (Str × Json)) : Prop where
  access : Dict.get? plan (ofString "access") = some (.string path.word)
  exact : Dict.get? plan (ofString "exact") =
    match remark with
    | .unstated => none
    | .stated inexact _ => some (.bool inexact.isNone)
  inexact : ∀ reason advice, remark = .stated (some reason) advice →
    Dict.get? plan (ofString "inexact") = some (.string reason)

/-- The key is left out, or holds a list that may be empty. -/
def InSuggestion : Suggestion → Option Json → Prop
  | .notConsulted, held => held = none
  | .complete, held => ∃ node, held = some node ∧ Holds [("corrections", .array [])] node
  | .corrections items, held => ∃ node cs, held = some node ∧
      Holds [("corrections", .array cs)] node ∧ List.Forall₂ InCorrection items cs

/-- The members of the document of an outcome. -/
structure RecordsOutcome.InDocument (o : RecordsOutcome python reading)
    (node : List (Str × Json)) : Prop where
  kind : Dict.get? node (ofString "kind") = some (.string (ofString "records"))
  path : Dict.get? node (ofString "path") = some (.string o.path.word)
  plan : ∃ plan, Dict.get? node (ofString "plan") = some (.object plan) ∧
    InPlan o.path o.remark plan
  records : ∃ rows, Dict.get? node (ofString "records") = some (.array rows) ∧
    List.Forall₂ InRow o.rows rows
  notes : ∃ notes, List.Forall₂ InNote o.notes notes ∧
    Dict.get? node (ofString "notes") = if o.notes = [] then none else some (.array notes)
  only : Dict.get? node (ofString "only") = if o.only then some (.bool true) else none
  suggestion : InSuggestion o.remark.suggestion (Dict.get? node (ofString "suggestion"))

namespace RecordsOutcome

variable (o : RecordsOutcome python reading)

def rowDocument (row : SharedRow python reading) : Json :=
  pair "id" "value" (.string row.identity) row.document

def noteDocument (note : Note) : Json :=
  pair "kind" "message" (.string note.kind) (.string note.message)

def correctionDocument (correction : Correction) : Json :=
  pair "typed" "instead" (.string correction.typed) (.string correction.instead)

/-- The members a node writes, in its order. -/
def document : List (Str × Json) :=
  [(ofString "kind", .string (ofString "records")), (ofString "path", .string o.path.word),
    (ofString "plan", .object ((ofString "access", .string o.path.word) ::
      match o.remark with
      | .unstated => []
      | .stated none _ => [(ofString "exact", .bool true)]
      | .stated (some reason) _ =>
          [(ofString "exact", .bool false), (ofString "inexact", .string reason)])),
    (ofString "records", .array (o.rows.map rowDocument))] ++
  ((if o.notes = [] then [] else [(ofString "notes", .array (o.notes.map noteDocument))]) ++
  ((if o.only then [(ofString "only", .bool true)] else []) ++
  match o.remark.suggestion with
  | .notConsulted => []
  | .complete => [(ofString "suggestion", .object [(ofString "corrections", .array [])])]
  | .corrections items => [(ofString "suggestion",
      .object [(ofString "corrections", .array (items.map correctionDocument))])]))

/-- Every outcome can be written so. -/
theorem inDocument_document : o.InDocument o.document := by
  have hall : ∀ {α : Type} {r : α → Json → Prop} {f : α → Json} (as : List α),
      (∀ a, r a (f a)) → List.Forall₂ r as (as.map f) := by
    intro α r f as h
    rw [List.forall₂_map_right_iff, List.forall₂_same]
    exact fun a _ => h a
  have hrow : ∀ row : SharedRow python reading, InRow row (rowDocument row) := fun row =>
    holds_pair (by decide) _ _
  have hnote : ∀ note, InNote note (noteDocument note) := fun note => holds_pair (by decide) _ _
  have hcorrection : ∀ c, InCorrection c (correctionDocument c) := fun c =>
    holds_pair (by decide) _ _
  obtain ⟨path, rows, notes, only, remark⟩ := o
  refine ⟨rfl, rfl, ⟨_, rfl, rfl, ?_, ?_⟩, ⟨_, rfl, hall rows hrow⟩,
    ⟨notes.map noteDocument, hall notes hnote, ?_⟩, ?_, ?_⟩
  · rcases remark with - | ⟨- | reason, advice⟩ <;> rfl
  · rintro reason advice rfl
    rfl
  · rw [document]
    cases notes <;> cases only <;> rcases remark.suggestion with - | - | items <;> rfl
  · rw [document]
    cases notes <;> cases only <;> rcases remark.suggestion with - | - | items <;> rfl
  · rw [document]
    rcases remark.suggestion with - | - | items
    · cases notes <;> cases only <;> rfl
    · refine ⟨_, ?_, [(ofString "corrections", .array [])], rfl, by simp [Dict.get?]⟩
      cases notes <;> cases only <;> rfl
    · refine ⟨_, items.map correctionDocument, ?_,
        ⟨[(ofString "corrections", .array (items.map correctionDocument))], rfl,
          by simp [Dict.get?]⟩, hall items hcorrection⟩
      cases notes <;> cases only <;> rfl

end RecordsOutcome

/-! ### What the script reader makes of it -/

/-- A text of an outcome, in a document. -/
def Script.ScriptNote.of (note : Note) : ScriptNote := ⟨.string note.kind, .string note.message⟩

def Script.ScriptCorrection.of (correction : Correction) : ScriptCorrection :=
  ⟨.string correction.typed, .string correction.instead⟩

def Script.ScriptExactness.of : Exactness → ScriptExactness
  | .exact => .exact
  | .inexact reason => .inexact (.string reason)
  | .unstated => .unstated

def Script.ScriptSuggestion.of : Suggestion → ScriptSuggestion
  | .notConsulted => .notConsulted
  | .complete => .complete
  | .corrections items => .corrections (items.map ScriptCorrection.of)

theorem readPath_word (path : AccessPath) :
    readPath python (.string path.word) = .ok path := by
  have hfind : (PATHS.find? fun known => known.word = path.word) = some path := by
    cases path <;> decide
  rw [readPath, hfind]

theorem readRow_written {row : SharedRow python reading} {node : Json} (h : InRow row node) :
    readRow python reading node = .ok ⟨.string row.identity, row.loaded⟩ := by
  obtain ⟨kind, hkind, hread⟩ := row.reads
  rw [readRow, hkind]
  dsimp only
  rw [h.subscript (.head _), h.subscript (.tail _ (.head _))]
  change (JsonValues.readValue python kind row.document).bind _ = _
  rw [hread]
  rfl

theorem readNote_written {note : Note} {node : Json} (h : InNote note node) :
    readNote node = .ok (.of note) := by
  rw [readNote, h.subscript (.head _), h.subscript (.tail _ (.head _))]
  rfl

theorem readCorrection_written {correction : Correction} {node : Json}
    (h : InCorrection correction node) : readCorrection node = .ok (.of correction) := by
  rw [readCorrection, h.subscript (.head _), h.subscript (.tail _ (.head _))]
  rfl

/-- What is read element by element, of elements that were written so. -/
theorem mapM_written {α β : Type} {r : α → Json → Prop} {read : Json → Except JsonRaised β}
    {f : α → β} {as : List α} {nodes : List Json} (h : List.Forall₂ r as nodes)
    (hread : ∀ a node, r a node → read node = .ok (f a)) : nodes.mapM read = .ok (as.map f) := by
  rw [Sequences.mapM_eq_ok, List.forall₂_map_right_iff]
  exact h.flip.imp fun node a hr => hread a node hr

theorem planExactness_written {path : AccessPath} {remark : Remark} {plan : List (Str × Json)}
    (h : InPlan path remark plan) : planExactness (.object plan) = .ok (.of remark.exactness) := by
  have hexact := h.exact
  rw [planExactness, contains, subscript, JsonValues.item, Script.get]
  rcases remark with - | ⟨- | reason, advice⟩
  · rw [hexact]
    rfl
  · rw [hexact]
    rfl
  · rw [hexact, h.inexact reason advice rfl]
    rfl

theorem readSuggestion_written {node : List (Str × Json)} {suggestion : Suggestion}
    (hsome : suggestion ≠ .corrections [])
    (h : InSuggestion suggestion (Dict.get? node (ofString "suggestion"))) :
    readSuggestion node = .ok (.of suggestion) := by
  rw [readSuggestion]
  cases suggestion with
  | notConsulted =>
      rw [h]
      rfl
  | complete =>
      obtain ⟨_, hheld, body, rfl, hbody⟩ := h
      have hempty : Dict.get? body (ofString "corrections") = some (.array []) := hbody _ (.head _)
      rw [hheld]
      dsimp only
      rw [Script.get, hempty]
      rfl
  | corrections items =>
      obtain ⟨_, cs, hheld, ⟨body, rfl, hbody⟩, hitems⟩ := h
      have hlist : Dict.get? body (ofString "corrections") = some (.array cs) := hbody _ (.head _)
      have htruthy : (Json.array cs).truthy = true := by
        cases hitems with
        | nil => exact absurd rfl hsome
        | cons _ _ => rfl
      have hread := mapM_written hitems fun _ _ => readCorrection_written
      rw [hheld]
      dsimp only
      rw [Script.get, hlist]
      change (if (Json.array cs).truthy then
        (cs.mapM readCorrection).bind fun items => .ok (ScriptSuggestion.corrections items)
        else _) = _
      rw [if_pos htruthy, hread]
      rfl

theorem Remark.suggestion_ne (remark : Remark) : remark.suggestion ≠ .corrections [] := by
  rcases remark with - | ⟨-, - | - | ⟨first, others⟩⟩
  all_goals exact fun h => by cases h

namespace RecordsOutcome

variable (o : RecordsOutcome python reading)

/-- What the script reader makes of the outcome, but for the details of the plan. -/
def scriptRecord (details : List (Str × Json)) : ScriptRecords where
  path := o.path
  plan :=
    { access := .string o.path.word
      exactness := .of o.remark.exactness
      details }
  rows := o.rows.map fun row => ⟨.string row.identity, row.loaded⟩
  notes := o.notes.map .of
  only := o.only
  suggestion := .of o.remark.suggestion

/-- **The document's side.** -/
theorem readOutcome_written {node : List (Str × Json)} (h : o.InDocument node) :
    ∃ details, readOutcome python reading (.object node) =
      .ok (.records (o.scriptRecord details)) := by
  obtain ⟨plan, hplan, hin⟩ := h.plan
  obtain ⟨rows, hrows, hwritten⟩ := h.records
  obtain ⟨notes, hnotes, hheld⟩ := h.notes
  have hrowList := mapM_written hwritten fun _ _ => readRow_written
  have hnoteList : (JsonValues.iterate ((Dict.get? node (ofString "notes")).getD (.array []))) =
      .ok (if o.notes = [] then [] else notes) := by
    rw [hheld]
    split <;> rfl
  have hnoteRead : (if o.notes = [] then [] else notes).mapM readNote =
      .ok (o.notes.map .of) := by
    split
    · next hnil =>
      rw [hnil]
      rfl
    · exact mapM_written hnotes fun _ _ => readNote_written
  have honly : ((Dict.get? node (ofString "only")).getD (.bool false)).truthy = o.only := by
    rw [h.only]
    cases o.only <;> rfl
  obtain ⟨details, hdetails⟩ : ∃ details, planDetails (.object plan) = .ok details := ⟨_, rfl⟩
  have hread : readPlan (.object plan) =
      .ok ⟨.string o.path.word, .of o.remark.exactness, details⟩ := by
    rw [readPlan, planExactness_written hin, hdetails, Script.get, hin.access]
    rfl
  have hrecords : readRecords python reading node = .ok (o.scriptRecord details) := by
    rw [readRecords, h.path, hrows, hnoteList, hplan, honly]
    refine Sequences.bind_eq_ok.mpr ⟨_, readPath_word o.path, ?_⟩
    refine Sequences.bind_eq_ok.mpr ⟨_, rfl, Sequences.bind_eq_ok.mpr ⟨_, hrowList, ?_⟩⟩
    refine Sequences.bind_eq_ok.mpr ⟨_, rfl, Sequences.bind_eq_ok.mpr ⟨_, hnoteRead, ?_⟩⟩
    refine Sequences.bind_eq_ok.mpr ⟨_, hread, ?_⟩
    exact Sequences.bind_eq_ok.mpr
      ⟨_, readSuggestion_written o.remark.suggestion_ne h.suggestion, rfl⟩
  refine ⟨details, ?_⟩
  rw [readOutcome, h.kind]
  change (readRecords python reading node).bind _ = _
  rw [hrecords]
  rfl

end RecordsOutcome

end Documents

/-! ### Both -/

/-- What one reader and the other make of an outcome, but for values and table names. -/
structure SameOutcome (wire : Records) (document : ScriptRecords) : Prop where
  path : document.path = wire.path
  identities : document.rows.map (·.identity) = wire.rows.map fun row => .string row.identity
  notes : document.notes = wire.notes.map .of
  only : document.only = wire.only
  exactness : document.plan.exactness = .of wire.exactness
  suggestion : document.suggestion = .of wire.suggestion

/-- **The two transports read the same outcome**, and it is the one the node had. -/
theorem transports_agree {python : Interpreter} {reading : Reading}
    (o : RecordsOutcome python reading) (names : List (ℕ × Str)) {raw : Bytes}
    {node : List (Str × Json)} (hraw : o.writeAnswer names = .ok raw) (hnode : o.InDocument node) :
    ∃ wire document, readAnswer raw = .ok [.records wire] ∧
      readOutcome python reading (.object node) = .ok (.records document) ∧
      SameOutcome wire document ∧ document.plan.access = .string document.path.word ∧
      wire.path = o.path ∧ wire.rows.map (·.identity) = o.rows.map (·.identity) ∧
      wire.notes = o.notes ∧ wire.only = o.only ∧ wire.exactness = o.remark.exactness ∧
      wire.suggestion = o.remark.suggestion := by
  obtain ⟨details, hdocument⟩ := o.readOutcome_written hnode
  refine ⟨o.record names, o.scriptRecord details, o.readAnswer_written names hraw, hdocument,
    ⟨rfl, ?_, rfl, rfl, rfl, rfl⟩, rfl, rfl, ?_, rfl, rfl, rfl, rfl⟩
  · rw [RecordsOutcome.scriptRecord, RecordsOutcome.record, List.map_map, List.map_map]
    rfl
  · rw [RecordsOutcome.record, List.map_map]
    rfl

/-- A record found by an index, inexactly, with a correction. -/
def nearby : RecordsOutcome (JsonValues.asciiInterpreter 0 JsonValues.unlimited) ⟨some .bool⟩ where
  path := .index
  rows := [⟨ofString "ada", [3, 1], .bool true, rfl, .bool true, .value (.bool true), _, rfl, rfl⟩]
  notes := [⟨ofString "k", []⟩]
  only := true
  remark := .stated (some (ofString "why")) (.corrections ⟨ofString "a", ofString "b"⟩ [])

theorem transports_agree_nearby :
    ∃ raw wire document, nearby.writeAnswer [] = .ok raw ∧ readAnswer raw = .ok [.records wire] ∧
      readOutcome (JsonValues.asciiInterpreter 0 JsonValues.unlimited) ⟨some .bool⟩
        (.object nearby.document) = .ok (.records document) ∧ SameOutcome wire document := by
  obtain ⟨wire, document, hwire, hdocument, hsame, -⟩ :=
    transports_agree nearby [] rfl nearby.inDocument_document
  exact ⟨_, wire, document, rfl, hwire, hdocument, hsame⟩

end TessariDB
