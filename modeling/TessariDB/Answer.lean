import TessariDB.Codec

/-!
# Answers

The outcome model (`outcome.py`) and its reader (`_answer.py`). An answer is a count and then
outcomes, each behind its own length. Inside an outcome, bytes past what this build knows are
left alone, and the last four fields of a Records outcome may be absent, each only together
with every field after it.

`_records` returns as soon as it has nothing left to read, so it is not a local reader: what
it makes of its bytes depends on where they end. Its parts are (`Answer.recordsHead`,
`Answer.noteList`, `Answer.exactness`, `Answer.suggestion`).
-/

namespace TessariDB

open ByteCodec Utf8

/-! ### Outcomes -/

/-- How the node says it found the records. -/
inductive AccessPath where
  | record
  | index
  | scan
  | ordered
  | approximate
  | graph
  | join
  | materialised
  | span
  deriving DecidableEq, Repr

/-- An unrecognised byte reads as `scan`. -/
def AccessPath.fromByte : ℕ → AccessPath
  | 0 => .record
  | 1 => .index
  | 2 => .scan
  | 3 => .ordered
  | 4 => .approximate
  | 5 => .graph
  | 6 => .join
  | 7 => .materialised
  | 8 => .span
  | _ => .scan

structure Note where
  kind : Str
  message : Str
  deriving DecidableEq, Repr

/-- Whether the records are provably those the question names; absent is not `exact`. -/
inductive Exactness where
  | exact
  | inexact (reason : Str)
  | unstated
  deriving DecidableEq, Repr

structure Correction where
  typed : Str
  instead : Str
  deriving DecidableEq, Repr

inductive Suggestion where
  | notConsulted
  | complete
  | corrections (items : List Correction)
  deriving DecidableEq, Repr

structure Row where
  identity : Str
  value : Value
  deriving Repr

structure Records where
  path : AccessPath
  names : List (ℕ × Str)
  rows : List Row
  notes : List Note := []
  only : Bool := false
  exactness : Exactness := .unstated
  suggestion : Suggestion := .notConsulted
  deriving Repr

/-- One for each statement of the script, in order. -/
inductive Outcome where
  | done
  | records (records : Records)
  | valueOutcome (names : List (ℕ × Str)) (value : Value)
  | keys (keys : List Str)
  | removed (count : ℕ)
  | unknown (tag : ℕ) (body : Bytes)
  deriving Repr

/-! ### Reading -/

namespace Answer

open Decode (counted)

/-- A table id and its name. -/
def name : Reader (ℕ × Str) := do
  let table ← Reader.u32 "a table id"
  let name ← Reader.text "a table name"
  return (table, name)

def names : Reader (List (ℕ × Str)) := do
  let pairs ← counted "a name count" name
  return Dict.ofPairs pairs

def row : Reader Row := do
  let identity ← Reader.text "a record identity"
  let raw ← Reader.lenbytes "a record value"
  let value ← Get.ofExcept (decode raw)
  return ⟨identity, value⟩

/-- The fields every Records outcome has. -/
def recordsHead : Reader Records := do
  let byte ← Reader.u8 "an access path"
  let names ← names
  let rows ← counted "a record count" row
  return { path := AccessPath.fromByte byte, names, rows }

def note : Reader Note := do
  let kind ← Reader.text "a note kind"
  let message ← Reader.text "a note message"
  return ⟨kind, message⟩

def noteList : Reader (List Note) := counted "a note count" note

def only : Reader Bool := do
  let byte ← Reader.u8 "the only flag"
  return byte ≠ 0

def exactness : Reader Exactness := do
  let byte ← Reader.u8 "the exactness"
  let reason ← Reader.text "the exactness reason"
  return if byte = 0 then .exact else .inexact reason

def correction : Reader Correction := do
  let typed ← Reader.text "a suggested term"
  let instead ← Reader.text "a suggested replacement"
  return ⟨typed, instead⟩

/-- State 0, and any state this build does not know, read as silence. -/
def suggestion : Reader Suggestion := do
  let state ← Reader.u8 "a suggestion state"
  if state = 1 then
    return .complete
  else if state = 2 then
    return .corrections (← counted "a suggestion count" correction)
  else
    return .notConsulted

/-- `_records`: from the rows on, every field may be absent with all that follow it. -/
def records : Reader Records := do
  let head ← recordsHead
  if ← Get.exhausted then
    return head
  else do
    let notes ← noteList
    if ← Get.exhausted then
      return { head with notes }
    else do
      let only ← only
      if ← Get.exhausted then
        return { head with notes, only }
      else do
        let exactness ← exactness
        if ← Get.exhausted then
          return { head with notes, only, exactness }
        else do
          let suggestion ← suggestion
          return { head with notes, only, exactness, suggestion }

/-- The rest of an outcome of this tag; `rest` is what follows the tag. -/
def outcomeOf (records : Reader Records) (rest : Bytes) (tag : ℕ) : Reader Outcome :=
  if tag = 0 then
    return .done
  else if tag = 1 then
    return .records (← records)
  else if tag = 2 then do
    let names ← names
    let raw ← Reader.lenbytes "a value outcome's value"
    let value ← Get.ofExcept (decode raw)
    return .valueOutcome names value
  else if tag = 3 then
    return .keys (← counted "a key count" (Reader.text "a key"))
  else if tag = 4 then
    return .removed (← Reader.u64 "a removed count")
  else
    return .unknown tag rest

/-- `_outcome`, bounded by the outcome's own bytes. -/
def outcome (raw : Bytes) : Except ProtocolError Outcome :=
  (do
    let tag ← Reader.u8 "an outcome tag"
    outcomeOf records (raw.drop 1) tag : Reader Outcome) raw |>.map Prod.fst

/-- A length, and an outcome of that many bytes. -/
def entry : Get Raised Outcome := do
  let length ← (Reader.u32 "an outcome length").mapError .protocolError
  if length < 1 then
    Get.fail (.malformed "an outcome carries at least its tag")
  else do
    let raw ← (Reader.fixed length "an outcome body").mapError .protocolError
    Get.mapError .protocolError (Get.ofExcept (outcome raw))

def entries : Get Raised (List Outcome) := do
  let count ← (Reader.u32 "the outcome count").mapError .protocolError
  Get.repeatN count entry

end Answer

/-- The outcomes of an Answer body. -/
def readAnswer (body : Bytes) : Except Raised (List Outcome) :=
  (Answer.entries body).map Prod.fst

end TessariDB
