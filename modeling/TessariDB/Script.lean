import TessariDB.Answer
import TessariDB.JsonValues
import Mathlib.Data.List.Infix

/-!
# Script Answers

What `POST /script` answers (`script.py`): one outcome for each statement of the script, in
order. A document that is not of the shape is refused, or raises what the language raises where
the reader looks into it.

The readers take what a document holds as it is: an identity, a note or a correction is whatever
JSON stands there.
-/

namespace TessariDB

open ByteCodec Utf8 Text

/-- The word for a path. -/
def AccessPath.word : AccessPath → Str
  | .record => ofString "record"
  | .index => ofString "index"
  | .scan => ofString "scan"
  | .ordered => ofString "ordered"
  | .approximate => ofString "approximate"
  | .graph => ofString "graph"
  | .join => ofString "join"
  | .materialised => ofString "materialised"
  | .span => ofString "span"

namespace Json

/-- `bool(node)`. -/
def truthy : Json → Bool
  | .null => false
  | .bool value => value
  | .int value => value ≠ 0
  | .float value => !Doubles.isZero value
  | .string value => value ≠ []
  | .array items => !items.isEmpty
  | .object members => !members.isEmpty

end Json

namespace Script

open JsonValues

variable (python : Interpreter)

/-! ### Outcomes -/

/-- What the caller declares before reading an answer. -/
structure Reading where
  value : Option Kind := none
  deriving Repr

/-- A `Note` out of a document. -/
structure ScriptNote where
  kind : Json
  message : Json
  deriving Repr

/-- An `Exactness` out of a document. -/
inductive ScriptExactness where
  | exact
  | inexact (reason : Json)
  | unstated
  deriving Repr

/-- A `Correction` out of a document. -/
structure ScriptCorrection where
  typed : Json
  instead : Json
  deriving Repr

/-- A `Suggestion` out of a document. -/
inductive ScriptSuggestion where
  | notConsulted
  | complete
  | corrections (items : List ScriptCorrection)
  deriving Repr

structure Plan where
  access : Json
  exactness : ScriptExactness
  details : List (Str × Json)
  deriving Repr

structure ScriptRow where
  identity : Json
  value : Loaded
  deriving Repr

structure ScriptRecords where
  path : AccessPath
  plan : Plan
  rows : List ScriptRow
  notes : List ScriptNote
  only : Bool
  suggestion : ScriptSuggestion
  deriving Repr

/-- One for each statement of the script, in order. -/
inductive ScriptOutcome where
  | done
  | records (records : ScriptRecords)
  | value (value : Loaded)
  | keys (keys : List Json)
  | removed (count : ℤ)
  | unknown
  deriving Repr

/-! ### Looking into a document -/

/-- `node[key]`, where the node may be no object. -/
def subscript (node : Json) (key : String) : Except JsonRaised Json :=
  match node with
  | .object members => item members key
  | _ => .error .typeError

/-- `node.get(key)`. -/
def get (node : Json) (key : String) : Except JsonRaised (Option Json) :=
  match node with
  | .object members => .ok (Dict.get? members (ofString key))
  | _ => .error .attributeError

/-- `word in node`. -/
def contains (word : String) : Json → Except JsonRaised Bool
  | .object members => .ok (Dict.get? members (ofString word)).isSome
  | .array items => .ok (items.any (·.isWord word))
  | .string value => .ok (ofString word <:+: value)
  | _ => .error .typeError

/-- `int(node)`. -/
def toInt : Json → Except JsonRaised ℤ
  | .bool value => .ok (if value then 1 else 0)
  | .int value => .ok value
  | .float value =>
      if Doubles.isFinite value then .ok (Doubles.truncate value)
      else if Doubles.isNaN value then .error (.valueError "cannot convert float NaN to integer")
      else .error .overflowError
  | .string value =>
      match python.int value with
      | some n => .ok n
      | none => .error (.valueError (python.why value))
  | _ => .error .typeError

/-! ### The parts of a records outcome -/

/-- `PATHS`. -/
def PATHS : List AccessPath :=
  [.record, .index, .ordered, .scan, .approximate, .graph, .join, .span, .materialised]

/-- The access path, a word of `PATHS`. -/
def readPath (path : Json) : Except JsonRaised AccessPath :=
  let refusal := .malformed (python.repr path ++ " is not one of the nine access paths")
  match path with
  | .string word =>
      match PATHS.find? fun known => known.word = word with
      | some known => .ok known
      | none => .error refusal
  -- a list or a dict cannot be looked up at all
  | .array _ => .error .typeError
  | .object _ => .error .typeError
  | _ => .error refusal

/-- An element of `records`. -/
def readRow (reading : Reading) (row : Json) : Except JsonRaised ScriptRow :=
  match reading.value with
  | none =>
      .error (.malformed "a records outcome needs the kind its records were declared with")
  | some kind => do
      let identity ← subscript row "id"
      let value ← JsonValues.readValue python kind (← subscript row "value")
      return ⟨identity, value⟩

def readNote (node : Json) : Except JsonRaised ScriptNote := do
  let kind ← subscript node "kind"
  let message ← subscript node "message"
  return ⟨kind, message⟩

def readCorrection (node : Json) : Except JsonRaised ScriptCorrection := do
  let typed ← subscript node "typed"
  let instead ← subscript node "instead"
  return ⟨typed, instead⟩

/-- What a plan says of exactness. -/
def planExactness (body : Json) : Except JsonRaised ScriptExactness := do
  if ← contains "exact" body then
    if (← subscript body "exact").truthy then return .exact
    else return .inexact ((← get body "inexact").getD (.string []))
  else return .unstated

/-- The members of a plan that have no field of their own. -/
def planDetails : Json → Except JsonRaised (List (Str × Json))
  | .object members => .ok (members.filter fun member =>
      ¬ (member.1 = "access" ∨ member.1 = "exact" ∨ member.1 = "inexact"))
  | _ => .error .attributeError

/-- `_plan`. -/
def readPlan (body : Json) : Except JsonRaised Plan := do
  let exactness ← planExactness body
  let details ← planDetails body
  return { access := (← get body "access").getD (.string (ofString "scan")), exactness, details }

/-- `_suggestion`. -/
def readSuggestion (node : List (Str × Json)) : Except JsonRaised ScriptSuggestion :=
  match Dict.get? node (ofString "suggestion") with
  | none => .ok .notConsulted
  | some held => do
      let corrections := (← get held "corrections").getD (.array [])
      if corrections.truthy then
        return .corrections (← (← iterate corrections).mapM readCorrection)
      else return .complete

/-- `_records`. -/
def readRecords (reading : Reading) (node : List (Str × Json)) :
    Except JsonRaised ScriptRecords := do
  let path ← readPath python ((Dict.get? node (ofString "path")).getD .null)
  let rows ← (← iterate ((Dict.get? node (ofString "records")).getD (.array []))).mapM
    (readRow python reading)
  let notes ← (← iterate ((Dict.get? node (ofString "notes")).getD (.array []))).mapM readNote
  let plan ← readPlan ((Dict.get? node (ofString "plan")).getD (.object []))
  let only := ((Dict.get? node (ofString "only")).getD (.bool false)).truthy
  let suggestion ← readSuggestion node
  return { path, plan, rows, notes, only, suggestion }

/-! ### Any outcome -/

/-- `read_outcome`. -/
def readOutcome (reading : Reading) : Json → Except JsonRaised ScriptOutcome
  | .object node => do
      let kind := (Dict.get? node (ofString "kind")).getD .null
      if kind.isWord "done" then
        return .done
      else if kind.isWord "value" then
        match Dict.get? node (ofString "value"), reading.value with
        | none, _ => return .value (.value .noneValue)
        | some _, none =>
            .error (.malformed "a value outcome needs the kind its field was declared with")
        | some value, some kind => return .value (← JsonValues.readValue python kind value)
      else if kind.isWord "keys" then
        match (Dict.get? node (ofString "keys")).getD .null with
        | .array keys => return .keys keys
        | _ => .error (.malformed "a keys outcome carries an array of strings")
      else if kind.isWord "removed" then
        return .removed (← toInt python (← item node "count"))
      else if kind.isWord "unknown" then
        return .unknown
      else if kind.isWord "records" then
        return .records (← readRecords python reading node)
      else
        .error (.malformed
          (python.repr kind ++ " is not an outcome kind, and `unknown` is how a node says so"))
  | _ => .error .attributeError

/-- `read_results`. -/
def readResults (reading : Reading) : Json → Except JsonRaised (List ScriptOutcome)
  | .object body =>
      match (Dict.get? body (ofString "results")).getD .null with
      | .array results => results.mapM (readOutcome python reading)
      | _ => .error (.malformed "a script answer carries a `results` array")
  | _ => .error .attributeError

end Script

end TessariDB
