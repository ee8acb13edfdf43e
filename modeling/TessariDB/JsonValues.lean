import TessariDB.Doubles
import TessariDB.Hex
import TessariDB.Json
import TessariDB.Value

/-!
# Reading a Value out of JSON

A JSON document read at a declared kind (`_json.py`, `_geojson.py`, `kind.py`). A table and a
record come back as the text that the node wrote, so what is read is not quite a value: `Loaded`
is a value, such a text, or a container of either.
-/

namespace TessariDB

open ByteCodec Utf8 Text Doubles Hex Numerals

/-! ### Kinds -/

/-- One kind for every element, or one for each in order. -/
inductive Of (α : Type) where
  | one (kind : α)
  | each (kinds : List α)
  deriving Repr

/-- What a JSON value is declared to be. -/
inductive Kind where
  | null
  | bool
  | integer
  | float
  | decimal
  | text
  | bytes
  | duration
  | datetime
  | uuid
  | table
  | record
  | regex
  | geometry
  | array (of : Of Kind)
  | set (of : Of Kind)
  | object (fields : List (Str × Kind))
  | range (of : Kind)
  deriving Repr

/-- What is read at a kind. -/
inductive Loaded where
  | value (v : Value)
  | name (s : Str)
  | array (items : List Loaded)
  | set (items : List Loaded)
  | object (fields : List (Str × Loaded))
  | range (start stop : Bound Loaded)
  deriving Repr

namespace JsonValues

variable (python : Interpreter)

/-! ### JSON types -/

def asBool : Json → Option Bool
  | .bool value => some value
  | _ => none

def asStr : Json → Option Str
  | .string value => some value
  | _ => none

def asList : Json → Option (List Json)
  | .array items => some items
  | _ => none

def asDict : Json → Option (List (Str × Json))
  | .object members => some members
  | _ => none

/-- `_typed`. -/
def typed {α : Type} (want : String) (as : Json → Option α) (what : String) (node : Json) :
    Except JsonRaised α :=
  match as node with
  | some a => .ok a
  | none => .error (.malformed (what ++ " is written as " ++ want ++ ", got " ++ python.repr node))

/-- `node[key]`. -/
def item (node : List (Str × Json)) (key : String) : Except JsonRaised Json :=
  match Dict.get? node (ofString key) with
  | some held => .ok held
  | none => .error .keyError

/-- `for part in node`. -/
def iterate : Json → Except JsonRaised (List Json)
  | .array items => .ok items
  | .object members => .ok (members.map fun member => .string member.1)
  | .string value => .ok (value.map fun c => .string [c])
  | _ => .error .typeError

/-! ### Scalars -/

/-- `_float`. -/
def readFloat : Json → Except JsonRaised UInt64
  | .string value =>
      if value = "inf" then .ok INFINITY
      else if value = "-inf" then .ok NEGATIVE_INFINITY
      else if value = "NaN" then .ok NAN
      else .error (.malformed
        ("a float is a number or inf/-inf/NaN, got " ++ python.repr (.string value)))
  | .int value =>
      match ofInt value with
      | some d => .ok d
      | none => .error .overflowError
  | .float value => .ok value
  | node => .error (.malformed ("a float is a number, got " ++ python.repr node))

/-- `_decimal`. -/
def readDecimal (text : Str) : Except JsonRaised Value :=
  let (whole, _, fraction) := partition POINT text
  match python.int (whole ++ fraction) with
  | some mantissa => .ok (.decimal mantissa fraction.length)
  | none => .error (.malformed
      (python.repr (.string text) ++ " is not a decimal: " ++ python.why (whole ++ fraction)))

/-- The units, longer ones before those they begin with. -/
def UNITS : List (Str × ℕ) :=
  [(ofString "ms", 1000000), (ofString "us", 1000), (ofString "ns", 1),
    (ofString "h", 3600 * 1000000000), (ofString "m", 60 * 1000000000), (ofString "s", 1000000000)]

/-- The `while` loop of `_duration`. Every count and unit takes a character off what is left, so
there is nothing left when the fuel is. -/
def spans (text body : Str) : ℕ → Str → ℤ → Except JsonRaised ℤ
  | 0, _, total => .ok total
  | fuel + 1, rest, total =>
      if rest = [] then .ok total
      else
        let count := rest.takeWhile python.isdigit
        let behind := rest.dropWhile python.isdigit
        if count = [] then
          .error (.malformed
            (python.repr (.string text) ++ " is not a duration: a unit with no count"))
        else
          match python.int count with
          | none => .error (.valueError (python.why count))
          | some n =>
              match UNITS.find? fun unit => unit.1.isPrefixOf behind with
              | none => .error (.malformed (python.repr (.string text) ++
                  " is not a duration: no unit at " ++ digits (body.length - behind.length)))
              | some (unit, nanos) => spans text body fuel (behind.drop unit.length) (total + n * nanos)

/-- `_duration`. -/
def readDuration (text : Str) : Except JsonRaised Value :=
  let negative := text.head? = some (codePoint 0x2D)
  let body := if negative then text.tail else text
  if body = [] then .error (.malformed (python.repr (.string text) ++ " is not a duration"))
  else do
    let total ← spans python text body body.length body 0
    let total := if negative then -total else total
    return .duration (total / 1000000000) (total % 1000000000)

/-- `_datetime`. -/
def readDatetime (text : Str) : Except JsonRaised Value :=
  if text.getLast? ≠ some (codePoint 0x5A) then
    .error (.malformed ("a datetime is UTC and ends in Z, got " ++ python.repr (.string text)))
  else
    let (instant, dot, fraction) := partition POINT text.dropLast
    if 9 < fraction.length then
      .error (.malformed ("a datetime carries at most nine fractional digits: " ++
        python.repr (.string text)))
    else
      match python.strptime instant with
      | none => .error (.malformed
          (python.repr (.string text) ++ " is not an RFC 3339 instant: " ++ python.why instant))
      | some moment =>
          if dot then
            match python.int (ljust 9 (digit 0) fraction) with
            | none => .error (.valueError (python.why (ljust 9 (digit 0) fraction)))
            | some nanos => .ok (.datetime moment.seconds nanos)
          else .ok (.datetime moment.seconds 0)

/-- `bytes.fromhex`. -/
def readHex (text : Str) : Except JsonRaised Bytes :=
  match fromHex text with
  | some raw => .ok raw
  | none => .error (.valueError (python.why text))

/-! ### Shapes -/

/-- `_coordinate`. -/
def coordinate : Json → Except JsonRaised UInt64
  | .null => .ok NAN
  | .bool value => .ok (if value then 0x3FF0000000000000 else 0)
  | .int value =>
      match ofInt value with
      | some d => .ok d
      | none => .error .overflowError
  | .float value => .ok value
  | .string value =>
      match python.floatOfStr value with
      | some d => .ok d
      | none => .error (.valueError (python.why value))
  | _ => .error .typeError

/-- `_position`. -/
def position (pair : Json) : Except JsonRaised Position := do
  match ← iterate pair with
  | [lon, lat] => do
      let lon ← coordinate python lon
      let lat ← coordinate python lat
      return ⟨lon, lat⟩
  | [] => .error (.valueError "not enough values to unpack (expected 2, got 0)")
  | [_] => .error (.valueError "not enough values to unpack (expected 2, got 1)")
  | _ => .error (.valueError "too many values to unpack (expected 2)")

/-- `tuple(_position(p) for p in node)`. -/
def positions (node : Json) : Except JsonRaised (List Position) := do
  (← iterate node).mapM (position python)

/-- `_polygon`. -/
def polygon (rings : Json) : Except JsonRaised Polygon := do
  let walls ← (← iterate rings).mapM (positions python)
  return ⟨walls.headD [], walls.tail⟩

/-- The entry of `SHAPES` for a type, given what the members hold when they are read as shapes. -/
def shapeOf (body : List (Str × Json))
    (nested : List (Str × Except JsonRaised (List (Except JsonRaised Shape)))) (type : Str) :
    Option (Except JsonRaised Shape) :=
  if type = "Point" then some do
    return .point (← position python (← item body "coordinates"))
  else if type = "LineString" then some do
    return .line (← positions python (← item body "coordinates"))
  else if type = "Polygon" then some do
    return .polygonShape (← polygon python (← item body "coordinates"))
  else if type = "MultiPoint" then some do
    return .multiPoint (← positions python (← item body "coordinates"))
  else if type = "MultiLineString" then some do
    return .multiLine (← (← iterate (← item body "coordinates")).mapM (positions python))
  else if type = "MultiPolygon" then some do
    return .multiPolygon (← (← iterate (← item body "coordinates")).mapM (polygon python))
  else if type = "GeometryCollection" then
    match Dict.get? nested (ofString "geometries") with
    | none => some (.error .keyError)
    | some shapes => some do
        return .collection (← (← shapes).mapM id)
  else none

/-- The refusal of a type that is no key of `SHAPES`. -/
def notAType (type : Json) : JsonRaised :=
  .malformed (python.repr type ++ " is not a GeoJSON type this build knows")

mutual

/-- `read_shape`. -/
def readShape : Json → Except JsonRaised Shape
  | .object body =>
      match Dict.get? body (ofString "type") with
      | none => .error (notAType python .null)
      | some (.string type) =>
          (shapeOf python body (memberShapes body) type).getD
            (.error (notAType python (.string type)))
      -- a list or a dict cannot be looked up at all
      | some (.array _) => .error .typeError
      | some (.object _) => .error .typeError
      | some type => .error (notAType python type)
  | _ => .error .typeError

/-- What `for nested in node` makes of a member, each part read as a shape. -/
def shapesOf : Json → Except JsonRaised (List (Except JsonRaised Shape))
  | .array items => .ok (readShapes items)
  | .object members => .ok (members.map fun _ => .error .typeError)
  | .string value => .ok (value.map fun _ => .error .typeError)
  | _ => .error .typeError

def readShapes : List Json → List (Except JsonRaised Shape)
  | [] => []
  | node :: nodes => readShape node :: readShapes nodes

def memberShapes :
    List (Str × Json) → List (Str × Except JsonRaised (List (Except JsonRaised Shape)))
  | [] => []
  | (name, node) :: members => (name, shapesOf node) :: memberShapes members

end

/-! ### Values -/

/-- `_bound`, with what reads the value of an end. -/
def readBound (read : Json → Except JsonRaised Loaded) (node : Json) :
    Except JsonRaised (Bound Loaded) := do
  let body ← typed python "dict" asDict "a range endpoint" node
  let bound := (Dict.get? body (ofString "bound")).getD .null
  if bound.isWord "unbounded" then
    return .unbounded
  else
    match Dict.get? body (ofString "value") with
    | none => .error (.malformed ("a " ++ python.repr bound ++ " endpoint carries no value"))
    | some value =>
        if bound.isWord "included" then return .included (← read value)
        else if bound.isWord "excluded" then return .excluded (← read value)
        else .error (.malformed
          ("a range bound is included, excluded or unbounded, not " ++ python.repr bound))

mutual

/-- `read_value`. -/
def readValue (kind : Kind) (node : Json) : Except JsonRaised Loaded :=
  if node.isNull then .ok (.value .nullValue)
  else
    match kind with
    | .null => .error (.malformed ("a field declared null holds " ++ python.repr node))
    | .bool => do
        return .value (.bool (← typed python "bool" asBool "a bool" node))
    | .integer =>
        match node with
        | .int value => .ok (.value (.integer value))
        | _ => .error (.malformed ("a field declared integer holds " ++ python.repr node))
    | .float => do
        return .value (.float (← readFloat python node))
    | .decimal => do
        return .value (← readDecimal python (← typed python "str" asStr "a decimal" node))
    | .text => do
        return .value (.text (← typed python "str" asStr "a string" node))
    | .bytes => do
        return .value (.bytes (← readHex python (← typed python "str" asStr "bytes" node)))
    | .duration => do
        return .value (← readDuration python (← typed python "str" asStr "a duration" node))
    | .datetime => do
        return .value (← readDatetime python (← typed python "str" asStr "a datetime" node))
    | .uuid => do
        return .value (.uuid (← readHex python
          (withoutHyphens (← typed python "str" asStr "a uuid" node))))
    | .table => do
        return .name (← typed python "str" asStr "a table or record name" node)
    | .record => do
        return .name (← typed python "str" asStr "a table or record name" node)
    | .regex => do
        return .value (.regex (← typed python "str" asStr "a regex" node))
    | .geometry => do
        let body ← typed python "dict" asDict "a geometry" node
        return .value (.geometry (← readShape python (.object body)))
    | .array of => do
        return .array (← readItems of node)
    | .set of => do
        return .set (← readItems of node)
    | .object fields => do
        let body ← typed python "dict" asDict "an object" node
        return .object (← readFields fields body)
    | .range of => do
        let body ← typed python "dict" asDict "a range" node
        let start ← readBound python (readValue of) ((Dict.get? body (ofString "start")).getD .null)
        let stop ← readBound python (readValue of) ((Dict.get? body (ofString "end")).getD .null)
        return .range start stop

/-- `_items`. -/
def readItems (of : Of Kind) (node : Json) : Except JsonRaised (List Loaded) := do
  let items ← typed python "list" asList "an array" node
  match of with
  | .one kind => items.mapM (readValue kind)
  | .each kinds =>
      if kinds.length ≠ items.length then
        .error (.malformed (digits kinds.length ++ " declared element kinds for " ++
          digits items.length ++ " elements"))
      else readEach kinds items

/-- Each element at its own kind. -/
def readEach : List Kind → List Json → Except JsonRaised (List Loaded)
  | kind :: kinds, node :: nodes => do
      let v ← readValue kind node
      let vs ← readEach kinds nodes
      return v :: vs
  | _, _ => .ok []

/-- `_fields`: a declared field that is not in the document holds none. -/
def readFields : List (Str × Kind) → List (Str × Json) → Except JsonRaised (List (Str × Loaded))
  | [], _ => .ok []
  | (name, declared) :: fields, body => do
      let v ← match Dict.get? body name with
        | some node => readValue declared node
        | none => .ok (.value .noneValue)
      let vs ← readFields fields body
      return (name, v) :: vs

end

end JsonValues

end TessariDB
