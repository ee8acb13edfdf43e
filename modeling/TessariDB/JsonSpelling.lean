import TessariDB.JsonValues
import TessariDB.Valid

/-!
# How the Node Spells a Value

The documents a value may arrive as (`Spells`), as the reader documents them, and the kind it is
declared with (`kindOf`). A spelling is not always one document: a float may be written as an
integer, a datetime with more or fewer digits, and the members of an object are looked up by name.

Some values are not restored. A table and a record come back as texts, and nothing is written for
a none that is no field. A negative zero is written as zero, a coordinate that is not finite as
null, and a NaN without its payload. `strptime` takes four digits for a year, and an interpreter
may limit the digits it converts. `Restorable` says of a value that it holds nothing of the kind.
-/

namespace TessariDB

open ByteCodec Utf8 Text Calendar Doubles Hex Numerals Timestamps

/-! ### Kinds and results -/

mutual

/-- The kind a value is declared with, one for each element or field. -/
def kindOf : Value → Kind
  | .noneValue => .null
  | .nullValue => .null
  | .bool _ => .bool
  | .integer _ => .integer
  | .float _ => .float
  | .decimal _ _ => .decimal
  | .text _ => .text
  | .bytes _ => .bytes
  | .duration _ _ => .duration
  | .datetime _ _ => .datetime
  | .uuid _ => .uuid
  | .table _ => .table
  | .record _ _ => .record
  | .array items => .array (.each (kindsOf items))
  | .object fields => .object (fieldKinds fields)
  | .set items => .set (.each (kindsOf items))
  | .range start stop => .range (((boundKind start).or (boundKind stop)).getD .null)
  | .geometry _ => .geometry
  | .regex _ => .regex

def kindsOf : List Value → List Kind
  | [] => []
  | v :: vs => kindOf v :: kindsOf vs

def fieldKinds : List (Str × Value) → List (Str × Kind)
  | [] => []
  | (name, v) :: fields => (name, kindOf v) :: fieldKinds fields

def boundKind : Bound Value → Option Kind
  | .unbounded => none
  | .included v => some (kindOf v)
  | .excluded v => some (kindOf v)

end

mutual

/-- A value, as something that is read. -/
def Loaded.ofValue : Value → Loaded
  | .array items => .array (loadedItems items)
  | .object fields => .object (loadedFields fields)
  | .set items => .set (loadedItems items)
  | .range start stop => .range (loadedBound start) (loadedBound stop)
  | v => .value v

def loadedItems : List Value → List Loaded
  | [] => []
  | v :: vs => Loaded.ofValue v :: loadedItems vs

def loadedFields : List (Str × Value) → List (Str × Loaded)
  | [] => []
  | (name, v) :: fields => (name, Loaded.ofValue v) :: loadedFields fields

def loadedBound : Bound Value → Bound Loaded
  | .unbounded => .unbounded
  | .included v => .included (Loaded.ofValue v)
  | .excluded v => .excluded (Loaded.ofValue v)

end

/-! ### Numbers and shapes -/

/-- A number; negative zero is written as zero. -/
def SpellsNumber (d : Double) (j : Json) : Prop :=
  j = .float (if d = NEGATIVE_ZERO then 0 else d) ∨
    ∃ z, j = .int z ∧ ofInt z = some (if d = NEGATIVE_ZERO then 0 else d)

def SpellsFloat (d : Double) (j : Json) : Prop :=
  if isNaN d then j = .string "NaN"
  else if d = INFINITY then j = .string "inf"
  else if d = NEGATIVE_INFINITY then j = .string "-inf"
  else SpellsNumber d j

def SpellsCoordinate (d : Double) (j : Json) : Prop :=
  if isFinite d then SpellsNumber d j else j = .null

def SpellsPosition (p : Position) (j : Json) : Prop :=
  ∃ lon lat, j = .array [lon, lat] ∧ SpellsCoordinate p.lon lon ∧ SpellsCoordinate p.lat lat

/-- An array of what `r` spells. -/
def SpellsArray {α : Type} (r : α → Json → Prop) (as : List α) (j : Json) : Prop :=
  ∃ js, j = .array js ∧ List.Forall₂ r as js

/-- A polygon: its exterior, then its holes. -/
def SpellsPolygon (p : Polygon) (j : Json) : Prop :=
  (p = ⟨[], []⟩ ∧ j = .array []) ∨
    SpellsArray (SpellsArray SpellsPosition) (p.exterior :: p.interiors) j

/-- A GeoJSON object of a type. -/
def SpellsGeometry (type member : String) (held : Json → Prop) (j : Json) : Prop :=
  ∃ body, j = .object body ∧ Dict.get? body (ofString "type") = some (.string (ofString type)) ∧
    ∃ c, Dict.get? body (ofString member) = some c ∧ held c

mutual

def SpellsShape : Shape → Json → Prop
  | .point p, j => SpellsGeometry "Point" "coordinates" (SpellsPosition p) j
  | .line ps, j => SpellsGeometry "LineString" "coordinates" (SpellsArray SpellsPosition ps) j
  | .polygonShape p, j => SpellsGeometry "Polygon" "coordinates" (SpellsPolygon p) j
  | .multiPoint ps, j => SpellsGeometry "MultiPoint" "coordinates" (SpellsArray SpellsPosition ps) j
  | .multiLine ls, j =>
      SpellsGeometry "MultiLineString" "coordinates" (SpellsArray (SpellsArray SpellsPosition) ls) j
  | .multiPolygon ps, j => SpellsGeometry "MultiPolygon" "coordinates" (SpellsArray SpellsPolygon ps) j
  | .collection ss, j =>
      SpellsGeometry "GeometryCollection" "geometries" (fun c => ∃ js, c = .array js ∧ SpellsShapes ss js) j

def SpellsShapes : List Shape → List Json → Prop
  | [], js => js = []
  | s :: ss, js => ∃ j rest, js = j :: rest ∧ SpellsShape s j ∧ SpellsShapes ss rest

end

/-! ### Texts -/

/-- The units of a duration, the largest first. -/
def DURATION_UNITS : List (Str × ℕ) :=
  [(ofString "h", 3600 * 1000000000), (ofString "m", 60 * 1000000000), (ofString "s", 1000000000),
    (ofString "ms", 1000000), (ofString "us", 1000), (ofString "ns", 1)]

/-- The counts of some units in a span, without the zero ones. -/
def spanParts : List (Str × ℕ) → ℕ → Str
  | [], _ => []
  | (unit, nanos) :: units, n =>
      (if n / nanos = 0 then [] else digits (n / nanos) ++ unit) ++ spanParts units (n % nanos)

/-- A span of so many nanoseconds. -/
def spanText (total : ℤ) : Str :=
  if total = 0 then "0s" else signText total ++ spanParts DURATION_UNITS total.natAbs

/-- A UTC instant with up to nine digits behind the point. -/
def SpellsInstant (seconds nanos : ℤ) (text : Str) : Prop :=
  ∃ m f, moment seconds = some m ∧ text = stamp 4 m ++ fractionText f ++ "Z" ∧
    (∀ c ∈ f, IsDigit c) ∧ f.length ≤ 9 ∧ (number (ljust 9 (digit 0) f) : ℤ) = nanos

/-! ### Values -/

mutual

/-- The documents a value may arrive as. -/
def Spells : Value → Json → Prop
  | .noneValue, _ => False
  | .nullValue, j => j = .null
  | .bool value, j => j = .bool value
  | .integer value, j => j = .int value
  | .float value, j => SpellsFloat value j
  | .decimal mantissa scale, j => j = .string (positional mantissa scale.toNat)
  | .text value, j => j = .string value
  | .bytes value, j => j = .string (hex value)
  | .duration seconds nanos, j => j = .string (spanText (seconds * 1000000000 + nanos))
  | .datetime seconds nanos, j => ∃ text, j = .string text ∧ SpellsInstant seconds nanos text
  | .uuid value, j => j = .string (hyphenated (hex value))
  | .table _, j => ∃ name, j = .string name
  | .record _ _, j => ∃ name, j = .string name
  | .array items, j => ∃ js, j = .array js ∧ SpellsItems items js
  | .object fields, j => ∃ body, j = .object body ∧ SpellsFields fields body
  | .set items, j => ∃ js, j = .array js ∧ SpellsItems items js
  | .range start stop, j => ∃ body s e, j = .object body ∧
      Dict.get? body (ofString "start") = some s ∧ Dict.get? body (ofString "end") = some e ∧
      SpellsBound start s ∧ SpellsBound stop e
  | .geometry shape, j => SpellsShape shape j
  | .regex pattern, j => j = .string pattern

def SpellsItems : List Value → List Json → Prop
  | [], js => js = []
  | v :: vs, js => ∃ j rest, js = j :: rest ∧ Spells v j ∧ SpellsItems vs rest

/-- A field that holds none is left out. -/
def SpellsFields : List (Str × Value) → List (Str × Json) → Prop
  | [], _ => True
  | (name, v) :: fields, body =>
      (if v.isNone then Dict.get? body name = none else ∃ j, Dict.get? body name = some j ∧ Spells v j) ∧
        SpellsFields fields body

/-- An unbounded end has no value. -/
def SpellsBound : Bound Value → Json → Prop
  | .unbounded, j => ∃ body, j = .object body ∧
      Dict.get? body (ofString "bound") = some (.string (ofString "unbounded"))
  | .included v, j => ∃ body, j = .object body ∧
      Dict.get? body (ofString "bound") = some (.string (ofString "included")) ∧
      ∃ held, Dict.get? body (ofString "value") = some held ∧ Spells v held
  | .excluded v, j => ∃ body, j = .object body ∧
      Dict.get? body (ofString "bound") = some (.string (ofString "excluded")) ∧
      ∃ held, Dict.get? body (ofString "value") = some held ∧ Spells v held

end

/-! ### What is restored -/

def RestorablePosition (p : Position) : Prop :=
  (isFinite p.lon ∧ p.lon ≠ NEGATIVE_ZERO) ∧ isFinite p.lat ∧ p.lat ≠ NEGATIVE_ZERO

def RestorablePolygon (p : Polygon) : Prop :=
  ∀ ring ∈ p.exterior :: p.interiors, ∀ q ∈ ring, RestorablePosition q

mutual

def RestorableShape : Shape → Prop
  | .point p => RestorablePosition p
  | .line ps => ∀ p ∈ ps, RestorablePosition p
  | .polygonShape p => RestorablePolygon p
  | .multiPoint ps => ∀ p ∈ ps, RestorablePosition p
  | .multiLine ls => ∀ ps ∈ ls, ∀ p ∈ ps, RestorablePosition p
  | .multiPolygon ps => ∀ p ∈ ps, RestorablePolygon p
  | .collection ss => RestorableShapes ss

def RestorableShapes : List Shape → Prop
  | [] => True
  | s :: ss => RestorableShape s ∧ RestorableShapes ss

end

section

variable (python : Interpreter)

mutual

/-- Nothing in the value is lost in its spelling. -/
def Restorable : Value → Prop
  | .noneValue => False
  | .table _ => False
  | .record _ _ => False
  | .float value => value ≠ NEGATIVE_ZERO ∧ (isNaN value → value = NAN)
  | .decimal _ scale => python.Converts (scale.toNat + 1)
  | .datetime seconds _ => ∃ m, moment seconds = some m ∧ 1000 ≤ m.date.year
  | .array items => RestorableItems items
  | .object fields => RestorableFields fields
  | .set items => RestorableItems items
  | .range start stop => RestorableBound start ∧ RestorableBound stop ∧
      -- both ends at one kind
      ∀ k ∈ boundKind start, ∀ k' ∈ boundKind stop, k = k'
  | .geometry shape => RestorableShape shape
  | _ => True

def RestorableItems : List Value → Prop
  | [] => True
  | v :: vs => Restorable v ∧ RestorableItems vs

def RestorableFields : List (Str × Value) → Prop
  | [] => True
  | (_, v) :: fields => (v.isNone ∨ Restorable v) ∧ RestorableFields fields

def RestorableBound : Bound Value → Prop
  | .unbounded => True
  | .included v => Restorable v
  | .excluded v => Restorable v

end

end

end TessariDB
