import TessariDB.Value

/-!
# Reading a Value

`_decode.py`. An unknown tag is an error, never a guess, and after one value the payload
must be exhausted.

The source's readers are mutually recursive with no bound but the bytes. Here the depth is
a `fuel`, and `readValue` starts with more fuel than there are bytes; since every nested
value and every nested shape costs at least its own tag byte, the fuel never runs out
(`value_fuel_irrelevant`).
-/

namespace TessariDB

open ByteCodec Utf8

namespace Decode

def recordId : Reader RecordId := do
  let tag ← Reader.u8 "a record id tag"
  if tag = ID_INTEGER then
    return .integerId (← Reader.i64 "an integer record id")
  else if tag = ID_TEXT then do
    let raw ← Reader.varbytes "a text record id"
    return .textId (← Reader.decodeUtf8 raw "a text record id")
  else if tag = ID_UUID then
    return .uuidId (← Reader.fixed UUID_WIDTH "a uuid record id")
  else if tag = ID_BYTES then
    return .bytesId (← Reader.varbytes "a bytes record id")
  else
    let tag := hexByte (UInt8.ofNat tag)
    Get.fail ⟨s!"unknown record id tag {tag}"⟩

def position : Reader Position := do
  let lon ← Reader.double "a longitude"
  let lat ← Reader.double "a latitude"
  return ⟨lon, lat⟩

/-- A count and then that many items. -/
def counted {α : Type} (what : String) (item : Reader α) : Reader (List α) := do
  let count ← Reader.u32 what
  Get.repeatN count item

def positions : Reader (List Position) := counted "a position count" position

def polygon : Reader Polygon := do
  let exterior ← positions
  let interiors ← counted "an interior ring count" positions
  return ⟨exterior, interiors⟩

/-- The rest of a shape of a known kind, with `nested` for the shapes inside it. -/
def shapeOf (nested : Reader Shape) (kind : ℕ) : Reader Shape :=
  if kind = SHAPE_POINT then
    return .point (← position)
  else if kind = SHAPE_LINE then
    return .line (← positions)
  else if kind = SHAPE_POLYGON then
    return .polygonShape (← polygon)
  else if kind = SHAPE_MULTIPOINT then
    return .multiPoint (← positions)
  else if kind = SHAPE_MULTILINE then
    return .multiLine (← counted "a line count" positions)
  else if kind = SHAPE_MULTIPOLYGON then
    return .multiPolygon (← counted "a polygon count" polygon)
  else if kind = SHAPE_COLLECTION then
    return .collection (← counted "a geometry count" nested)
  else
    let kind := hexByte (UInt8.ofNat kind)
    Get.fail ⟨s!"unknown geometry kind {kind}"⟩

def shape : ℕ → Reader Shape
  | 0 => Get.fail ⟨"nested deeper than its bytes"⟩
  | fuel + 1 => do
      let kind ← Reader.u8 "a geometry kind"
      shapeOf (shape fuel) kind

def number : Reader Value := do
  let kind ← Reader.u8 "a number kind"
  if kind = NUMBER_INTEGER then
    return .integer (← Reader.i64 "an integer")
  else if kind = NUMBER_FLOAT then
    return .float (← Reader.double "a float")
  else if kind = NUMBER_DECIMAL then do
    let mantissa ← Reader.i128 "a decimal mantissa"
    let scale ← Reader.u32 "a decimal scale"
    return .decimal mantissa scale
  else
    let kind := hexByte (UInt8.ofNat kind)
    Get.fail ⟨s!"unknown number kind {kind}"⟩

def bound (nested : Reader Value) : Reader (Bound Value) := do
  let kind ← Reader.u8 "a range bound"
  if kind = BOUND_UNBOUNDED then
    return .unbounded
  else if kind = BOUND_INCLUDED then
    return .included (← nested)
  else if kind = BOUND_EXCLUDED then
    return .excluded (← nested)
  else
    let kind := hexByte (UInt8.ofNat kind)
    Get.fail ⟨s!"unknown range bound {kind}"⟩

/-- A field: the name first, then the value. -/
def field (nested : Reader Value) : Reader (Str × Value) := do
  let name ← Reader.text "an object field name"
  let v ← nested
  return (name, v)

/-- The rest of a value of a known tag, with `nested` for the values inside it and
`shape` for a geometry. -/
def valueOf (nested : Reader Value) (shape : Reader Shape) (tag : ℕ) : Reader Value :=
  if tag = TAG_NONE then
    return .noneValue
  else if tag = TAG_NULL then
    return .nullValue
  else if tag = TAG_BOOL then do
    let byte ← Reader.u8 "a bool"
    return .bool (byte ≠ 0)
  else if tag = TAG_NUMBER then
    number
  else if tag = TAG_STRING then
    return .text (← Reader.text "a string")
  else if tag = TAG_BYTES then
    return .bytes (← Reader.lenbytes "bytes")
  else if tag = TAG_DURATION then do
    let seconds ← Reader.i64 "a duration's seconds"
    let nanos ← Reader.nanos "a duration's nanoseconds"
    return .duration seconds nanos
  else if tag = TAG_DATETIME then do
    let seconds ← Reader.i64 "a datetime's seconds"
    let nanos ← Reader.nanos "a datetime's nanoseconds"
    return .datetime seconds nanos
  else if tag = TAG_UUID then
    return .uuid (← Reader.fixed UUID_WIDTH "a uuid")
  else if tag = TAG_TABLE then do
    let id ← Reader.u32 "a table id"
    return .table id
  else if tag = TAG_RECORD then do
    let table ← Reader.u32 "a record's table id"
    let id ← recordId
    return .record table id
  else if tag = TAG_ARRAY then
    return .array (← counted "an array count" nested)
  else if tag = TAG_SET then
    return .set (← counted "a set count" nested)
  else if tag = TAG_OBJECT then do
    let pairs ← counted "an object's field count" (field nested)
    return .object (Dict.ofPairs pairs)
  else if tag = TAG_RANGE then do
    let start ← bound nested
    let stop ← bound nested
    return .range start stop
  else if tag = TAG_GEOMETRY then
    return .geometry (← shape)
  else if tag = TAG_REGEX then
    return .regex (← Reader.text "a regex")
  else
    let tag := hexByte (UInt8.ofNat tag)
    Get.fail ⟨s!"unknown value tag {tag}"⟩

def value : ℕ → Reader Value
  | 0 => Get.fail ⟨"nested deeper than its bytes"⟩
  | fuel + 1 => do
      let tag ← Reader.u8 "a value tag"
      valueOf (value fuel) (shape fuel) tag

end Decode

/-- The value reader `_value`, on whatever bytes are left. -/
def readValue : Reader Value := fun s => Decode.value (s.length + 1) s

/-- Decode exactly one value from a payload. -/
def decode (raw : Bytes) : Except ProtocolError Value :=
  match readValue raw with
  | .error e => .error e
  | .ok (v, rest) =>
      if rest = [] then .ok v
      else
        let remaining := rest.length
        .error ⟨s!"{remaining} trailing byte(s) after a value"⟩

end TessariDB
