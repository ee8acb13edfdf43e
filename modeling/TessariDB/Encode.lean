import TessariDB.Value

/-!
# Writing a Value

`_encode.py`: one writer for each kind of node, every one of them a tag byte and then the
fields in order. The fields of an object are written in name order, whatever order they
were inserted in; every container writes the number of its elements first.
-/

namespace TessariDB

open ByteCodec Utf8

namespace Encode

def recordId : RecordId → Writer
  | .integerId number => Writer.u8 ID_INTEGER ++ Writer.i64 number
  | .textId string =>
      Writer.u8 ID_TEXT ++
        (match Writer.encodeUtf8 string with
        | .ok raw => Writer.varbytes raw
        | .error e => .error e)
  | .uuidId raw => Writer.u8 ID_UUID ++ Writer.fixed raw UUID_WIDTH "a uuid record id"
  | .bytesId raw => Writer.u8 ID_BYTES ++ Writer.varbytes raw

/-- Longitude first. -/
def position (p : Position) : Writer := Writer.double p.lon ++ Writer.double p.lat

def positions (ps : List Position) : Writer :=
  Writer.u32 ps.length ++ Put.concat (ps.map position)

def polygon (p : Polygon) : Writer :=
  positions p.exterior ++ (Writer.u32 p.interiors.length ++ Put.concat (p.interiors.map positions))

mutual

def shape : Shape → Writer
  | .point p => Writer.u8 SHAPE_POINT ++ position p
  | .line ps => Writer.u8 SHAPE_LINE ++ positions ps
  | .polygonShape p => Writer.u8 SHAPE_POLYGON ++ polygon p
  | .multiPoint ps => Writer.u8 SHAPE_MULTIPOINT ++ positions ps
  | .multiLine lines =>
      Writer.u8 SHAPE_MULTILINE ++
        (Writer.u32 lines.length ++ Put.concat (lines.map positions))
  | .multiPolygon polygons =>
      Writer.u8 SHAPE_MULTIPOLYGON ++
        (Writer.u32 polygons.length ++ Put.concat (polygons.map polygon))
  | .collection geometries =>
      Writer.u8 SHAPE_COLLECTION ++
        (Writer.u32 geometries.length ++ Put.concat (shapes geometries))

/-- The writer of each shape of a list. -/
def shapes : List Shape → List Writer
  | [] => []
  | s :: ss => shape s :: shapes ss

end

mutual

def value : Value → Writer
  | .noneValue => Writer.u8 TAG_NONE
  | .nullValue => Writer.u8 TAG_NULL
  | .bool flag => Writer.u8 TAG_BOOL ++ Writer.u8 (if flag then 1 else 0)
  | .integer number => Writer.u8 TAG_NUMBER ++ (Writer.u8 NUMBER_INTEGER ++ Writer.i64 number)
  | .float number => Writer.u8 TAG_NUMBER ++ (Writer.u8 NUMBER_FLOAT ++ Writer.double number)
  | .decimal mantissa scale =>
      Writer.u8 TAG_NUMBER ++
        (Writer.u8 NUMBER_DECIMAL ++ (Writer.i128 mantissa ++ Writer.u32 scale))
  | .text string => Writer.u8 TAG_STRING ++ Writer.text string
  | .bytes raw => Writer.u8 TAG_BYTES ++ Writer.lenbytes raw
  | .duration seconds nanos =>
      Writer.u8 TAG_DURATION ++ (Writer.i64 seconds ++ Writer.nanos nanos)
  | .datetime seconds nanos =>
      Writer.u8 TAG_DATETIME ++ (Writer.i64 seconds ++ Writer.nanos nanos)
  | .uuid raw => Writer.u8 TAG_UUID ++ Writer.fixed raw UUID_WIDTH "a uuid"
  | .table identifier => Writer.u8 TAG_TABLE ++ Writer.u32 identifier
  | .record table identity =>
      Writer.u8 TAG_RECORD ++ (Writer.u32 table ++ recordId identity)
  | .array vs => Writer.u8 TAG_ARRAY ++ (Writer.u32 vs.length ++ Put.concat (items vs))
  | .set vs => Writer.u8 TAG_SET ++ (Writer.u32 vs.length ++ Put.concat (items vs))
  | .object fs =>
      -- The values are written apart and then taken in name order, which is the order in
      -- which the source reaches them: no write depends on the one before it.
      Writer.u8 TAG_OBJECT ++
        (Writer.u32 fs.length ++
          Put.concat ((Dict.sorted (fields fs)).map fun field =>
            Writer.text field.1 ++ field.2))
  | .range start stop => Writer.u8 TAG_RANGE ++ (bound start ++ bound stop)
  | .geometry s => Writer.u8 TAG_GEOMETRY ++ shape s
  | .regex pattern => Writer.u8 TAG_REGEX ++ Writer.text pattern

/-- The writer of each value of a list. -/
def items : List Value → List Writer
  | [] => []
  | v :: vs => value v :: items vs

/-- The writer of the value under each name. -/
def fields : List (Str × Value) → List (Str × Writer)
  | [] => []
  | (name, v) :: fs => (name, value v) :: fields fs

def bound : Bound Value → Writer
  | .unbounded => Writer.u8 BOUND_UNBOUNDED
  | .included v => Writer.u8 BOUND_INCLUDED ++ value v
  | .excluded v => Writer.u8 BOUND_EXCLUDED ++ value v

end

theorem shapes_eq (ss : List Shape) : shapes ss = ss.map shape := by
  induction ss with
  | nil => rfl
  | cons s ss ih => rw [shapes, ih, List.map_cons]

theorem items_eq (vs : List Value) : items vs = vs.map value := by
  induction vs with
  | nil => rfl
  | cons v vs ih => rw [items, ih, List.map_cons]

theorem fields_eq (fs : List (Str × Value)) : fields fs = Dict.mapValues value fs := by
  induction fs with
  | nil => rfl
  | cons field fs ih => rw [fields, ih]; rfl

/-- The fields of an object, in the order in which they are written. -/
theorem sorted_fields (fs : List (Str × Value)) :
    (Dict.sorted (fields fs)).map (fun field => Writer.text field.1 ++ field.2) =
      (Dict.sorted fs).map fun field => Writer.text field.1 ++ value field.2 := by
  rw [fields_eq, Dict.sorted_mapValues, Dict.mapValues, List.map_map]
  rfl

end Encode

/-- Encode one value. -/
def encode (v : Value) : Except Raised Bytes := Encode.value v

/-! ### Normal forms -/

/-- Putting the fields of every object in name order changes no encoding. -/
theorem encode_canon {v : Value} (h : v.Keyed) : encode v.canon = encode v := by
  simp only [encode]
  induction v using Value.induction with
  | step v ih =>
      cases v with
      | array items | set items =>
          rw [Value.Keyed, keyedItems_iff] at h
          have hitems : (items.map Value.canon).map Encode.value = items.map Encode.value := by
            rw [List.map_map]
            exact List.map_congr_left fun v hv => ih v hv (h v hv)
          rw [Value.canon, canonItems_eq, Encode.value, Encode.value, Encode.items_eq,
            Encode.items_eq, hitems, List.length_map]
      | object fields =>
          rw [Value.Keyed, keyedFields_iff] at h
          have hkeyed : Dict.Keyed (canonFields fields) := by
            rw [canonFields_eq, Dict.Keyed, Dict.keys_mapValues]
            exact h.1
          have hfields : Dict.mapValues Encode.value (canonFields fields) =
              Dict.mapValues Encode.value fields := by
            rw [canonFields_eq, Dict.mapValues, Dict.mapValues, Dict.mapValues, List.map_map]
            refine List.map_congr_left fun field hf => ?_
            exact congrArg (Prod.mk field.1)
              (ih _ (List.mem_map_of_mem hf) (h.2 field hf))
          rw [Value.canon, Encode.value, Encode.value, Encode.fields_eq, Encode.fields_eq,
            ← Dict.sorted_mapValues, Dict.sorted_sorted (by
              rw [Dict.Keyed, Dict.keys_mapValues]; exact hkeyed),
            hfields, Dict.length_sorted, canonFields_eq, Dict.mapValues, List.length_map]
      | range start stop =>
          rw [Value.Keyed, keyedBound_iff, keyedBound_iff] at h
          have hbound : ∀ bound : Bound Value,
              (∀ v ∈ bound.values, v ∈ (Value.range start stop).children ∧ v.Keyed) →
              Encode.bound (canonBound bound) = Encode.bound bound := by
            intro bound hb
            cases bound with
            | unbounded => rfl
            | included v =>
                obtain ⟨hv, hk⟩ := hb v List.mem_cons_self
                rw [canonBound, Encode.bound, Encode.bound, ih v hv hk]
            | excluded v =>
                obtain ⟨hv, hk⟩ := hb v List.mem_cons_self
                rw [canonBound, Encode.bound, Encode.bound, ih v hv hk]
          rw [Value.canon, Encode.value, Encode.value,
            hbound start fun v hv => ⟨List.mem_append_left _ hv, h.1 v hv⟩,
            hbound stop fun v hv => ⟨List.mem_append_right _ hv, h.2 v hv⟩]
      | _ => rfl

end TessariDB
