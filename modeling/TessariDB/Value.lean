import TessariDB.Dict
import TessariDB.Primitives

/-!
# Values

The seventeen value types the store carries (`value.py`) and the tag bytes of §4
(`_tags.py`).

A Python `int` is `ℤ`, whatever width its field has on the wire; a `str` is `Str`, a `bytes`
is `Bytes`, a double is its bits. The fields of an object are a `dict`, kept as its items in
insertion order; `Value.Keyed` says of a value that the fields of every object in it really
form one.

Two values are the **same** (`Value.Same`) when they differ at most in the order in which
the fields of some object were inserted. `Value.canon`, which puts the fields of every
object in name order, picks one representative of each class.

## Main results

* `Value.induction`: induction over nested values, with the hypothesis for every element of
  a container.
* `Value.same_object_iff`: two objects are the same exactly when they have the same names
  and the same value, up to `Same`, under each.
-/

namespace TessariDB

open ByteCodec Utf8

/-! ### Tags -/

def TAG_NONE : ℕ := 0x01
def TAG_NULL : ℕ := 0x02
def TAG_BOOL : ℕ := 0x03
def TAG_NUMBER : ℕ := 0x04
def TAG_STRING : ℕ := 0x05
def TAG_BYTES : ℕ := 0x06
def TAG_DURATION : ℕ := 0x07
def TAG_DATETIME : ℕ := 0x08
def TAG_UUID : ℕ := 0x09
def TAG_TABLE : ℕ := 0x0A
def TAG_RECORD : ℕ := 0x0B
def TAG_ARRAY : ℕ := 0x0C
def TAG_OBJECT : ℕ := 0x0D
def TAG_RANGE : ℕ := 0x0E
def TAG_SET : ℕ := 0x0F
def TAG_GEOMETRY : ℕ := 0x10
def TAG_REGEX : ℕ := 0x11

def NUMBER_INTEGER : ℕ := 0x01
def NUMBER_FLOAT : ℕ := 0x02
def NUMBER_DECIMAL : ℕ := 0x03

def BOUND_UNBOUNDED : ℕ := 0x01
def BOUND_INCLUDED : ℕ := 0x02
def BOUND_EXCLUDED : ℕ := 0x03

def ID_INTEGER : ℕ := 0x01
def ID_TEXT : ℕ := 0x02
def ID_UUID : ℕ := 0x03
def ID_BYTES : ℕ := 0x04

def SHAPE_POINT : ℕ := 0x01
def SHAPE_LINE : ℕ := 0x02
def SHAPE_POLYGON : ℕ := 0x03
def SHAPE_MULTIPOINT : ℕ := 0x04
def SHAPE_MULTILINE : ℕ := 0x05
def SHAPE_MULTIPOLYGON : ℕ := 0x06
def SHAPE_COLLECTION : ℕ := 0x07

def UUID_WIDTH : ℕ := 16

/-! ### The types -/

/-- A record's identity within its table. -/
inductive RecordId where
  | integerId (value : ℤ)
  | textId (value : Str)
  | uuidId (value : Bytes)
  | bytesId (value : Bytes)
  deriving DecidableEq, Repr

/-- One end of a range over values of type `α`. -/
inductive Bound (α : Type) where
  | unbounded
  | included (value : α)
  | excluded (value : α)
  deriving DecidableEq, Repr

/-- A point on the sphere, longitude first. -/
structure Position where
  lon : Double
  lat : Double
  deriving DecidableEq, Repr

/-- A closed run of positions. -/
abbrev Ring := List Position

structure Polygon where
  exterior : Ring
  interiors : List Ring
  deriving DecidableEq, Repr

/-- One of the seven geometry kinds. -/
inductive Shape where
  | point (position : Position)
  | line (positions : List Position)
  | polygonShape (polygon : Polygon)
  | multiPoint (positions : List Position)
  | multiLine (lines : List Ring)
  | multiPolygon (polygons : List Polygon)
  | collection (geometries : List Shape)
  deriving Repr

/-- A value of the store. -/
inductive Value where
  | noneValue
  | nullValue
  | bool (value : Bool)
  | integer (value : ℤ)
  | float (value : Double)
  | decimal (mantissa scale : ℤ)
  | text (value : Str)
  | bytes (value : Bytes)
  | duration (seconds nanos : ℤ)
  | datetime (seconds nanos : ℤ)
  | uuid (value : Bytes)
  | table (id : ℤ)
  | record (table : ℤ) (id : RecordId)
  | array (items : List Value)
  | object (fields : List (Str × Value))
  | set (items : List Value)
  | range (start stop : Bound Value)
  | geometry (shape : Shape)
  | regex (pattern : Str)
  deriving Repr

/-- `isinstance(v, NoneValue)`. -/
def Value.isNone : Value → Bool
  | .noneValue => true
  | _ => false

/-- The value a bound holds, if it holds one. -/
def Bound.values {α : Type} : Bound α → List α
  | .unbounded => []
  | .included v => [v]
  | .excluded v => [v]

def Bound.map {α β : Type} (f : α → β) : Bound α → Bound β
  | .unbounded => .unbounded
  | .included v => .included (f v)
  | .excluded v => .excluded (f v)

/-! ### Induction -/

/-- The values directly inside a value. -/
def Value.children : Value → List Value
  | .array items => items
  | .set items => items
  | .object fields => fields.map Prod.snd
  | .range start stop => start.values ++ stop.values
  | _ => []

/-- **Induction over nested values.** A property of values that a value has whenever
everything directly inside it has it holds of every value. -/
theorem Value.induction {P : Value → Prop}
    (step : ∀ v : Value, (∀ w ∈ v.children, P w) → P v) (v : Value) : P v :=
  @Value.rec P (fun vs => ∀ w ∈ vs, P w) (fun fields => ∀ w ∈ fields.map Prod.snd, P w)
    (fun bound => ∀ w ∈ bound.values, P w) (fun field => P field.2)
    (step _ nofun) (step _ nofun) (fun _ => step _ nofun) (fun _ => step _ nofun)
    (fun _ => step _ nofun) (fun _ _ => step _ nofun) (fun _ => step _ nofun)
    (fun _ => step _ nofun) (fun _ _ => step _ nofun) (fun _ _ => step _ nofun)
    (fun _ => step _ nofun) (fun _ => step _ nofun) (fun _ _ => step _ nofun)
    (fun _ ih => step _ ih) (fun _ ih => step _ ih) (fun _ ih => step _ ih)
    (fun _ _ ih ih' => step _ fun w hw => (List.mem_append.mp hw).elim (ih w) (ih' w))
    (fun _ => step _ nofun) (fun _ => step _ nofun)
    nofun (fun _ _ ih ih' => List.forall_mem_cons.mpr ⟨ih, ih'⟩)
    nofun (fun _ _ ih ih' => List.forall_mem_cons.mpr ⟨ih, ih'⟩)
    nofun (fun _ ih => List.forall_mem_singleton.mpr ih)
    (fun _ ih => List.forall_mem_singleton.mpr ih) (fun _ _ ih => ih) v

/-- The shapes directly inside a shape. -/
def Shape.children : Shape → List Shape
  | .collection geometries => geometries
  | _ => []

/-- **Induction over nested shapes.** -/
theorem Shape.induction {P : Shape → Prop}
    (step : ∀ s : Shape, (∀ t ∈ s.children, P t) → P s) (s : Shape) : P s :=
  @Shape.rec P (fun ss => ∀ t ∈ ss, P t)
    (fun _ => step _ nofun) (fun _ => step _ nofun) (fun _ => step _ nofun)
    (fun _ => step _ nofun) (fun _ => step _ nofun) (fun _ => step _ nofun)
    (fun _ ih => step _ ih) nofun (fun _ _ ih ih' => List.forall_mem_cons.mpr ⟨ih, ih'⟩) s

/-! ### Dictionaries inside values -/

mutual

/-- The fields of every object in the value have distinct names. -/
def Value.Keyed : Value → Prop
  | .array items => KeyedItems items
  | .set items => KeyedItems items
  | .object fields => Dict.Keyed fields ∧ KeyedFields fields
  | .range start stop => KeyedBound start ∧ KeyedBound stop
  | _ => True

def KeyedItems : List Value → Prop
  | [] => True
  | v :: vs => v.Keyed ∧ KeyedItems vs

def KeyedFields : List (Str × Value) → Prop
  | [] => True
  | (_, v) :: fields => v.Keyed ∧ KeyedFields fields

def KeyedBound : Bound Value → Prop
  | .unbounded => True
  | .included v => v.Keyed
  | .excluded v => v.Keyed

end

theorem keyedItems_iff {vs : List Value} : KeyedItems vs ↔ ∀ v ∈ vs, v.Keyed := by
  induction vs with
  | nil => simp [KeyedItems]
  | cons v vs ih => rw [KeyedItems, ih, List.forall_mem_cons]

theorem keyedFields_iff {fields : List (Str × Value)} :
    KeyedFields fields ↔ ∀ field ∈ fields, field.2.Keyed := by
  induction fields with
  | nil => simp [KeyedFields]
  | cons field fields ih => rw [KeyedFields, ih, List.forall_mem_cons]

theorem keyedBound_iff {bound : Bound Value} : KeyedBound bound ↔ ∀ v ∈ bound.values, v.Keyed := by
  cases bound <;> simp [KeyedBound, Bound.values]

mutual

/-- The same value with the fields of every object in name order. -/
def Value.canon : Value → Value
  | .array items => .array (canonItems items)
  | .set items => .set (canonItems items)
  | .object fields => .object (Dict.sorted (canonFields fields))
  | .range start stop => .range (canonBound start) (canonBound stop)
  | v => v

def canonItems : List Value → List Value
  | [] => []
  | v :: vs => v.canon :: canonItems vs

def canonFields : List (Str × Value) → List (Str × Value)
  | [] => []
  | (name, v) :: fields => (name, v.canon) :: canonFields fields

def canonBound : Bound Value → Bound Value
  | .unbounded => .unbounded
  | .included v => .included v.canon
  | .excluded v => .excluded v.canon

end

theorem canonItems_eq (vs : List Value) : canonItems vs = vs.map Value.canon := by
  induction vs with
  | nil => rfl
  | cons v vs ih => rw [canonItems, ih, List.map_cons]

theorem canonFields_eq (fields : List (Str × Value)) :
    canonFields fields = Dict.mapValues Value.canon fields := by
  induction fields with
  | nil => rfl
  | cons field fields ih => rw [canonFields, ih]; rfl

theorem canonBound_eq (bound : Bound Value) : canonBound bound = bound.map Value.canon := by
  cases bound <;> rfl

/-- Two values that differ at most in the insertion order of object fields. -/
def Value.Same (v w : Value) : Prop := v.canon = w.canon

theorem Value.canon_keyed {v : Value} (h : v.Keyed) : v.canon.Keyed := by
  induction v using Value.induction with
  | step v ih =>
      cases v with
      | array items | set items =>
          simp only [canon, Value.Keyed, keyedItems_iff, canonItems_eq, List.forall_mem_map]
            at h ⊢
          exact fun v hv => ih v hv (h v hv)
      | object fields =>
          simp only [canon, Value.Keyed, keyedFields_iff, Dict.keyed_sorted, canonFields_eq,
            Dict.mem_sorted] at h ⊢
          refine ⟨by rw [Dict.Keyed, Dict.keys_mapValues]; exact h.1, ?_⟩
          rw [Dict.mapValues, List.forall_mem_map]
          exact fun field hf => ih _ (List.mem_map_of_mem hf) (h.2 field hf)
      | range start stop =>
          have hstart : ∀ v ∈ start.values, v ∈ (Value.range start stop).children :=
            fun v hv => List.mem_append_left _ hv
          have hstop : ∀ v ∈ stop.values, v ∈ (Value.range start stop).children :=
            fun v hv => List.mem_append_right _ hv
          simp only [Value.Keyed, canon, keyedBound_iff, canonBound_eq] at h ⊢
          constructor
          · cases start <;> simp_all [Bound.map, Bound.values]
          · cases stop <;> simp_all [Bound.map, Bound.values]
      | _ => exact h

/-- Name order is name order once and for all. -/
theorem Value.canon_canon {v : Value} (h : v.Keyed) : v.canon.canon = v.canon := by
  induction v using Value.induction with
  | step v ih =>
      cases v with
      | array items =>
          rw [Value.Keyed, keyedItems_iff] at h
          simp only [canon, canonItems_eq, List.map_map, Value.array.injEq]
          exact List.map_congr_left fun v hv => ih v hv (h v hv)
      | set items =>
          rw [Value.Keyed, keyedItems_iff] at h
          simp only [canon, canonItems_eq, List.map_map, Value.set.injEq]
          exact List.map_congr_left fun v hv => ih v hv (h v hv)
      | object fields =>
          rw [Value.Keyed, keyedFields_iff] at h
          have hkeyed : Dict.Keyed (Dict.mapValues canon fields) := by
            rw [Dict.Keyed, Dict.keys_mapValues]
            exact h.1
          have hfields : Dict.mapValues canon (Dict.mapValues canon fields) =
              Dict.mapValues canon fields := by
            simp only [Dict.mapValues, List.map_map]
            exact List.map_congr_left fun field hf => congrArg (Prod.mk field.1)
              (ih _ (List.mem_map_of_mem hf) (h.2 field hf))
          simp only [canon, canonFields_eq, Value.object.injEq]
          rw [← Dict.sorted_mapValues, hfields, Dict.sorted_sorted hkeyed]
      | range start stop =>
          rw [Value.Keyed, keyedBound_iff, keyedBound_iff] at h
          have hbound : ∀ bound : Bound Value,
              (∀ v ∈ bound.values, v ∈ (Value.range start stop).children ∧ v.Keyed) →
              (bound.map canon).map canon = bound.map canon := by
            intro bound hb
            cases bound with
            | unbounded => rfl
            | included v => exact congrArg Bound.included (ih v (hb v List.mem_cons_self).1
                (hb v List.mem_cons_self).2)
            | excluded v => exact congrArg Bound.excluded (ih v (hb v List.mem_cons_self).1
                (hb v List.mem_cons_self).2)
          simp only [canon, canonBound_eq, Value.range.injEq]
          exact ⟨hbound start fun v hv => ⟨List.mem_append_left _ hv, h.1 v hv⟩,
            hbound stop fun v hv => ⟨List.mem_append_right _ hv, h.2 v hv⟩⟩
      | _ => rfl

theorem Value.canon_same {v : Value} (h : v.Keyed) : v.canon.Same v :=
  Value.canon_canon h

/-- Two objects are the same exactly when they have the same names, with the same value
under each. -/
theorem Value.same_object_iff {f g : List (Str × Value)} (hf : Dict.Keyed f)
    (hg : Dict.Keyed g) :
    (Value.object f).Same (.object g) ↔
      (∀ name v, (name, v) ∈ f → ∃ w, (name, w) ∈ g ∧ v.Same w) ∧
      (∀ name w, (name, w) ∈ g → ∃ v, (name, v) ∈ f ∧ v.Same w) := by
  have hkey : ∀ {d : List (Str × Value)}, Dict.Keyed d → Dict.Keyed (canonFields d) := by
    intro d hd
    rw [canonFields_eq, Dict.Keyed, Dict.keys_mapValues]
    exact hd
  have hmem : ∀ (d : List (Str × Value)) (name : Str) (c : Value),
      (name, c) ∈ canonFields d ↔ ∃ v, (name, v) ∈ d ∧ v.canon = c := by
    intro d name c
    rw [canonFields_eq, Dict.mapValues, List.mem_map]
    constructor
    · rintro ⟨⟨n, v⟩, hin, heq⟩
      obtain ⟨rfl, rfl⟩ := Prod.mk.inj heq
      exact ⟨v, hin, rfl⟩
    · rintro ⟨v, hin, rfl⟩
      exact ⟨(name, v), hin, rfl⟩
  simp only [Same, canon, Value.object.injEq]
  rw [Dict.sorted_eq_sorted_iff (hkey hf) (hkey hg)]
  simp only [Prod.forall, hmem]
  constructor
  · intro h
    refine ⟨fun name v hv => ?_, fun name w hw => ?_⟩
    · obtain ⟨w, hw, heq⟩ := (h name v.canon).mp ⟨v, hv, rfl⟩
      exact ⟨w, hw, heq.symm⟩
    · exact (h name w.canon).mpr ⟨w, hw, rfl⟩
  · rintro ⟨hfg, hgf⟩ name c
    constructor
    · rintro ⟨v, hv, rfl⟩
      obtain ⟨w, hw, heq⟩ := hfg name v hv
      exact ⟨w, hw, heq.symm⟩
    · rintro ⟨w, hw, rfl⟩
      exact hgf name w hw

end TessariDB
