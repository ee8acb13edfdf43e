import TessariDB.Encode

/-!
# Valid Values

A value the codec can write, in which the fields of every object are a `dict`. What is directly
inside a valid value is valid, and its numbers, durations and identifiers lie in their ranges.
-/

namespace TessariDB

open ByteCodec Utf8

/-- A value `encode` accepts. -/
structure Value.Valid (v : Value) : Prop where
  keyed : v.Keyed
  encodes : ∃ raw, encode v = .ok raw

namespace Value

/-- The writers in a sequence that was written were written. -/
theorem encodes_of_concat {vs : List Value} {raw : Bytes}
    (h : Put.concat (vs.map Encode.value) = .ok raw) {v : Value} (hv : v ∈ vs) :
    ∃ raw, encode v = .ok raw := by
  obtain ⟨bs, hbs, -⟩ := Put.concat_eq_ok.mp h
  rw [List.forall₂_map_left_iff] at hbs
  obtain ⟨i, hi, rfl⟩ := List.mem_iff_getElem.mp hv
  have hlen : i < bs.length := hbs.length_eq ▸ hi
  exact ⟨bs[i], (List.forall₂_iff_get.mp hbs).2 i hi hlen⟩

theorem encodes_of_bound {b : Bound Value} {raw : Bytes} (h : Encode.bound b = .ok raw) :
    ∀ v ∈ b.values, ∃ raw, encode v = .ok raw := by
  cases b with
  | unbounded => exact List.forall_mem_nil _
  | included v =>
      obtain ⟨_, c, -, hc, -⟩ := Put.append_eq_ok.mp h
      exact List.forall_mem_singleton.mpr ⟨c, hc⟩
  | excluded v =>
      obtain ⟨_, c, -, hc, -⟩ := Put.append_eq_ok.mp h
      exact List.forall_mem_singleton.mpr ⟨c, hc⟩

/-- The writers of the fields of an object, taken apart. -/
theorem encodes_of_field {fields : List (Str × Value)} {raw : Bytes}
    (h : encode (.object fields) = .ok raw) : ∀ field ∈ fields,
      (∃ raw, Writer.text field.1 = .ok raw) ∧ ∃ raw, encode field.2 = .ok raw := by
  obtain ⟨_, b, -, hb, -⟩ := Put.append_eq_ok.mp h
  obtain ⟨_, c, -, hc, -⟩ := Put.append_eq_ok.mp hb
  rw [Encode.sorted_fields] at hc
  obtain ⟨bs, hbs, -⟩ := Put.concat_eq_ok.mp hc
  intro field hfield
  obtain ⟨b, -, hwritten⟩ := exists_of_mem_forall₂ (List.forall₂_map_left_iff.mp hbs).flip
    (Dict.mem_sorted.mpr hfield)
  obtain ⟨name, held, hname, hheld, -⟩ := Put.append_eq_ok.mp hwritten
  exact ⟨⟨name, hname⟩, held, hheld⟩

/-- What is directly inside a value that was written can be written. -/
theorem encodes_inside {v : Value} {raw : Bytes} (h : encode v = .ok raw) :
    ∀ w ∈ v.children, ∃ raw, encode w = .ok raw := by
  cases v with
  | array items | set items =>
      obtain ⟨_, b, -, hb, -⟩ := Put.append_eq_ok.mp h
      obtain ⟨_, c, -, hc, -⟩ := Put.append_eq_ok.mp hb
      rw [Encode.items_eq] at hc
      exact fun w hw => encodes_of_concat hc hw
  | object fields =>
      exact List.forall_mem_map.mpr fun field hfield => (encodes_of_field h field hfield).2
  | range start stop =>
      obtain ⟨_, b, -, hb, -⟩ := Put.append_eq_ok.mp h
      obtain ⟨c, d, hc, hd, -⟩ := Put.append_eq_ok.mp hb
      exact List.forall_mem_append.mpr ⟨encodes_of_bound hc, encodes_of_bound hd⟩
  | _ => exact nofun

namespace Valid

variable {v : Value}

/-- What is directly inside a valid value can be written. -/
theorem encodes_child (h : v.Valid) : ∀ w ∈ v.children, ∃ raw, encode w = .ok raw := by
  obtain ⟨raw, hraw⟩ := h.encodes
  exact encodes_inside hraw

theorem array {items : List Value} (h : (Value.array items).Valid) : ∀ v ∈ items, v.Valid :=
  fun v hv => ⟨keyedItems_iff.mp h.keyed v hv, h.encodes_child v hv⟩

theorem set {items : List Value} (h : (Value.set items).Valid) : ∀ v ∈ items, v.Valid :=
  fun v hv => ⟨keyedItems_iff.mp h.keyed v hv, h.encodes_child v hv⟩

theorem object {fields : List (Str × Value)} (h : (Value.object fields).Valid) :
    ∀ field ∈ fields, field.2.Valid := fun field hfield =>
  ⟨keyedFields_iff.mp h.keyed.2 field hfield, h.encodes_child _ (List.mem_map_of_mem hfield)⟩

theorem range {start stop : Bound Value} (h : (Value.range start stop).Valid) :
    (∀ v ∈ start.values, v.Valid) ∧ ∀ v ∈ stop.values, v.Valid :=
  ⟨fun v hv => ⟨keyedBound_iff.mp h.keyed.1 v hv, h.encodes_child v (List.mem_append_left _ hv)⟩,
    fun v hv => ⟨keyedBound_iff.mp h.keyed.2 v hv, h.encodes_child v (List.mem_append_right _ hv)⟩⟩

theorem integer {z : ℤ} (h : (Value.integer z).Valid) : INT64_MIN ≤ z ∧ z ≤ INT64_MAX := by
  obtain ⟨raw, hraw⟩ := h.encodes
  obtain ⟨_, b, -, hb, -⟩ := Put.append_eq_ok.mp hraw
  obtain ⟨_, c, -, hc, -⟩ := Put.append_eq_ok.mp hb
  exact (Writer.i64_eq_ok.mp hc).1

theorem decimal {mantissa scale : ℤ} (h : (Value.decimal mantissa scale).Valid) :
    0 ≤ scale ∧ INT128_MIN ≤ mantissa ∧ mantissa ≤ INT128_MAX := by
  obtain ⟨raw, hraw⟩ := h.encodes
  obtain ⟨_, b, -, hb, -⟩ := Put.append_eq_ok.mp hraw
  obtain ⟨_, c, -, hc, -⟩ := Put.append_eq_ok.mp hb
  obtain ⟨_, d, hd, he, -⟩ := Put.append_eq_ok.mp hc
  exact ⟨(Writer.u32_eq_ok.mp he).1.1, (Writer.i128_eq_ok.mp hd).1⟩

theorem instant_of_encodes {tag : ℤ} {seconds nanos : ℤ} {raw : Bytes}
    (h : Writer.u8 tag ++ (Writer.i64 seconds ++ Writer.nanos nanos) = .ok raw) :
    (INT64_MIN ≤ seconds ∧ seconds ≤ INT64_MAX) ∧ 0 ≤ nanos ∧ nanos ≤ NANOS_PER_SECOND - 1 := by
  obtain ⟨_, b, -, hb, -⟩ := Put.append_eq_ok.mp h
  obtain ⟨_, c, hseconds, hc, -⟩ := Put.append_eq_ok.mp hb
  exact ⟨(Writer.i64_eq_ok.mp hseconds).1, (Writer.nanos_eq_ok.mp hc).1⟩

theorem duration {seconds nanos : ℤ} (h : (Value.duration seconds nanos).Valid) :
    (INT64_MIN ≤ seconds ∧ seconds ≤ INT64_MAX) ∧ 0 ≤ nanos ∧ nanos ≤ NANOS_PER_SECOND - 1 := by
  obtain ⟨raw, hraw⟩ := h.encodes
  exact instant_of_encodes hraw

theorem datetime {seconds nanos : ℤ} (h : (Value.datetime seconds nanos).Valid) :
    (INT64_MIN ≤ seconds ∧ seconds ≤ INT64_MAX) ∧ 0 ≤ nanos ∧ nanos ≤ NANOS_PER_SECOND - 1 := by
  obtain ⟨raw, hraw⟩ := h.encodes
  exact instant_of_encodes hraw

theorem uuid {raw : Bytes} (h : (Value.uuid raw).Valid) : raw.length = UUID_WIDTH := by
  obtain ⟨raw, hraw⟩ := h.encodes
  obtain ⟨_, b, -, hb, -⟩ := Put.append_eq_ok.mp hraw
  exact (Writer.fixed_eq_ok.mp hb).1

end Valid

end Value

end TessariDB
