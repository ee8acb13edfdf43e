import TessariDB.Encode
import TessariDB.Decode

/-!
# Decoding Undoes Encoding

The value reader started on the encoding of a value reads that value back and stops exactly
at its end, whatever follows. Two facts carry the rest: the reader is local
(`ByteCodec.Local`), and its fuel does not matter as soon as there is more of it than there
are bytes (`Decode.value_fuel_irrelevant`).

The writer is undone one kind of node at a time. Each nested value is shorter than the value
it is in by at least a tag byte, so the induction over the value carries "whatever fits the
fuel reads back" (`Get.InvertsBelow`) and the fuel falls by one at each level.

## Main results

* `Decode.value_fuel_irrelevant`: more fuel than bytes is enough fuel.
* `Decode.value_inverts`: the reader undoes the writer.
* `decode_undoes_encode`: the round trip, the refusal of every strict prefix and of every
  trailing byte.
-/

namespace TessariDB

open ByteCodec Utf8 Get

namespace Decode

/-! ### Locality -/

instance : Local recordId := by rw [recordId]; infer_instance
instance : Local position := by rw [position]; infer_instance

instance {α : Type} (what : String) (item : Reader α) [Local item] :
    Local (counted what item) := by
  rw [counted]; infer_instance

instance : Local positions := by rw [positions]; infer_instance
instance : Local polygon := by rw [polygon]; infer_instance
instance : Local number := by rw [number]; infer_instance

instance (nested : Reader Value) [Local nested] : Local (bound nested) := by
  rw [bound]; infer_instance

instance (nested : Reader Value) [Local nested] : Local (field nested) := by
  rw [field]; infer_instance

instance (nested : Reader Shape) [Local nested] (kind : ℕ) : Local (shapeOf nested kind) := by
  rw [shapeOf]; infer_instance

instance (fuel : ℕ) : Local (shape fuel) := by
  induction fuel with
  | zero => rw [shape]; infer_instance
  | succ fuel ih => rw [shape]; infer_instance

instance (nested : Reader Value) (shape : Reader Shape) [Local nested] [Local shape]
    (tag : ℕ) : Local (valueOf nested shape tag) := by
  rw [valueOf]; infer_instance

instance (fuel : ℕ) : Local (value fuel) := by
  induction fuel with
  | zero => rw [value]; infer_instance
  | succ fuel ih => rw [value]; infer_instance

/-! ### The fuel does not matter -/

theorem counted_agree {α : Type} {k : ℕ} (what : String) {g g' : Reader α} [Local g]
    (h : Agree k g g') : Agree k (counted what g) (counted what g') :=
  (Agree.refl k _).bind fun count => h.repeatN count

theorem shapeOf_agree {k : ℕ} {g g' : Reader Shape} [Local g] (h : Agree k g g')
    (kind : ℕ) : Agree k (shapeOf g kind) (shapeOf g' kind) := by
  rw [shapeOf]
  repeat' apply Agree.ite
  all_goals first
    | exact .refl k _
    | exact (counted_agree _ h).bind fun _ => .refl k _

theorem bound_agree {k : ℕ} {g g' : Reader Value} [Local g] (h : Agree k g g') :
    Agree k (bound g) (bound g') := by
  rw [bound]
  refine (Agree.refl k _).bind fun kind => ?_
  repeat' apply Agree.ite
  all_goals first
    | exact .refl k _
    | exact h.bind fun _ => .refl k _

theorem field_agree {k : ℕ} {g g' : Reader Value} [Local g] (h : Agree k g g') :
    Agree k (field g) (field g') :=
  (Agree.refl k _).bind fun _ => h.bind fun _ => .refl k _

theorem valueOf_agree {k : ℕ} {g g' : Reader Value} {t t' : Reader Shape} [Local g] [Local t]
    (h : Agree k g g') (ht : Agree k t t') (tag : ℕ) :
    Agree k (valueOf g t tag) (valueOf g' t' tag) := by
  rw [valueOf]
  repeat' apply Agree.ite
  all_goals first
    | exact .refl k _
    | exact (counted_agree _ h).bind fun _ => .refl k _
    | exact (counted_agree _ (field_agree h)).bind fun _ => .refl k _
    | exact (bound_agree h).bind fun _ => (bound_agree h).bind fun _ => .refl k _
    | exact ht.bind fun _ => .refl k _

theorem shape_fuel_irrelevant {n m : ℕ} {s : Bytes} (hn : s.length < n) (hm : s.length < m) :
    shape n s = shape m s := by
  induction n generalizing m s with
  | zero => omega
  | succ n ih =>
      rcases m with - | m
      · omega
      simp only [shape]
      rcases hu : Reader.u8 "a geometry kind" s with e | ⟨kind, s'⟩
      · rw [bind_of_error hu, bind_of_error hu]
      · rw [bind_of_ok hu, bind_of_ok hu]
        obtain ⟨x, rfl, -⟩ := Reader.u8_eq_ok.mp hu
        rw [List.length_cons] at hn hm
        have hnested : Agree (s'.length + 1) (shape n) (shape m) :=
          fun t ht => ih (by omega) (by omega)
        exact shapeOf_agree hnested kind s' (Nat.lt_succ_self _)

/-- **More fuel than bytes is enough.** Two runs of the value reader with more fuel than
there are bytes do the same. -/
theorem value_fuel_irrelevant {n m : ℕ} {s : Bytes} (hn : s.length < n) (hm : s.length < m) :
    value n s = value m s := by
  induction n generalizing m s with
  | zero => omega
  | succ n ih =>
      rcases m with - | m
      · omega
      simp only [value]
      rcases hu : Reader.u8 "a value tag" s with e | ⟨tag, s'⟩
      · rw [bind_of_error hu, bind_of_error hu]
      · rw [bind_of_ok hu, bind_of_ok hu]
        obtain ⟨x, rfl, -⟩ := Reader.u8_eq_ok.mp hu
        rw [List.length_cons] at hn hm
        have hnested : Agree (s'.length + 1) (value n) (value m) :=
          fun t ht => ih (by omega) (by omega)
        have hshape : Agree (s'.length + 1) (shape n) (shape m) :=
          fun t ht => shape_fuel_irrelevant (by omega) (by omega)
        exact valueOf_agree hnested hshape tag s' (Nat.lt_succ_self _)

/-! ### Undoing the writers -/

theorem recordId_inverts (id : RecordId) : recordId.Inverts (Encode.recordId id) id := by
  cases id with
  | integerId number =>
      exact (Reader.u8_inverts _ _).bind ((Reader.i64_inverts _ _).map _)
  | textId string =>
      refine (Reader.u8_inverts _ _).bind ?_
      intro b hb
      rw [Writer.encodeUtf8] at hb
      rcases henc : Utf8.encode string with - | raw
      · rw [henc] at hb
        cases hb
      · rw [henc] at hb
        have hdecode : (Reader.decodeUtf8 raw "a text record id").Reads [] string :=
          fun _ => Reader.decodeUtf8_eq_ok.mpr ⟨henc, rfl⟩
        have hread := (Reader.varbytes_inverts "a text record id" raw b hb).bind
          (f := fun raw => Reader.decodeUtf8 raw "a text record id" >>= fun string =>
            (pure (.textId string) : Reader RecordId)) (hdecode.map _)
        rwa [List.append_nil] at hread
  | uuidId raw =>
      exact (Reader.u8_inverts _ _).bind ((Reader.fixed_inverts _ _ _ _).map _)
  | bytesId raw =>
      exact (Reader.u8_inverts _ _).bind ((Reader.varbytes_inverts _ _).map _)

theorem position_inverts (p : Position) : position.Inverts (Encode.position p) p :=
  (Reader.double_inverts _ p.lon).bind ((Reader.double_inverts _ p.lat).map _)

theorem counted_inverts {α γ : Type} {k : ℕ} (what : String) {g : Reader α}
    {p : γ → Writer} {f : γ → α} {l : List γ}
    (h : ∀ x ∈ l, InvertsBelow k g (p x) (f x)) :
    InvertsBelow k (counted what g) (Writer.u32 l.length ++ Put.concat (l.map p)) (l.map f) :=
  (Reader.u32_inverts what l.length).below.bind (InvertsBelow.repeatN h)

/-- The same for items that are read back as they are, whatever their length. -/
theorem counted_inverts_self {α : Type} (what : String) {g : Reader α} {put : α → Writer}
    (h : ∀ x, g.Inverts (put x) x) (xs : List α) :
    (counted what g).Inverts (Writer.u32 xs.length ++ Put.concat (xs.map put)) xs := by
  refine inverts_of_below fun k => ?_
  have hmap := counted_inverts (k := k) (f := id) what (l := xs) fun x _ => (h x).below
  rwa [List.map_id] at hmap

theorem positions_inverts (ps : List Position) :
    positions.Inverts (Encode.positions ps) ps :=
  counted_inverts_self _ position_inverts ps

theorem polygon_inverts (p : Polygon) : polygon.Inverts (Encode.polygon p) p :=
  (positions_inverts p.exterior).bind
    ((counted_inverts_self _ positions_inverts p.interiors).map _)

/-- A node is its tag byte and the rest, read with one fuel less. -/
theorem shape_below {n : ℕ} {kind : ℕ} {rest : Writer} {s : Shape}
    (h : InvertsBelow n (shapeOf (shape n) kind) rest s) :
    InvertsBelow (n + 1) (shape (n + 1)) (Writer.u8 kind ++ rest) s := by
  intro b hb hlen
  obtain ⟨b₁, b₂, hkind, hrest, rfl⟩ := Put.append_eq_ok.mp hb
  have hread := Reader.u8_inverts "a geometry kind" kind b₁ hkind
  obtain ⟨-, rfl⟩ := Writer.u8_eq_ok.mp hkind
  rw [List.length_append, BigEndian.length_toBytes] at hlen
  exact hread.bind (h b₂ hrest (by omega))

theorem shape_inverts (s : Shape) (n : ℕ) :
    InvertsBelow n (shape n) (Encode.shape s) s := by
  induction s using Shape.induction generalizing n with
  | step s ih =>
      rcases n with - | n
      · exact fun b _ hlen => absurd hlen (Nat.not_lt_zero _)
      cases s with
      | point p => exact shape_below ((position_inverts p).map _).below
      | line ps => exact shape_below ((positions_inverts ps).map _).below
      | polygonShape p => exact shape_below ((polygon_inverts p).map _).below
      | multiPoint ps => exact shape_below ((positions_inverts ps).map _).below
      | multiLine lines =>
          exact shape_below ((counted_inverts_self _ positions_inverts lines).map _).below
      | multiPolygon polygons =>
          exact shape_below ((counted_inverts_self _ polygon_inverts polygons).map _).below
      | collection geometries =>
          have hall := counted_inverts (k := n) (g := shape n) (p := Encode.shape)
            (f := id) "a geometry count" (l := geometries) fun s hs => ih s hs n
          rw [List.map_id] at hall
          rw [Encode.shape, Encode.shapes_eq]
          exact shape_below (hall.map _)

/-- A node is its tag byte and the rest, read with one fuel less. -/
theorem value_below {n : ℕ} {tag : ℕ} {rest : Writer} {v : Value}
    (h : InvertsBelow n (valueOf (value n) (shape n) tag) rest v) :
    InvertsBelow (n + 1) (value (n + 1)) (Writer.u8 tag ++ rest) v := by
  intro b hb hlen
  obtain ⟨b₁, b₂, htag, hrest, rfl⟩ := Put.append_eq_ok.mp hb
  have hread := Reader.u8_inverts "a value tag" tag b₁ htag
  obtain ⟨-, rfl⟩ := Writer.u8_eq_ok.mp htag
  rw [List.length_append, BigEndian.length_toBytes] at hlen
  exact hread.bind (h b₂ hrest (by omega))

theorem bool_inverts (flag : Bool) :
    (Reader.u8 "a bool" >>= fun byte => (pure (.bool (byte ≠ 0)) : Reader Value)).Inverts
      (Writer.u8 (if flag then 1 else 0)) (.bool flag) := by
  have hread := (Reader.u8_inverts "a bool" (if flag then 1 else 0)).map
    fun byte => Value.bool (byte ≠ 0)
  cases flag <;> exact hread

theorem number_integer_inverts (v : ℤ) :
    number.Inverts (Writer.u8 NUMBER_INTEGER ++ Writer.i64 v) (.integer v) :=
  (Reader.u8_inverts _ _).bind ((Reader.i64_inverts _ v).map _)

theorem number_float_inverts (x : Double) :
    number.Inverts (Writer.u8 NUMBER_FLOAT ++ Writer.double x) (.float x) :=
  (Reader.u8_inverts _ _).bind ((Reader.double_inverts _ x).map _)

/-- A field read as an unsigned number and stored as a Python `int`. -/
theorem u32_int_inverts (what : String) {v : ℤ} (f : ℤ → Value) :
    (Reader.u32 what >>= fun n => (pure (f n) : Reader Value)).Inverts (Writer.u32 v) (f v) := by
  intro b hb
  obtain ⟨hr, -⟩ := Writer.u32_eq_ok.mp hb
  obtain ⟨v, rfl⟩ := Int.eq_ofNat_of_zero_le hr.1
  exact (Reader.u32_inverts what v b hb).map fun n : ℕ => f n

theorem nanos_int_inverts (what : String) {v : ℤ} (f : ℤ → Value) :
    (Reader.nanos what >>= fun n => (pure (f n) : Reader Value)).Inverts (Writer.nanos v)
      (f v) := by
  intro b hb
  obtain ⟨hr, -⟩ := Writer.nanos_eq_ok.mp hb
  obtain ⟨v, rfl⟩ := Int.eq_ofNat_of_zero_le hr.1
  exact (Reader.nanos_inverts what v b hb).map fun n : ℕ => f n

theorem number_decimal_inverts (mantissa scale : ℤ) :
    number.Inverts (Writer.u8 NUMBER_DECIMAL ++ (Writer.i128 mantissa ++ Writer.u32 scale))
      (.decimal mantissa scale) :=
  (Reader.u8_inverts _ _).bind
    ((Reader.i128_inverts _ mantissa).bind (u32_int_inverts _ (Value.decimal mantissa)))

theorem bound_below {k : ℕ} {g : Reader Value} {b : Bound Value}
    (h : ∀ v ∈ b.values, InvertsBelow k g (Encode.value v) v.canon) :
    InvertsBelow k (bound g) (Encode.bound b) (canonBound b) := by
  cases b with
  | unbounded =>
      rw [Encode.bound, ← Put.append_ok_nil (Writer.u8 _)]
      exact (Reader.u8_inverts _ _).below.bind (inverts_nil _).below
  | included v =>
      exact (Reader.u8_inverts _ _).below.bind ((h v List.mem_cons_self).map _)
  | excluded v =>
      exact (Reader.u8_inverts _ _).below.bind ((h v List.mem_cons_self).map _)

/-- **The reader undoes the writer.** What the writer makes of a value, if it is shorter than
the fuel, the reader reads as that value with its fields in name order. -/
theorem value_inverts {v : Value} (hv : v.Keyed) (n : ℕ) :
    InvertsBelow n (value n) (Encode.value v) v.canon := by
  induction v using Value.induction generalizing n with
  | step v ih =>
      rcases n with - | n
      · exact fun b _ hlen => absurd hlen (Nat.not_lt_zero _)
      cases v with
      | noneValue =>
          rw [Encode.value, ← Put.append_ok_nil (Writer.u8 _)]
          exact value_below (inverts_nil _).below
      | nullValue =>
          rw [Encode.value, ← Put.append_ok_nil (Writer.u8 _)]
          exact value_below (inverts_nil _).below
      | bool flag => exact value_below (bool_inverts flag).below
      | integer v => exact value_below (number_integer_inverts v).below
      | float x => exact value_below (number_float_inverts x).below
      | decimal mantissa scale =>
          exact value_below (number_decimal_inverts mantissa scale).below
      | text string => exact value_below ((Reader.text_inverts _ string).map _).below
      | bytes raw => exact value_below ((Reader.lenbytes_inverts _ raw).map _).below
      | duration seconds nanos =>
          exact value_below ((Reader.i64_inverts _ seconds).bind
            (nanos_int_inverts _ (Value.duration seconds))).below
      | datetime seconds nanos =>
          exact value_below ((Reader.i64_inverts _ seconds).bind
            (nanos_int_inverts _ (Value.datetime seconds))).below
      | uuid raw => exact value_below ((Reader.fixed_inverts _ _ raw _).map _).below
      | table id => exact value_below (u32_int_inverts _ Value.table).below
      | record table id =>
          refine value_below (Inverts.below ?_)
          intro b hb
          obtain ⟨b₁, b₂, htable, hid, rfl⟩ := Put.append_eq_ok.mp hb
          obtain ⟨hr, -⟩ := Writer.u32_eq_ok.mp htable
          obtain ⟨table, rfl⟩ := Int.eq_ofNat_of_zero_le hr.1
          exact (Reader.u32_inverts _ table b₁ htable).bind
            ((recordId_inverts id b₂ hid).map _)
      | array items | set items =>
          rw [Value.Keyed, keyedItems_iff] at hv
          rw [Encode.value, Encode.items_eq, Value.canon, canonItems_eq]
          exact value_below
            ((counted_inverts _ fun w hw => ih w hw (hv w hw) n).map _)
      | object fields =>
          rw [Value.Keyed, keyedFields_iff] at hv
          have hpairs := counted_inverts (k := n) "an object's field count"
            (g := field (value n)) (l := Dict.sorted fields)
            (p := fun f => Writer.text f.1 ++ Encode.value f.2)
            (f := fun f => (f.1, f.2.canon)) fun f hf =>
              (Reader.text_inverts _ f.1).below.bind
                ((ih f.2 (List.mem_map_of_mem (Dict.mem_sorted.mp hf))
                  (hv.2 f (Dict.mem_sorted.mp hf)) n).map _)
          -- The pairs arrive in name order, so collecting them in a dict changes nothing.
          have hcanon : (Dict.sorted fields).map (fun f => (f.1, f.2.canon)) =
              Dict.sorted (canonFields fields) := by
            rw [canonFields_eq, Dict.sorted_mapValues]
            rfl
          have hkeyed : Dict.Keyed (Dict.sorted (canonFields fields)) := by
            rw [Dict.keyed_sorted, canonFields_eq, Dict.Keyed, Dict.keys_mapValues]
            exact hv.1
          rw [hcanon, Dict.length_sorted] at hpairs
          have hobject := hpairs.map fun pairs => Value.object (Dict.ofPairs pairs)
          rw [Dict.ofPairs_of_keyed hkeyed] at hobject
          rw [Encode.value, Encode.sorted_fields, Value.canon]
          exact value_below hobject
      | range start stop =>
          rw [Value.Keyed, keyedBound_iff, keyedBound_iff] at hv
          exact value_below ((bound_below fun w hw =>
            ih w (List.mem_append_left _ hw) (hv.1 w hw) n).bind ((bound_below fun w hw =>
              ih w (List.mem_append_right _ hw) (hv.2 w hw) n).map _))
      | geometry s => exact value_below ((shape_inverts s n).map _)
      | regex pattern => exact value_below ((Reader.text_inverts _ pattern).map _).below

end Decode

/-! ### The whole payload -/

/-- On any bytes the value reader does what it does with any larger fuel. -/
theorem readValue_eq {n : ℕ} {s : Bytes} (h : s.length < n) : readValue s = Decode.value n s :=
  Decode.value_fuel_irrelevant (Nat.lt_succ_self _) h

instance : Local readValue where
  reads_of_ok := by
    intro s s' v h
    rw [readValue] at h
    obtain ⟨b, rfl, hb⟩ := Local.reads_of_ok h
    refine ⟨b, rfl, fun t => ?_⟩
    have hlen : ∀ t : Bytes, b.length < (b ++ t).length + 1 := fun t => by
      rw [List.length_append]
      omega
    have hrun : Decode.value ((b ++ t).length + 1) b = .ok (v, []) := by
      rw [← hb.eq_ok]
      exact Decode.value_fuel_irrelevant (hlen t) (hlen s')
    obtain ⟨b', hb', hreads⟩ := Local.reads_of_ok hrun
    rw [List.append_nil] at hb'
    subst hb'
    exact hreads t

theorem readValue_inverts {v : Value} (hv : v.Keyed) :
    readValue.Inverts (encode v) v.canon := by
  intro b hb s
  have hread := Decode.value_inverts hv _ b hb (Nat.lt_succ_of_le (Nat.le_add_right _ s.length))
  rw [readValue_eq (n := b.length + s.length + 1) (by simp), hread s]

theorem decode_eq_ok {raw : Bytes} {v : Value} :
    decode raw = .ok v ↔ readValue raw = .ok (v, []) := by
  rw [decode]
  rcases readValue raw with e | ⟨w, rest⟩
  · simp
  · dsimp only
    split
    · next h => simp [h]
    · next h => simp [h]

/-- The value reader on the encoding of a value. -/
theorem readValue_reads {v : Value} (hv : v.Keyed) {raw : Bytes} (h : encode v = .ok raw) :
    readValue.Reads raw v.canon :=
  readValue_inverts hv raw h

/-- **Decoding undoes encoding, and encodings delimit themselves.** The value reader on an
encoding followed by any bytes reads the value back and leaves exactly those bytes; `decode`
returns the value, refuses every strict prefix, and refuses every encoding with something
after it. -/
theorem decode_undoes_encode {v : Value} (hv : v.Keyed) {raw : Bytes}
    (h : encode v = .ok raw) :
    ∃ w : Value, w.Same v ∧ w.Keyed ∧ (∀ s, readValue (raw ++ s) = .ok (w, s)) ∧
      decode raw = .ok w ∧
      (∀ p q, raw = p ++ q → q ≠ [] → ∃ e : ProtocolError, decode p = .error e) ∧
      ∀ s, s ≠ [] → ∃ e : ProtocolError, decode (raw ++ s) = .error e := by
  have hreads := readValue_reads hv h
  refine ⟨v.canon, Value.canon_same hv, Value.canon_keyed hv, hreads,
    decode_eq_ok.mpr hreads.eq_ok, ?_, ?_⟩
  · rintro p q rfl hq
    obtain ⟨e, he⟩ := hreads.refused_of_prefix hq
    exact ⟨e, by rw [decode, he]⟩
  · intro s hs
    rw [decode, hreads s]
    exact ⟨_, if_neg hs⟩

/-- An object inserted out of name order, with a set inside a range inside it. -/
theorem decode_undoes_encode_object :
    ∃ w : Value,
      w.Same (.object [(ofString "b", .range (.included (.set [.bool true])) .unbounded),
        (ofString "a", .integer (-1))]) ∧
      decode [0x0D, 0, 0, 0, 2, 0, 0, 0, 1, 0x61, 0x04, 0x01, 0x7F, 0xFF, 0xFF, 0xFF, 0xFF,
        0xFF, 0xFF, 0xFF, 0, 0, 0, 1, 0x62, 0x0E, 0x02, 0x0F, 0, 0, 0, 1, 0x03, 0x01,
        0x01] = .ok w := by
  obtain ⟨w, hsame, -, -, hdecode, -⟩ := decode_undoes_encode
    (v := .object [(ofString "b", .range (.included (.set [.bool true])) .unbounded),
      (ofString "a", .integer (-1))])
    (by simp [Value.Keyed, KeyedFields, KeyedBound, KeyedItems, Dict.Keyed]; decide) rfl
  exact ⟨w, hsame, hdecode⟩

end TessariDB
