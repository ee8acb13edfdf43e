import TessariDB.JsonScalars
import TessariDB.Sequences

/-!
# Reading at the Declared Kind Restores the Value

Every document that spells a value is read, at the kind the value is declared with, as that value.

## Main results

* `readShape_spelled`: geometry.
* `readValue_restores`: every value.
-/

namespace TessariDB

namespace JsonValues

open ByteCodec Utf8 Text Calendar Doubles Hex Numerals Timestamps

variable (python : Interpreter)

/-! ### Numbers -/

theorem readFloat_spelled {d : Double} {j : Json} (hzero : d ≠ NEGATIVE_ZERO)
    (hnan : isNaN d → d = NAN) (h : SpellsFloat d j) : readFloat python j = .ok d := by
  rw [SpellsFloat] at h
  split at h
  · next hd =>
    rw [h, hnan hd]
    rfl
  · split at h
    · next hd =>
      rw [h, hd]
      rfl
    · split at h
      · next hd =>
        rw [h, hd]
        rfl
      · rw [SpellsNumber, if_neg hzero] at h
        rcases h with rfl | ⟨z, rfl, hz⟩
        · rfl
        · rw [readFloat, hz]

theorem readFloat_isNull {d : Double} {j : Json} (h : SpellsFloat d j) : j.isNull = false := by
  rw [SpellsFloat] at h
  split at h
  · rw [h]; rfl
  · split at h
    · rw [h]; rfl
    · split at h
      · rw [h]; rfl
      · rcases h with rfl | ⟨z, rfl, -⟩ <;> rfl

/-! ### Shapes -/

theorem coordinate_spelled {d : Double} {j : Json} (hfinite : isFinite d)
    (hzero : d ≠ NEGATIVE_ZERO) (h : SpellsCoordinate d j) : coordinate python j = .ok d := by
  rw [SpellsCoordinate, if_pos hfinite, SpellsNumber, if_neg hzero] at h
  rcases h with rfl | ⟨z, rfl, hz⟩
  · rfl
  · rw [coordinate, hz]

theorem position_spelled {p : Position} {j : Json} (hp : RestorablePosition p)
    (h : SpellsPosition p j) : position python j = .ok p := by
  obtain ⟨lon, lat, rfl, hlon, hlat⟩ := h
  have hlon' := coordinate_spelled python hp.1.1 hp.1.2 hlon
  have hlat' := coordinate_spelled python hp.2.1 hp.2.2 hlat
  rw [position, iterate]
  exact Sequences.bind_eq_ok.mpr ⟨_, rfl, Sequences.bind_eq_ok.mpr ⟨_, hlon',
    Sequences.bind_eq_ok.mpr ⟨_, hlat', rfl⟩⟩⟩

/-- An array is read when its elements are. -/
theorem mapM_spelled {α : Type} {r : α → Json → Prop} {read : Json → Except JsonRaised α}
    {as : List α} {j : Json} (h : SpellsArray r as j)
    (hread : ∀ a ∈ as, ∀ k, r a k → read k = .ok a) :
    (do (← iterate j).mapM read) = .ok as := by
  obtain ⟨js, rfl, hjs⟩ := h
  exact Sequences.bind_eq_ok.mpr ⟨js, rfl, Sequences.mapM_of_forall₂ hjs hread⟩

theorem positions_spelled {ps : List Position} {j : Json} (hps : ∀ p ∈ ps, RestorablePosition p)
    (h : SpellsArray SpellsPosition ps j) : positions python j = .ok ps :=
  mapM_spelled h fun p hp _ hk => position_spelled python (hps p hp) hk

theorem polygon_spelled {p : Polygon} {j : Json} (hp : RestorablePolygon p)
    (h : SpellsPolygon p j) : polygon python j = .ok p := by
  rcases h with ⟨rfl, rfl⟩ | h
  · rfl
  · obtain ⟨js, rfl, hjs⟩ := h
    have hwalls := Sequences.mapM_of_forall₂ (f := positions python) hjs fun ring hring _ hk =>
      positions_spelled python (hp ring hring) hk
    exact Sequences.bind_eq_ok.mpr ⟨js, rfl, Sequences.bind_eq_ok.mpr ⟨_, hwalls, rfl⟩⟩

theorem memberShapes_eq (members : List (Str × Json)) :
    memberShapes python members = Dict.mapValues (shapesOf python) members := by
  induction members with
  | nil => rfl
  | cons member members ih => rw [memberShapes, ih]; rfl

theorem readShapes_eq (nodes : List Json) :
    readShapes python nodes = nodes.map (readShape python) := by
  induction nodes with
  | nil => rfl
  | cons node nodes ih => rw [readShapes, ih, List.map_cons]

/-- A known type is read as `SHAPES` says. -/
theorem readShape_of {body : List (Str × Json)} {type : Str}
    (htype : Dict.get? body (ofString "type") = some (.string type)) {r : Except JsonRaised Shape}
    (hr : shapeOf python body (memberShapes python body) type = some r) :
    readShape python (.object body) = r := by
  rw [readShape, htype]
  dsimp only
  rw [hr, Option.getD_some]

/-- A type with coordinates. -/
theorem readShape_coordinates {type : String} {held : Json → Prop} {j : Json} {s : Shape}
    (h : SpellsGeometry type "coordinates" held j) {rest : Json → Except JsonRaised Shape}
    (hrest : ∀ c, held c → rest c = .ok s)
    (hshape : ∀ body, shapeOf python body (memberShapes python body) (ofString type) =
      some (item body "coordinates" >>= rest)) : readShape python j = .ok s := by
  obtain ⟨body, rfl, htype, c, hc, hheld⟩ := h
  have hitem : item body "coordinates" = .ok c := by rw [item, hc]
  rw [readShape_of python htype (hshape body), hitem]
  exact hrest c hheld

/-- What is read is put where it belongs. -/
theorem build_ok {α β : Type} {x : Except JsonRaised α} {a : α} (h : x = .ok a) (build : α → β) :
    (do return build (← x)) = Except.ok (build a) := by
  rw [h]
  rfl

theorem spellsShapes_iff {ss : List Shape} {js : List Json} :
    SpellsShapes ss js ↔ List.Forall₂ SpellsShape ss js := by
  induction ss generalizing js with
  | nil => rw [SpellsShapes, List.forall₂_nil_left_iff]
  | cons s ss ih =>
      simp only [SpellsShapes, List.forall₂_cons_left_iff, ih]
      constructor
      · rintro ⟨j, rest, rfl, hj, hrest⟩
        exact ⟨j, rest, hj, hrest, rfl⟩
      · rintro ⟨j, rest, hj, hrest, rfl⟩
        exact ⟨j, rest, rfl, hj, hrest⟩

theorem restorableShapes_iff {ss : List Shape} :
    RestorableShapes ss ↔ ∀ s ∈ ss, RestorableShape s := by
  induction ss with
  | nil => simp [RestorableShapes]
  | cons s ss ih => rw [RestorableShapes, ih, List.forall_mem_cons]

/-- The shapes of a collection are read where they stand. -/
theorem readShape_collection {ss : List Shape} {j : Json}
    (h : SpellsShape (.collection ss) j)
    (hread : ∀ s ∈ ss, ∀ k, SpellsShape s k → readShape python k = .ok s) :
    readShape python j = .ok (.collection ss) := by
  obtain ⟨body, rfl, htype, c, hc, js, rfl, hjs⟩ := h
  have hnested : Dict.get? (memberShapes python body) (ofString "geometries") =
      some (.ok (js.map (readShape python))) := by
    rw [memberShapes_eq, Dict.get?_mapValues, hc, Option.map_some, shapesOf, readShapes_eq]
  have hshapes : (js.map (readShape python)).mapM id = .ok ss := by
    rw [Sequences.mapM_eq_ok, List.forall₂_map_left_iff]
    exact Sequences.mapM_eq_ok.mp (Sequences.mapM_of_forall₂ (spellsShapes_iff.mp hjs) hread)
  have hshape : shapeOf python body (memberShapes python body) (ofString "GeometryCollection") =
      some (do return .collection (← (js.map (readShape python)).mapM id)) := by
    rw [shapeOf, hnested]
    rfl
  rw [readShape_of python htype hshape]
  exact build_ok hshapes Shape.collection

/-- **Geometry is read back.** -/
theorem readShape_spelled (s : Shape) : ∀ {j : Json}, RestorableShape s → SpellsShape s j →
    readShape python j = .ok s := by
  induction s using Shape.induction with
  | step s ih =>
      intro j hs h
      cases s with
      | point p =>
          exact readShape_coordinates python h (fun c hc =>
            build_ok (position_spelled python hs hc) Shape.point) fun _ => rfl
      | line ps =>
          exact readShape_coordinates python h (fun c hc =>
            build_ok (positions_spelled python hs hc) Shape.line) fun _ => rfl
      | polygonShape p =>
          exact readShape_coordinates python h (fun c hc =>
            build_ok (polygon_spelled python hs hc) Shape.polygonShape) fun _ => rfl
      | multiPoint ps =>
          exact readShape_coordinates python h (fun c hc =>
            build_ok (positions_spelled python hs hc) Shape.multiPoint) fun _ => rfl
      | multiLine ls =>
          have hread : ∀ c, SpellsArray (SpellsArray SpellsPosition) ls c →
              (do return .multiLine (← (← iterate c).mapM (positions python))) =
                Except.ok (Shape.multiLine ls) := by
            rintro _ ⟨js, rfl, hjs⟩
            exact build_ok (Sequences.mapM_of_forall₂ hjs fun ps hps _ hk =>
              positions_spelled python (hs ps hps) hk) Shape.multiLine
          exact readShape_coordinates python h hread fun _ => rfl
      | multiPolygon ps =>
          have hread : ∀ c, SpellsArray SpellsPolygon ps c →
              (do return .multiPolygon (← (← iterate c).mapM (polygon python))) =
                Except.ok (Shape.multiPolygon ps) := by
            rintro _ ⟨js, rfl, hjs⟩
            exact build_ok (Sequences.mapM_of_forall₂ hjs fun p hp _ hk =>
              polygon_spelled python (hs p hp) hk) Shape.multiPolygon
          exact readShape_coordinates python h hread fun _ => rfl
      | collection ss =>
          exact readShape_collection python h fun s hmem k hk =>
            ih s hmem (restorableShapes_iff.mp hs s hmem) hk

theorem object_of_spellsShape {s : Shape} {j : Json} (h : SpellsShape s j) :
    ∃ body, j = .object body := by
  cases s <;> exact ⟨_, h.choose_spec.1⟩

/-! ### Values -/

theorem kindsOf_eq (vs : List Value) : kindsOf vs = vs.map kindOf := by
  induction vs with
  | nil => rfl
  | cons v vs ih => rw [kindsOf, ih, List.map_cons]

/-- Each element is read at its own kind. -/
theorem readEach_spelled {items : List Value} {js : List Json} (h : SpellsItems items js)
    (hread : ∀ v ∈ items, ∀ k, Spells v k → readValue python (kindOf v) k = .ok (.ofValue v)) :
    readEach python (kindsOf items) js = .ok (loadedItems items) ∧ js.length = items.length := by
  induction items generalizing js with
  | nil => exact ⟨rfl, congrArg List.length h⟩
  | cons v items ih =>
      obtain ⟨j, rest, rfl, hj, hrest⟩ := h
      rw [List.forall_mem_cons] at hread
      obtain ⟨hread', hlength⟩ := ih hrest hread.2
      rw [kindsOf, readEach, hread.1 j hj, hread']
      exact ⟨rfl, congrArg (· + 1) hlength⟩

/-- `_items`, at one kind for each element. -/
theorem readItems_spelled {items : List Value} {js : List Json} (h : SpellsItems items js)
    (hread : ∀ v ∈ items, ∀ k, Spells v k → readValue python (kindOf v) k = .ok (.ofValue v)) :
    readItems python (.each (kindsOf items)) (.array js) = .ok (loadedItems items) := by
  obtain ⟨hitems, hlength⟩ := readEach_spelled python h hread
  have hkinds : ¬ (kindsOf items).length ≠ js.length := by
    rw [kindsOf_eq, List.length_map, hlength, not_not]
  rw [readItems]
  refine Sequences.bind_eq_ok.mpr ⟨js, rfl, ?_⟩
  dsimp only
  rw [if_neg hkinds, hitems]

/-- A declared field that is not there held none. -/
theorem readFields_spelled {fields : List (Str × Value)} {body : List (Str × Json)}
    (h : SpellsFields fields body) (hread : ∀ field ∈ fields, field.2.isNone = false →
      ∀ k, Spells field.2 k → readValue python (kindOf field.2) k = .ok (.ofValue field.2)) :
    readFields python (fieldKinds fields) body = .ok (loadedFields fields) := by
  induction fields with
  | nil => rfl
  | cons field fields ih =>
      obtain ⟨name, v⟩ := field
      rw [List.forall_mem_cons] at hread
      obtain ⟨hfield, hrest⟩ := h
      rw [fieldKinds, readFields, ih hrest hread.2]
      split at hfield
      · next hnone =>
        rw [hfield]
        cases v with
        | noneValue => rfl
        | _ => cases hnone
      · next hheld =>
        obtain ⟨j, hj, hspells⟩ := hfield
        rw [hj]
        dsimp only
        rw [hread.1 (by simpa using hheld) j hspells]
        rfl

/-- An end is read at the kind of what it holds. -/
theorem readBound_spelled {bound : Bound Value} {j : Json} {kind : Kind}
    (hkind : ∀ k ∈ boundKind bound, k = kind) (h : SpellsBound bound j)
    (hread : ∀ v ∈ bound.values, ∀ k, Spells v k → readValue python (kindOf v) k = .ok (.ofValue v)) :
    readBound python (readValue python kind) j = .ok (loadedBound bound) := by
  cases bound with
  | unbounded =>
      obtain ⟨body, rfl, hbound⟩ := h
      refine Sequences.bind_eq_ok.mpr ⟨body, rfl, ?_⟩
      rw [hbound]
      rfl
  | included v | excluded v =>
      obtain ⟨body, rfl, hbound, held, hheld, hspells⟩ := h
      refine Sequences.bind_eq_ok.mpr ⟨body, rfl, ?_⟩
      have hv := hread v List.mem_cons_self held hspells
      rw [hkind _ rfl] at hv
      rw [hbound, hheld]
      exact Sequences.bind_eq_ok.mpr ⟨_, hv, rfl⟩

theorem restorableItems_iff {vs : List Value} :
    RestorableItems python vs ↔ ∀ v ∈ vs, Restorable python v := by
  induction vs with
  | nil => simp [RestorableItems]
  | cons v vs ih => rw [RestorableItems, ih, List.forall_mem_cons]

theorem restorableFields_iff {fields : List (Str × Value)} : RestorableFields python fields ↔
    ∀ field ∈ fields, field.2.isNone = true ∨ Restorable python field.2 := by
  induction fields with
  | nil => simp [RestorableFields]
  | cons field fields ih => rw [RestorableFields, ih, List.forall_mem_cons]

theorem restorableBound_iff {bound : Bound Value} :
    RestorableBound python bound ↔ ∀ v ∈ bound.values, Restorable python v := by
  cases bound <;> simp [RestorableBound, Bound.values]

/-- The kind of a range is that of the ends that have one. -/
theorem kind_of_ends {start stop : Bound Value}
    (h : ∀ k ∈ boundKind start, ∀ k' ∈ boundKind stop, k = k') :
    (∀ k ∈ boundKind start, k = ((boundKind start).or (boundKind stop)).getD .null) ∧
      ∀ k ∈ boundKind stop, k = ((boundKind start).or (boundKind stop)).getD .null := by
  cases hstart : boundKind start with
  | none =>
      refine ⟨fun k hk => (by cases hk), fun k hk => ?_⟩
      rw [hk]
      rfl
  | some k =>
      refine ⟨fun k' hk' => (Option.some.inj hk').symm, fun k' hk' => ?_⟩
      exact (h k hstart k' hk').symm

/-- **Reading at the declared kind restores the value.** -/
theorem readValue_restores (v : Value) : ∀ {j : Json}, v.Valid → Restorable python v → Spells v j →
    readValue python (kindOf v) j = .ok (.ofValue v) := by
  induction v using Value.induction with
  | step v ih =>
      intro j hv hr h
      cases v with
      | noneValue => exact absurd h id
      | nullValue =>
          rw [h]
          rfl
      | bool b =>
          rw [h]
          rfl
      | integer z =>
          rw [h]
          rfl
      | float d =>
          have hread := readFloat_spelled python hr.1 hr.2 h
          rw [kindOf, readValue, readFloat_isNull h, hread]
          rfl
      | decimal mantissa scale =>
          obtain ⟨hscale, hlow, hhigh⟩ := hv.decimal
          obtain ⟨k, rfl⟩ := Int.eq_ofNat_of_zero_le hscale
          rw [INT128_MIN] at hlow
          rw [INT128_MAX] at hhigh
          have hread := readDecimal_positional python (m := mantissa) (k := k) (by omega) hr
          rw [h]
          exact Sequences.bind_eq_ok.mpr ⟨_, rfl, build_ok hread Loaded.value⟩
      | text s =>
          rw [h]
          rfl
      | bytes raw =>
          have hread : readHex python (hex raw) = .ok raw := by rw [readHex, fromHex_hex]
          rw [h]
          exact Sequences.bind_eq_ok.mpr ⟨_, rfl, build_ok hread (Loaded.value ∘ Value.bytes)⟩
      | duration seconds nanos =>
          obtain ⟨⟨hlow, hhigh⟩, hpos, hlt⟩ := hv.duration
          rw [INT64_MIN] at hlow
          rw [INT64_MAX] at hhigh
          rw [NANOS_PER_SECOND] at hlt
          have hread := readDuration_spanText python (seconds * 1000000000 + nanos) (by omega)
          have hseconds : (seconds * 1000000000 + nanos) / 1000000000 = seconds := by omega
          have hnanos : (seconds * 1000000000 + nanos) % 1000000000 = nanos := by omega
          rw [hseconds, hnanos] at hread
          rw [h]
          exact Sequences.bind_eq_ok.mpr ⟨_, rfl, build_ok hread Loaded.value⟩
      | datetime seconds nanos =>
          obtain ⟨m, hm, hyear⟩ := hr
          obtain ⟨text, rfl, hspells⟩ := h
          have hread := readDatetime_spelled python hm hyear hspells
          exact Sequences.bind_eq_ok.mpr ⟨_, rfl, build_ok hread Loaded.value⟩
      | uuid raw =>
          have hread : readHex python (withoutHyphens (hyphenated (hex raw))) = .ok raw := by
            rw [withoutHyphens_hyphenated ne_hyphen_of_mem_hex, readHex, fromHex_hex]
          rw [h]
          exact Sequences.bind_eq_ok.mpr ⟨_, rfl, build_ok hread (Loaded.value ∘ Value.uuid)⟩
      | table id => exact False.elim hr
      | record id => exact False.elim hr
      | array items =>
          obtain ⟨js, rfl, hjs⟩ := h
          have hread := readItems_spelled python hjs fun v hmem k hk =>
            ih v hmem (hv.array v hmem) ((restorableItems_iff python).mp hr v hmem) hk
          exact build_ok hread Loaded.array
      | object fields =>
          obtain ⟨body, rfl, hbody⟩ := h
          have hread := readFields_spelled python hbody fun field hmem hheld k hk =>
            ih field.2 (List.mem_map_of_mem hmem) (hv.object field hmem)
              (((restorableFields_iff python).mp hr field hmem).resolve_left (by simp [hheld])) hk
          exact Sequences.bind_eq_ok.mpr ⟨_, rfl, build_ok hread Loaded.object⟩
      | set items =>
          obtain ⟨js, rfl, hjs⟩ := h
          have hread := readItems_spelled python hjs fun v hmem k hk =>
            ih v hmem (hv.set v hmem) ((restorableItems_iff python).mp hr v hmem) hk
          exact build_ok hread Loaded.set
      | range start stop =>
          obtain ⟨body, s, e, rfl, hs, he, hstart, hstop⟩ := h
          obtain ⟨hrstart, hrstop, hkinds⟩ := hr
          obtain ⟨hkstart, hkstop⟩ := kind_of_ends hkinds
          have hreadstart := readBound_spelled python hkstart hstart fun v hmem k hk =>
            ih v (List.mem_append_left _ hmem) (hv.range.1 v hmem)
              ((restorableBound_iff python).mp hrstart v hmem) hk
          have hreadstop := readBound_spelled python hkstop hstop fun v hmem k hk =>
            ih v (List.mem_append_right _ hmem) (hv.range.2 v hmem)
              ((restorableBound_iff python).mp hrstop v hmem) hk
          refine Sequences.bind_eq_ok.mpr ⟨body, rfl, ?_⟩
          rw [hs, he]
          exact Sequences.bind_eq_ok.mpr ⟨_, hreadstart, Sequences.bind_eq_ok.mpr
            ⟨_, hreadstop, rfl⟩⟩
      | geometry shape =>
          have hread := readShape_spelled python shape hr h
          obtain ⟨body, rfl⟩ := object_of_spellsShape h
          exact Sequences.bind_eq_ok.mpr ⟨body, rfl, build_ok hread
            (Loaded.value ∘ Value.geometry)⟩
      | regex s =>
          rw [h]
          rfl

/-! ### An interpreter -/

/-- What ASCII takes for a digit. -/
def asciiDigit (c : CodePoint) : Option ℕ :=
  if IsDigit c then some (c.val - 0x30) else none

theorem asciiDigit_eq_some {c : CodePoint} {d : ℕ} (h : asciiDigit c = some d) :
    IsDigit c ∧ d = c.val - 0x30 := by
  rw [asciiDigit] at h
  split at h
  · next hc => exact ⟨hc, (Option.some.inj h).symm⟩
  · cases h

theorem asciiDigit_lt (c : CodePoint) (d : ℕ) (h : asciiDigit c = some d) : d < 10 := by
  obtain ⟨hc, rfl⟩ := asciiDigit_eq_some h
  rw [IsDigit] at hc
  omega

theorem asciiDigit_isdigit (c : CodePoint) (d : ℕ) (h : asciiDigit c = some d) :
    decide (IsDigit c) = true :=
  decide_eq_true (asciiDigit_eq_some h).1

/-- What ASCII takes for white space. -/
def asciiSpace (c : CodePoint) : Bool := decide (c.val = 0x20 ∨ (0x09 ≤ c.val ∧ c.val ≤ 0x0D))

theorem asciiSpace_visible (c : CodePoint) (hlow : 0x21 ≤ c.val) (_ : c.val ≤ 0x7E) :
    asciiSpace c = false :=
  decide_eq_false (by omega)

theorem readStamp_valid (s : Str) (m : Moment) (h : readStamp s = some m) :
    m.Valid := by
  rw [readStamp] at h
  split at h
  · next hvalid => exact Option.some.inj h ▸ hvalid.1
  · cases h

/-- No limit to the digits. -/
theorem unlimited : (0 : ℕ) = 0 ∨ 640 ≤ 0 :=
  .inl rfl

/-- An interpreter that knows ASCII only, with a limit to the digits it converts. -/
def asciiInterpreter (limit : ℕ) (hlimit : limit = 0 ∨ 640 ≤ limit) : Interpreter where
  decimal := asciiDigit
  isdigit c := decide (IsDigit c)
  isspace := asciiSpace
  maxDigits := limit
  strptime := readStamp
  floatOfStr _ := none
  repr _ := []
  why _ := []
  decimal_ascii _ _ := rfl
  decimal_lt := asciiDigit_lt
  isdigit_decimal := asciiDigit_isdigit
  isdigit_ascii _ _ := rfl
  isspace_white _ h := decide_eq_true h
  isspace_visible := asciiSpace_visible
  maxDigits_large := hlimit
  strptime_valid := readStamp_valid
  strptime_stamp _ hm _ := readStamp_stamp hm

/-- A numeral of too many digits is refused. -/
theorem readValue_long_decimal {m : ℤ} {k : ℕ} (hm : m.natAbs < 10 ^ 40)
    (hlong : ¬ python.Converts (k + 1)) (loaded : Loaded) :
    readValue python .decimal (.string (positional m k)) ≠ .ok loaded := by
  intro h
  have hread := readDecimal_eq python (k := k) hm
  rw [if_neg hlong] at hread
  obtain ⟨text, htext, h⟩ := Sequences.bind_eq_ok.mp h
  obtain ⟨v, hv, -⟩ := Sequences.bind_eq_ok.mp h
  cases htext
  cases hread.symm.trans hv

/-- **A payload and a long numeral are lost**: every NaN is read as one, and a decimal of 4300
digits behind the point is refused where no more than 4300 digits are converted. -/
theorem nan_payload_is_lost :
    (Value.float 0x7FF8000000000001).Valid ∧ Spells (.float 0x7FF8000000000001) (.string "NaN") ∧
      (∀ python, readValue python .float (.string "NaN") ≠
        .ok (.ofValue (.float 0x7FF8000000000001))) ∧
      (Value.decimal 1 4300).Valid ∧ ∃ j, Spells (.decimal 1 4300) j ∧ ∀ loaded,
        readValue (asciiInterpreter 4300 (by decide)) .decimal j ≠ .ok loaded := by
  refine ⟨⟨trivial, _, rfl⟩, ?_, fun python h => ?_, ⟨trivial, _, rfl⟩, _, rfl, fun loaded h => ?_⟩
  · rw [Spells, SpellsFloat, if_pos (by decide)]
  · cases h
  · refine readValue_long_decimal _ (m := 1) (by decide) ?_ loaded h
    rw [Interpreter.Converts]
    decide

/-- A duration before its zero, a decimal below one, and a field that is not there. -/
theorem object_is_restored :
    readValue (asciiInterpreter 4300 (by decide))
      (.object [("n", .decimal), ("gone", .null), ("t", .set (.each [.duration, .null]))])
      (.object [("t", .array [.string "-500ms", .null]), ("n", .string "-0.05")]) =
    .ok (.object [("n", .value (.decimal (-5) 2)), ("gone", .value .noneValue),
      ("t", .set [.value (.duration (-1) 500000000), .value .nullValue])]) :=
  readValue_restores (asciiInterpreter 4300 (by decide))
    (.object [("n", .decimal (-5) 2), ("gone", .noneValue),
      ("t", .set [.duration (-1) 500000000, .nullValue])])
    ⟨⟨by decide, trivial, trivial, ⟨trivial, trivial, trivial⟩, trivial⟩, _, rfl⟩
    ⟨.inr (.inr (by decide)), .inl rfl, .inr ⟨trivial, trivial, trivial⟩, trivial⟩
    ⟨_, rfl, ⟨_, rfl, congrArg Json.string (by decide)⟩, rfl,
      ⟨_, rfl, _, rfl, _, _, rfl, congrArg Json.string (by decide), _, _, rfl, rfl, rfl⟩, trivial⟩

end JsonValues

end TessariDB
