import TessariDB.AnswerIsolation
import TessariDB.Credit
import TessariDB.Sequences

/-!
# A Declared Count Cannot Amplify

The nodes of a value and of an answer: values, field names, bounds, record ids, shapes, polygons,
rings and positions, outcomes, rows, notes, names, keys and corrections. Each of them is read from
at least one byte of its own, whatever the counts before it declare.

## Main results

* `value_pays`, `outcomeOf_pays`: what is read of a value and of an outcome.
* `declared_counts_cannot_amplify`: both readers, with the bytes of the whole.
-/

namespace TessariDB

open ByteCodec Utf8

/-! ### Nodes -/

def Ring.nodes (ring : Ring) : ℕ := 1 + ring.length

def Polygon.nodes (p : Polygon) : ℕ := 1 + Ring.nodes p.exterior + (p.interiors.map Ring.nodes).sum

mutual

/-- The shapes, polygons, rings and positions of a shape. -/
def Shape.nodes : Shape → ℕ
  | .point _ => 1 + 1
  | .line positions => 1 + Ring.nodes positions
  | .polygonShape p => 1 + p.nodes
  | .multiPoint positions => 1 + Ring.nodes positions
  | .multiLine lines => 1 + (lines.map Ring.nodes).sum
  | .multiPolygon polygons => 1 + (polygons.map Polygon.nodes).sum
  | .collection geometries => 1 + shapesNodes geometries

def shapesNodes : List Shape → ℕ
  | [] => 0
  | s :: ss => s.nodes + shapesNodes ss

end

mutual

/-- The values, field names, bounds and record ids of a value, and what its shapes hold. -/
def Value.nodes : Value → ℕ
  | .record _ _ => 1 + 1
  | .array items => 1 + itemsNodes items
  | .set items => 1 + itemsNodes items
  | .object fields => 1 + fieldsNodes fields
  | .range start stop => 1 + boundNodes start + boundNodes stop
  | .geometry s => 1 + s.nodes
  | _ => 1

def itemsNodes : List Value → ℕ
  | [] => 0
  | v :: vs => v.nodes + itemsNodes vs

def fieldsNodes : List (Str × Value) → ℕ
  | [] => 0
  | (_, v) :: fields => 1 + v.nodes + fieldsNodes fields

def boundNodes : Bound Value → ℕ
  | .unbounded => 1
  | .included v => 1 + v.nodes
  | .excluded v => 1 + v.nodes

end

def fieldNodes (field : Str × Value) : ℕ := 1 + field.2.nodes

def Row.nodes (row : Row) : ℕ := 1 + row.value.nodes

def Suggestion.nodes : Suggestion → ℕ
  | .notConsulted => 0
  | .complete => 0
  | .corrections items => items.length

def Records.nodes (r : Records) : ℕ :=
  r.names.length + (r.rows.map Row.nodes).sum + r.notes.length + r.suggestion.nodes

/-- The outcome, and its rows, notes, names, keys and corrections with the values in them. -/
def Outcome.nodes : Outcome → ℕ
  | .records r => 1 + r.nodes
  | .valueOutcome names v => 1 + names.length + v.nodes
  | .keys names => 1 + names.length
  | _ => 1

theorem shapesNodes_eq (ss : List Shape) : shapesNodes ss = (ss.map Shape.nodes).sum := by
  induction ss with
  | nil => rfl
  | cons s ss ih => rw [shapesNodes, ih, List.map_cons, List.sum_cons]

theorem itemsNodes_eq (vs : List Value) : itemsNodes vs = (vs.map Value.nodes).sum := by
  induction vs with
  | nil => rfl
  | cons v vs ih => rw [itemsNodes, ih, List.map_cons, List.sum_cons]

theorem fieldsNodes_eq (fields : List (Str × Value)) :
    fieldsNodes fields = (fields.map fieldNodes).sum := by
  induction fields with
  | nil => rfl
  | cons field fields ih => rw [fieldsNodes, ih, List.map_cons, List.sum_cons, fieldNodes]

/-! ### The primitives -/

open Get

namespace Reader

/-- A reader that hands back no more than it was given keeps what is in hand. -/
theorem pays_of_local {α : Type} {g : Reader α} [Local g] (credit : ℕ) :
    Pays credit g fun _ => credit := by
  intro s s' a hrun
  have := length_le_of_ok hrun
  dsimp only
  omega

theorem take_pays (width : ℕ) (what : String) : Pays 0 (take width what) fun _ => width := by
  intro s s' raw hrun
  obtain ⟨hwidth, rfl⟩ := take_eq_ok.mp hrun
  rw [List.length_append]
  dsimp only
  omega

theorem u8_pays (what : String) : Pays 0 (u8 what) fun _ => 1 :=
  (take_pays 1 what).map _ fun _ => Nat.le_refl _

theorem u32_pays (what : String) : Pays 0 (u32 what) fun _ => 4 :=
  (take_pays 4 what).map _ fun _ => Nat.le_refl _

theorem double_pays (what : String) : Pays 0 (double what) fun _ => 8 :=
  (take_pays 8 what).map _ fun _ => Nat.le_refl _

/-- A length and that many bytes. -/
theorem lenbytes_pays (what : String) : Pays 0 (lenbytes what) fun raw => 4 + raw.length := by
  refine (u32_pays _).bind fun width => ?_
  intro s s' raw hrun
  obtain ⟨-, rfl⟩ := take_eq_ok.mp hrun
  rw [List.length_append]
  dsimp only
  omega

theorem text_pays (what : String) : Pays 0 (text what) fun _ => 4 := by
  refine ((lenbytes_pays what).mono fun raw => ?_).bind fun raw => pays_of_local 4
  omega

end Reader

/-! ### Values -/

namespace Decode

open Reader

theorem counted_pays {α : Type} {size : α → ℕ} (what : String) {item : Reader α}
    (h : Pays 0 item size) : Pays 0 (counted what item) fun as => 4 + (as.map size).sum :=
  (u32_pays what).bind fun n => (h.repeatN n).keep 4

theorem recordId_pays : Pays 0 recordId fun _ => 1 :=
  (u8_pays _).bind fun _ => pays_of_local 1

theorem position_pays : Pays 0 position fun _ => 1 :=
  ((double_pays _).mono fun _ => by omega).bind fun _ => pays_of_local 1

theorem positions_pays : Pays 0 positions Ring.nodes := by
  refine (counted_pays _ position_pays).mono fun ring => ?_
  rw [Ring.nodes, List.map_const', List.sum_replicate_nat, Nat.mul_one]
  omega

theorem polygon_pays : Pays 0 polygon Polygon.nodes := by
  refine positions_pays.bind fun exterior => ?_
  refine ((counted_pays _ positions_pays).keep _).map _ fun interiors => ?_
  rw [Polygon.nodes]
  dsimp only
  omega

theorem shapeOf_pays {nested : Reader Shape} (h : Pays 0 nested Shape.nodes) (kind : ℕ) :
    Pays 1 (shapeOf nested kind) Shape.nodes := by
  rw [shapeOf]
  refine .ite ((position_pays.keep 1).map _ fun _ => Nat.le_refl _) ?_
  refine .ite ((positions_pays.keep 1).map _ fun _ => Nat.le_refl _) ?_
  refine .ite ((polygon_pays.keep 1).map _ fun _ => Nat.le_refl _) ?_
  refine .ite ((positions_pays.keep 1).map _ fun _ => Nat.le_refl _) ?_
  refine .ite (((counted_pays _ positions_pays).keep 1).map _ fun lines => ?_) ?_
  · rw [Shape.nodes]
    omega
  refine .ite (((counted_pays _ polygon_pays).keep 1).map _ fun polygons => ?_) ?_
  · rw [Shape.nodes]
    omega
  refine .ite (((counted_pays _ h).keep 1).map _ fun geometries => ?_) (pays_fail _)
  rw [Shape.nodes, shapesNodes_eq]
  omega

theorem shape_pays (fuel : ℕ) : Pays 0 (shape fuel) Shape.nodes := by
  induction fuel with
  | zero => exact pays_fail _
  | succ fuel ih => exact (u8_pays _).bind fun kind => shapeOf_pays ih kind

theorem number_pays : Pays 1 number Value.nodes := by
  refine (pays_of_local 1).bind fun kind => ?_
  refine .ite ((pays_of_local 1).map _ fun _ => Nat.le_refl _) ?_
  refine .ite ((pays_of_local 1).map _ fun _ => Nat.le_refl _) ?_
  refine .ite ?_ (pays_fail _)
  exact (pays_of_local 1).bind fun _ => (pays_of_local 1).map _ fun _ => Nat.le_refl _

theorem bound_pays {nested : Reader Value} (h : Pays 0 nested Value.nodes) :
    Pays 0 (bound nested) boundNodes := by
  refine (u8_pays _).bind fun kind => ?_
  refine .ite (pays_pure (Nat.le_refl _)) ?_
  refine .ite ((h.keep 1).map _ fun _ => Nat.le_refl _) ?_
  exact .ite ((h.keep 1).map _ fun _ => Nat.le_refl _) (pays_fail _)

theorem field_pays {nested : Reader Value} (h : Pays 0 nested Value.nodes) :
    Pays 0 (field nested) fieldNodes := by
  refine (text_pays _).bind fun name => (h.keep 4).map _ fun v => ?_
  rw [fieldNodes]
  dsimp only
  omega

theorem items_pays {nested : Reader Value} (h : Pays 0 nested Value.nodes) (what : String) :
    Pays 1 (counted what nested) fun items => 1 + itemsNodes items := by
  refine ((counted_pays what h).keep 1).mono fun items => ?_
  rw [itemsNodes_eq]
  omega

/-- What is assigned to a name again is there once. -/
theorem fieldsNodes_ofPairs_le (pairs : List (Str × Value)) :
    fieldsNodes (Dict.ofPairs pairs) ≤ (pairs.map fieldNodes).sum := by
  rw [fieldsNodes_eq]
  exact Dict.sum_ofPairs_le fieldNodes pairs

/-- **The rest of a value is paid for** by its tag and what is consumed behind it. -/
theorem valueOf_pays {nested : Reader Value} {shape : Reader Shape} [Local nested]
    (h : Pays 0 nested Value.nodes) (hshape : Pays 0 shape Shape.nodes) (tag : ℕ) :
    Pays 1 (valueOf nested shape tag) Value.nodes := by
  have hleaf : ∀ {α : Type} {g : Reader α} [Local g], Pays 1 g fun _ => 1 := pays_of_local 1
  rw [valueOf]
  refine .ite (pays_pure (Nat.le_refl _)) ?_
  refine .ite (pays_pure (Nat.le_refl _)) ?_
  refine .ite (hleaf.map _ fun _ => Nat.le_refl _) ?_
  refine .ite number_pays ?_
  refine .ite (hleaf.map _ fun _ => Nat.le_refl _) ?_
  refine .ite (hleaf.map _ fun _ => Nat.le_refl _) ?_
  refine .ite (hleaf.bind fun _ => hleaf.map _ fun _ => Nat.le_refl _) ?_
  refine .ite (hleaf.bind fun _ => hleaf.map _ fun _ => Nat.le_refl _) ?_
  refine .ite (hleaf.map _ fun _ => Nat.le_refl _) ?_
  refine .ite (hleaf.map _ fun _ => Nat.le_refl _) ?_
  refine .ite (hleaf.bind fun _ => (recordId_pays.keep 1).map _ fun _ => Nat.le_refl _) ?_
  refine .ite ((items_pays h _).map _ fun _ => Nat.le_refl _) ?_
  refine .ite ((items_pays h _).map _ fun _ => Nat.le_refl _) ?_
  refine .ite (((counted_pays _ (field_pays h)).keep 1).map _ fun pairs => ?_) ?_
  · have := fieldsNodes_ofPairs_le pairs
    rw [Value.nodes]
    omega
  refine .ite (((bound_pays h).keep 1).bind fun start =>
    ((bound_pays h).keep _).map _ fun stop => Nat.le_refl _) ?_
  refine .ite ((hshape.keep 1).map _ fun _ => Nat.le_refl _) ?_
  exact .ite (hleaf.map _ fun _ => Nat.le_refl _) (pays_fail _)

/-- **A value is paid for.** -/
theorem value_pays (fuel : ℕ) : Pays 0 (value fuel) Value.nodes := by
  induction fuel with
  | zero => exact pays_fail _
  | succ fuel ih => exact (u8_pays _).bind fun tag => valueOf_pays ih (shape_pays fuel) tag

end Decode

theorem readValue_pays : Pays 0 readValue Value.nodes :=
  fun s s' v hrun => Decode.value_pays (s.length + 1) s s' v hrun

theorem nodes_le_of_decode {raw : Bytes} {v : Value} (h : decode raw = .ok v) :
    v.nodes ≤ raw.length :=
  readValue_pays raw [] v (decode_eq_ok.mp h)

/-! ### Answers -/

namespace Answer

open Reader Decode

theorem name_pays : Pays 0 name fun _ => 1 :=
  ((u32_pays _).mono fun _ => by omega).bind fun _ => pays_of_local 1

theorem names_pays : Pays 0 names List.length := by
  refine (counted_pays _ name_pays).map _ fun pairs => ?_
  have := Dict.length_ofPairs_le pairs
  rw [List.map_const', List.sum_replicate_nat, Nat.mul_one]
  omega

/-- A value in bytes of its own. -/
theorem value_in_pays (what : String) {credit : ℕ} {α : Type} {f : Value → α} {size : α → ℕ}
    (h : ∀ v, size (f v) ≤ credit + v.nodes) :
    Pays credit (do
      let raw ← Reader.lenbytes what
      let v ← Get.ofExcept (decode raw)
      return f v) size := by
  refine ((lenbytes_pays what).keep credit).bind fun raw => ?_
  have hvalue : Pays (credit + (4 + raw.length)) (Get.ofExcept (decode raw) : Reader Value)
      fun v => credit + v.nodes := pays_ofExcept fun v hv => by
    have := nodes_le_of_decode hv
    omega
  exact hvalue.map f h

theorem row_pays : Pays 0 row Row.nodes := by
  refine (text_pays _).bind fun identity => value_in_pays _ fun v => ?_
  rw [Row.nodes]
  dsimp only
  omega

theorem key_pays (what : String) : Pays 0 (Reader.text what) fun _ => 1 :=
  (text_pays what).mono fun _ => by omega

theorem note_pays : Pays 0 note fun _ => 1 :=
  (key_pays _).bind fun _ => pays_of_local 1

theorem correction_pays : Pays 0 correction fun _ => 1 :=
  (key_pays _).bind fun _ => pays_of_local 1

theorem noteList_pays : Pays 0 noteList List.length := by
  refine (counted_pays _ note_pays).mono fun notes => ?_
  rw [List.map_const', List.sum_replicate_nat, Nat.mul_one]
  omega

theorem suggestion_pays : Pays 0 suggestion Suggestion.nodes := by
  refine (u8_pays _).bind fun state => ?_
  refine .ite (pays_pure (Nat.zero_le _)) ?_
  refine .ite (((counted_pays _ correction_pays).keep 1).map _ fun items => ?_)
    (pays_pure (Nat.zero_le _))
  rw [Suggestion.nodes, List.map_const', List.sum_replicate_nat, Nat.mul_one]
  omega

theorem recordsHead_pays : Pays 0 recordsHead Records.nodes := by
  refine (u8_pays _).bind fun byte => (names_pays.keep 1).bind fun names => ?_
  refine ((counted_pays _ row_pays).keep _).map _ fun rows => ?_
  rw [Records.nodes, Suggestion.nodes]
  dsimp only [List.length_nil]
  omega

/-- **The fields that may be absent are paid for where they are there.** -/
theorem records_pays : Pays 0 records Records.nodes := by
  refine recordsHead_pays.bind fun head => pays_exhausted.bind fun _ => ?_
  refine .ite (pays_pure (Nat.le_refl _)) ?_
  refine (noteList_pays.keep _).bind fun notes => pays_exhausted.bind fun _ => ?_
  have hnotes : ({ head with notes } : Records).nodes ≤ head.nodes + notes.length := by
    rw [Records.nodes, Records.nodes]
    dsimp only
    omega
  refine .ite (pays_pure hnotes) ?_
  refine (pays_of_local _).bind fun only => pays_exhausted.bind fun _ => ?_
  refine .ite (pays_pure hnotes) ?_
  refine (pays_of_local _).bind fun exactness => pays_exhausted.bind fun _ => ?_
  refine .ite (pays_pure hnotes) ?_
  refine (suggestion_pays.keep _).map _ fun suggestion => ?_
  rw [Records.nodes, Records.nodes]
  dsimp only
  omega

theorem outcomeOf_pays (rest : Bytes) (tag : ℕ) : Pays 1 (outcomeOf records rest tag) Outcome.nodes := by
  rw [outcomeOf]
  refine .ite (pays_pure (Nat.le_refl _)) ?_
  refine .ite ((records_pays.keep 1).map _ fun _ => Nat.le_refl _) ?_
  refine .ite ((names_pays.keep 1).bind fun names => value_in_pays _ fun v => Nat.le_refl _) ?_
  refine .ite (((counted_pays _ (key_pays _)).keep 1).map _ fun names => ?_) ?_
  · rw [Outcome.nodes, List.map_const', List.sum_replicate_nat, Nat.mul_one]
    omega
  exact .ite ((pays_of_local 1).map _ fun _ => Nat.le_refl _) (pays_pure (Nat.le_refl _))

theorem nodes_le_of_outcome {raw : Bytes} {o : Outcome} (h : outcome raw = .ok o) :
    o.nodes ≤ raw.length := by
  obtain ⟨⟨o', rest⟩, hrun, rfl⟩ := Sequences.map_eq_ok.mp h
  have hpays : Pays 0 (Reader.u8 "an outcome tag" >>= outcomeOf records (raw.drop 1)) Outcome.nodes :=
    (u8_pays _).bind fun tag => outcomeOf_pays _ tag
  have := hpays raw rest o' hrun
  dsimp only
  omega

/-- **An outcome is paid for.** -/
theorem entry_pays : Pays 0 entry Outcome.nodes := by
  refine ((u32_pays _).mapError _).bind fun length => .ite (pays_fail _) ?_
  have hbody : Pays 4 (Reader.fixed length "an outcome body") fun raw => 4 + raw.length := by
    intro s s' raw hrun
    obtain ⟨-, rfl⟩ := take_eq_ok.mp hrun
    rw [List.length_append]
    dsimp only
    omega
  refine (hbody.mapError _).bind fun raw => ?_
  · refine (pays_ofExcept fun o ho => ?_).mapError _
    have := nodes_le_of_outcome ho
    omega

theorem entries_pays : Pays 0 entries fun os => (os.map Outcome.nodes).sum :=
  ((u32_pays _).mapError _).bind fun count => ((entry_pays.repeatN count).keep 4).mono fun os => by
    omega

end Answer

theorem nodes_le_of_readAnswer {body : Bytes} {os : List Outcome} (h : readAnswer body = .ok os) :
    (os.map Outcome.nodes).sum ≤ body.length := by
  obtain ⟨⟨os', rest⟩, hrun, rfl⟩ := Sequences.map_eq_ok.mp h
  have := Answer.entries_pays body rest os' hrun
  dsimp only at this ⊢
  omega

/-! ### Everything takes a byte of its own -/

/-- What value decoding reads, with values nested so deep. -/
structure Decode.Fed (depth : ℕ) : Prop where
  value : Feeds (value depth) Value.nodes
  bound : Feeds (bound (Decode.value depth)) boundNodes
  field : Feeds (field (Decode.value depth)) fieldNodes
  recordId : Feeds recordId fun _ => 1
  shape : Feeds (shape depth) Shape.nodes
  polygon : Feeds polygon Polygon.nodes
  positions : Feeds positions Ring.nodes
  position : Feeds position fun _ => 1

/-- What an answer is read from. -/
structure Answer.Fed : Prop where
  entry : Feeds entry Outcome.nodes
  name : Feeds name fun _ => 1
  row : Feeds row Row.nodes
  note : Feeds note fun _ => 1
  key : Feeds (Reader.text "a key") fun _ => 1
  correction : Feeds correction fun _ => 1

theorem Value.nodes_pos (v : Value) : 0 < v.nodes := by
  cases v <;> simp [Value.nodes]

theorem Shape.nodes_pos (s : Shape) : 0 < s.nodes := by
  cases s <;> simp [Shape.nodes]

theorem Decode.fed (depth : ℕ) : Decode.Fed depth where
  value := ⟨value_pays depth, Value.nodes_pos⟩
  bound := ⟨bound_pays (value_pays depth), fun b => by cases b <;> simp [boundNodes]⟩
  field := ⟨field_pays (value_pays depth), fun _ => Nat.lt_add_right _ Nat.one_pos⟩
  recordId := feeds_one recordId_pays
  shape := ⟨shape_pays depth, Shape.nodes_pos⟩
  polygon := ⟨polygon_pays, fun p => by rw [Polygon.nodes]; omega⟩
  positions := ⟨positions_pays, fun _ => Nat.lt_add_right _ Nat.one_pos⟩
  position := feeds_one position_pays

theorem Answer.fed : Answer.Fed where
  entry := ⟨entry_pays, fun o => by cases o <;> simp [Outcome.nodes]⟩
  name := feeds_one name_pays
  row := ⟨row_pays, fun _ => Nat.lt_add_right _ Nat.one_pos⟩
  note := feeds_one note_pays
  key := feeds_one (key_pays _)
  correction := feeds_one correction_pays

/-- **A declared count cannot amplify.** Whatever is read takes bytes of its own, as many as it
has nodes. So decoding goes no deeper than there are bytes, a loop over more items than there are
bytes fails where it would for any other such count, and a value or an answer has no more nodes
than bytes. -/
theorem declared_counts_cannot_amplify :
    (∀ depth, Decode.Fed depth) ∧ Answer.Fed ∧
    (∀ raw depth, raw.length < depth → Decode.value depth raw = readValue raw) ∧
    (∀ {ε α : Type} {item : Get ε α} {size : α → ℕ}, Feeds item size → ∀ n m raw,
      raw.length < n → raw.length < m →
        ∃ e, repeatN n item raw = .error e ∧ repeatN m item raw = .error e) ∧
    (∀ raw v, decode raw = .ok v → v.nodes ≤ raw.length) ∧
    ∀ body os, readAnswer body = .ok os → (os.map Outcome.nodes).sum ≤ body.length :=
  ⟨Decode.fed, Answer.fed, fun _ _ h => (readValue_eq h).symm,
    fun h _ _ _ hn hm => repeatN_past h.pays h.pos hn hm, fun _ _ => nodes_le_of_decode,
    fun _ _ => nodes_le_of_readAnswer⟩

/-- An array of one null, two counts of positions past the bytes there are, and an answer of one
outcome. -/
theorem declared_counts_cannot_amplify_array :
    Decode.value 7 [0x0C, 0, 0, 0, 1, 0x02] = readValue [0x0C, 0, 0, 0, 1, 0x02] ∧
    (∃ e, repeatN 2 Decode.position [0] = .error e ∧
      repeatN 3 Decode.position [0] = .error e) ∧
    (Value.array [.nullValue]).nodes ≤ 6 ∧ ([Outcome.done].map Outcome.nodes).sum ≤ 9 :=
  ⟨declared_counts_cannot_amplify.2.2.1 _ _ (by decide),
    declared_counts_cannot_amplify.2.2.2.1 (Decode.fed 0).position _ _ _ (by decide) (by decide),
    declared_counts_cannot_amplify.2.2.2.2.1 [0x0C, 0, 0, 0, 1, 0x02] _ rfl,
    declared_counts_cannot_amplify.2.2.2.2.2 [0, 0, 0, 1, 0, 0, 0, 1, 0] _
      (Answer.readAnswer_of_read (by decide : ∀ body ∈ ([[0]] : List Bytes), body ≠ [])
        (.cons rfl .nil) rfl)⟩

end TessariDB
