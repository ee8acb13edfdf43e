import TessariDB.Codec

/-!
# The Encoding Is Canonical

Two values have one encoding exactly when they are the same value, and a payload that is
accepted is the encoding of what it decodes to exactly when it was written canonically.

The decoder normalises two things and nothing else: any byte but zero is `true`, and the
fields of an object may come in any order and more than once. `marks` is a second reading of
a payload that keeps exactly these places, the bool bytes and the field names as they were
written; `Marks.Canonical` says that a writer would have written them so.

## Main results

* `encode_eq_encode_iff`: the encoding decides sameness.
* `Decode.value_spelling`: what the value reader consumed, set against what the writer would
  write for its result.
* `Decode.marks_of_encode`: what the writer writes is canonical.
* `encode_decode`: an accepted payload encodes again, to itself exactly when it is canonical.
-/

namespace TessariDB

open ByteCodec Utf8 Get

/-- The places of a payload that the decoder normalises. -/
structure Marks where
  /-- The byte of every bool. -/
  bools : List ℕ
  /-- For every object, its field names as UTF-8 bytes, in the order they were written. -/
  objects : List (List Bytes)
  deriving DecidableEq, Repr

namespace Marks

def none : Marks := ⟨[], []⟩

def join (ms : List Marks) : Marks := ⟨ms.flatMap bools, ms.flatMap objects⟩

/-- As a writer writes them: bools as 0 or 1, names strictly ascending. -/
def Canonical (m : Marks) : Prop :=
  (∀ byte ∈ m.bools, byte = 0 ∨ byte = 1) ∧
    ∀ names ∈ m.objects, names.Pairwise (· < ·)

theorem canonical_none : none.Canonical := by
  simp [Canonical, none]

theorem canonical_join {ms : List Marks} : (join ms).Canonical ↔ ∀ m ∈ ms, m.Canonical := by
  simp only [Canonical, join, List.mem_flatMap, forall_exists_index, and_imp]
  constructor
  · rintro ⟨hbools, hobjects⟩ m hm
    exact ⟨fun byte hb => hbools byte m hm hb, fun names hn => hobjects names m hm hn⟩
  · intro h
    exact ⟨fun byte m hm hb => (h m hm).1 byte hb, fun names m hm hn => (h m hm).2 names hn⟩

end Marks

namespace Decode

/-! ### The marks of a payload -/

/-- A field: its name as it was written, and the marks of its value. -/
def markField (nested : Reader Marks) : Reader (Bytes × Marks) := do
  let name ← Reader.lenbytes "an object field name"
  let m ← nested
  return (name, m)

def markBound (nested : Reader Marks) : Reader Marks := do
  let kind ← Reader.u8 "a range bound"
  if kind = BOUND_UNBOUNDED then
    return Marks.none
  else
    nested

/-- The marks of an object with these fields. -/
def objectMarks (fields : List (Bytes × Marks)) : Marks :=
  let inner := Marks.join (fields.map Prod.snd)
  ⟨inner.bools, fields.map Prod.fst :: inner.objects⟩

/-- The marks of the rest of a value of a known tag, with `nested` for the values inside it
and `leaf` for one that holds none. -/
def marksOf (nested : Reader Marks) (leaf : Reader Value) (tag : ℕ) : Reader Marks :=
  if tag = TAG_BOOL then do
    let byte ← Reader.u8 "a bool"
    return ⟨[byte], []⟩
  else if tag = TAG_ARRAY then
    return Marks.join (← counted "an array count" nested)
  else if tag = TAG_SET then
    return Marks.join (← counted "a set count" nested)
  else if tag = TAG_OBJECT then
    return objectMarks (← counted "an object's field count" (markField nested))
  else if tag = TAG_RANGE then do
    let start ← markBound nested
    let stop ← markBound nested
    return Marks.join [start, stop]
  else do
    let _ ← leaf
    return Marks.none

/-- The marks of a value, read beside `value`. -/
def marks : ℕ → Reader Marks
  | 0 => Get.fail ⟨"nested deeper than its bytes"⟩
  | fuel + 1 => do
      let tag ← Reader.u8 "a value tag"
      marksOf (marks fuel) (valueOf (value fuel) (shape fuel) tag) tag

/-! ### What the writer writes is canonical -/

/-- The tags whose bytes `marks` looks into. -/
def Marked (tag : ℕ) : Prop :=
  tag = TAG_BOOL ∨ tag = TAG_ARRAY ∨ tag = TAG_SET ∨ tag = TAG_OBJECT ∨ tag = TAG_RANGE

instance (tag : ℕ) : Decidable (Marked tag) := by unfold Marked; infer_instance

theorem marksOf_leaf {tag : ℕ} (h : ¬ Marked tag) (nested : Reader Marks)
    (leaf : Reader Value) :
    marksOf nested leaf tag = leaf >>= fun _ => (pure Marks.none : Reader Marks) := by
  simp only [Marked, not_or] at h
  simp only [marksOf, h, if_false]

/-- A node is its tag byte and the rest, read with one fuel less. -/
theorem marks_below {n tag : ℕ} {rest : Writer} {P : Marks → Prop}
    (h : Recovers n (marksOf (marks n) (valueOf (value n) (shape n) tag) tag) rest P) :
    Recovers (n + 1) (marks (n + 1)) (Writer.u8 tag ++ rest) P := by
  intro b hb hlen
  obtain ⟨b₁, b₂, htag, hrest, rfl⟩ := Put.append_eq_ok.mp hb
  have hread := Reader.u8_inverts "a value tag" tag b₁ htag
  obtain ⟨-, rfl⟩ := Writer.u8_eq_ok.mp htag
  rw [List.length_append, BigEndian.length_toBytes] at hlen
  obtain ⟨m, hm, hP⟩ := h b₂ hrest (by omega)
  exact ⟨m, hread.bind hm, hP⟩

/-- A value that holds no bool and no other value has no marks. -/
theorem leaf_below {n tag : ℕ} {rest : Writer} {v : Value} (htag : ¬ Marked tag)
    (hv : v.Keyed) (heq : Encode.value v = Writer.u8 tag ++ rest) :
    Recovers (n + 1) (marks (n + 1)) (Encode.value v) Marks.Canonical := by
  intro b hb hlen
  have hread := value_inverts hv (n + 1) b hb hlen
  rw [heq] at hb
  obtain ⟨b₁, b₂, hb₁, -, rfl⟩ := Put.append_eq_ok.mp hb
  have htag₁ := Reader.u8_inverts "a value tag" tag b₁ hb₁
  have hleaf : (valueOf (value n) (shape n) tag).Reads b₂ v.canon := by
    intro s
    rw [← hread s, List.append_assoc, value, bind_of_ok (htag₁ (b₂ ++ s))]
    rfl
  refine ⟨Marks.none, htag₁.bind ?_, Marks.canonical_none⟩
  rw [Int.toNat_natCast, marksOf_leaf htag]
  exact hleaf.map _

theorem counted_recovers {α γ : Type} {k : ℕ} (what : String) {g : Reader α}
    {p : γ → Writer} {P : γ → α → Prop} {l : List γ}
    (h : ∀ x ∈ l, Recovers k g (p x) (P x)) :
    Recovers k (counted what g) (Writer.u32 l.length ++ Put.concat (l.map p))
      (List.Forall₂ P l) := by
  refine ((Reader.u32_inverts what l.length).below.recovers
    (P := fun count => count = l.length) rfl).bind ?_
  rintro count rfl
  exact Recovers.repeatN h

theorem counted_marks_recovers {k : ℕ} (what : String) {g : Reader Marks} {vs : List Value}
    (h : ∀ v ∈ vs, Recovers k g (Encode.value v) Marks.Canonical) :
    Recovers k (counted what g) (Writer.u32 vs.length ++ Put.concat (vs.map Encode.value))
      fun ms => (Marks.join ms).Canonical := by
  intro b hb hlen
  obtain ⟨ms, hms, hall⟩ := counted_recovers what h b hb hlen
  refine ⟨ms, hms, Marks.canonical_join.mpr fun m hm => ?_⟩
  obtain ⟨_, _, hc⟩ := exists_of_mem_forall₂ hall hm
  exact hc

/-- UTF-8 keeps the order of names. -/
theorem names_lt_iff {names : List Str} {raws : List Bytes}
    (h : List.Forall₂ (fun name raw => Utf8.encode name = some raw) names raws) :
    raws.Pairwise (· < ·) ↔ names.Pairwise (· < ·) := by
  have henc : ∀ name ∈ names, ∃ raw, Utf8.encode name = some raw := by
    intro name hname
    obtain ⟨raw, -, hraw⟩ := exists_of_mem_forall₂ h.flip hname
    exact ⟨raw, hraw⟩
  have hraws : raws = names.filterMap Utf8.encode := by
    clear henc
    induction h with
    | nil => rfl
    | cons hx _ ih => rw [List.filterMap_cons_some hx, ← ih]
  rw [hraws, List.pairwise_filterMap]
  refine List.Pairwise.iff_of_mem fun {t u} ht hu => ?_
  obtain ⟨x, hx⟩ := henc t ht
  obtain ⟨y, hy⟩ := henc u hu
  simp only [hx, hy, Option.some.injEq, forall_eq']
  exact encode_lt_encode_iff hx hy

/-- The names and the marks of the fields of an object, as they are written. -/
theorem field_recovers {k : ℕ} {g : Reader Marks} {field : Str × Value}
    (h : Recovers k g (Encode.value field.2) Marks.Canonical) :
    Recovers k (markField g) (Writer.text field.1 ++ Encode.value field.2)
      fun read => Utf8.encode field.1 = some read.1 ∧ read.2.Canonical := by
  have hname : Recovers k (Reader.lenbytes "an object field name") (Writer.text field.1)
      fun raw => Utf8.encode field.1 = some raw := by
    intro b hb _
    obtain ⟨raw, henc, hraw⟩ := Writer.text_eq_ok.mp hb
    exact ⟨raw, Reader.lenbytes_inverts _ raw b hraw, henc⟩
  exact hname.bind fun raw hraw => h.map _ fun m hm => ⟨hraw, hm⟩

theorem objectMarks_canonical {names : List Str} {fields : List (Bytes × Marks)}
    (hnames : names.Pairwise (· < ·))
    (h : List.Forall₂ (fun name (field : Bytes × Marks) =>
      Utf8.encode name = some field.1 ∧ field.2.Canonical) names fields) :
    (objectMarks fields).Canonical := by
  have hinner : (Marks.join (fields.map Prod.snd)).Canonical := by
    rw [Marks.canonical_join, List.forall_mem_map]
    intro field hf
    obtain ⟨_, _, -, hc⟩ := exists_of_mem_forall₂ h hf
    exact hc
  have hraws : (fields.map Prod.fst).Pairwise (· < ·) :=
    (names_lt_iff (List.forall₂_map_right_iff.mpr (h.imp fun _ _ hf => hf.1))).mpr hnames
  exact ⟨hinner.1, List.forall_mem_cons.mpr ⟨hraws, hinner.2⟩⟩

theorem bound_recovers {k : ℕ} {g : Reader Marks} {b : Bound Value}
    (h : ∀ v ∈ b.values, Recovers k g (Encode.value v) Marks.Canonical) :
    Recovers k (markBound g) (Encode.bound b) Marks.Canonical := by
  have hkind : ∀ kind : ℕ, Recovers k (Reader.u8 "a range bound") (Writer.u8 kind)
      (· = kind) :=
    fun kind => (Reader.u8_inverts _ kind).below.recovers rfl
  cases b with
  | unbounded =>
      rw [Encode.bound, ← Put.append_ok_nil (Writer.u8 _)]
      refine (hkind BOUND_UNBOUNDED).bind ?_
      rintro kind rfl
      exact (inverts_nil _).below.recovers Marks.canonical_none
  | included v =>
      refine (hkind BOUND_INCLUDED).bind ?_
      rintro kind rfl
      exact h v List.mem_cons_self
  | excluded v =>
      refine (hkind BOUND_EXCLUDED).bind ?_
      rintro kind rfl
      exact h v List.mem_cons_self

/-- **The writer writes canonically.** -/
theorem marks_of_encode {v : Value} (hv : v.Keyed) (n : ℕ) :
    Recovers n (marks n) (Encode.value v) Marks.Canonical := by
  induction v using Value.induction generalizing n with
  | step v ih =>
      rcases n with - | n
      · exact fun b _ hlen => absurd hlen (Nat.not_lt_zero _)
      cases v with
      | bool flag =>
          have hbyte := (Reader.u8_inverts "a bool" (if flag then 1 else 0)).below (k := n)
            |>.recovers (P := fun byte => byte = 0 ∨ byte = 1) (by cases flag <;> decide)
          exact marks_below (hbyte.map _ fun byte hb => by simpa [Marks.Canonical] using hb)
      | array items | set items =>
          rw [Value.Keyed, keyedItems_iff] at hv
          rw [Encode.value, Encode.items_eq]
          exact marks_below ((counted_marks_recovers _ fun w hw => ih w hw (hv w hw) n).map _
            fun _ hms => hms)
      | object fields =>
          rw [Value.Keyed, keyedFields_iff] at hv
          have hfields := counted_recovers (k := n) "an object's field count"
            (g := markField (marks n)) (l := Dict.sorted fields)
            (p := fun f => Writer.text f.1 ++ Encode.value f.2) fun f hf =>
              field_recovers (ih f.2 (List.mem_map_of_mem (Dict.mem_sorted.mp hf))
                (hv.2 f (Dict.mem_sorted.mp hf)) n)
          rw [Dict.length_sorted] at hfields
          rw [Encode.value, Encode.sorted_fields]
          refine marks_below (hfields.map _ fun read hread => ?_)
          exact objectMarks_canonical (Dict.keys_sorted_lt hv.1)
            (List.forall₂_map_left_iff.mpr hread)
      | range start stop =>
          rw [Value.Keyed, keyedBound_iff, keyedBound_iff] at hv
          refine marks_below ((bound_recovers fun w hw =>
            ih w (List.mem_append_left _ hw) (hv.1 w hw) n).bind fun m hm =>
              (bound_recovers fun w hw =>
                ih w (List.mem_append_right _ hw) (hv.2 w hw) n).map _ fun m' hm' => ?_)
          simpa [Marks.canonical_join] using And.intro hm hm'
      | noneValue => exact leaf_below (by decide) hv (Put.append_ok_nil _).symm
      | nullValue => exact leaf_below (by decide) hv (Put.append_ok_nil _).symm
      | _ => exact leaf_below (by decide) hv rfl

/-! ### What the value reader accepts -/

/-- The reader `h` reads beside a reader of `α` whose writer is `put`: a result can be
written again, `h` reads the same bytes as something that stands in `T` to the result, and
if that is canonical the writer writes those very bytes. -/
structure Tracks {α μ : Type} (h : Reader μ) (put : α → Writer) (T : α → μ → Prop)
    (C : μ → Prop) (b : Bytes) (a : α) : Prop where
  encodes : ∃ c, put a = .ok c
  marked : ∃ m, h.Reads b m ∧ T a m ∧ (C m → put a = .ok b)

/-- What the value reader makes of the bytes `b`. -/
def Spelling (n : ℕ) : Bytes → Value → Prop :=
  Tracks (marks n) Encode.value (fun v _ => v.Keyed) Marks.Canonical

theorem recordId_spells : recordId.Spells Encode.recordId := by
  refine (Reader.u8_spells _).bind fun b tag htag => ?_
  split
  · next h =>
    subst h
    exact (Reader.i64_spells _).map _ fun c v hv =>
      Put.append_eq_ok.mpr ⟨b, c, htag, hv, rfl⟩
  split
  · next h =>
    subst h
    refine (Reader.varbytes_spells _).bind fun c raw hraw => ?_
    refine Consumes.map (R := fun d string => d = [] ∧ Utf8.encode string = some raw)
      (fun s s' string h => ?_) _ ?_
    · obtain ⟨henc, rfl⟩ := Reader.decodeUtf8_eq_ok.mp h
      exact ⟨[], ⟨rfl, henc⟩, rfl⟩
    · rintro d string ⟨rfl, henc⟩
      rw [List.append_nil]
      refine Put.append_eq_ok.mpr ⟨b, c, htag, ?_, rfl⟩
      rw [Writer.encodeUtf8, henc]
      exact hraw
  split
  · next h =>
    subst h
    exact (Reader.fixed_spells _ _ _).map _ fun c v hv =>
      Put.append_eq_ok.mpr ⟨b, c, htag, hv, rfl⟩
  split
  · next h =>
    subst h
    exact (Reader.varbytes_spells _).map _ fun c v hv =>
      Put.append_eq_ok.mpr ⟨b, c, htag, hv, rfl⟩
  · exact consumes_fail _

theorem position_spells : position.Spells Encode.position :=
  (Reader.double_spells _).bind fun b _ hlon => (Reader.double_spells _).map _ fun c _ hlat =>
    Put.append_eq_ok.mpr ⟨b, c, hlon, hlat, rfl⟩

theorem counted_spells {α : Type} (what : String) {g : Reader α} {put : α → Writer}
    (h : g.Spells put) :
    (counted what g).Spells fun xs => Writer.u32 xs.length ++ Put.concat (xs.map put) := by
  refine (Reader.u32_spells what).bind fun b count hcount => (h.repeatN count).mono ?_
  rintro c xs ⟨rfl, bs, hbs, rfl⟩
  refine Put.append_eq_ok.mpr ⟨b, _, hcount, Put.concat_eq_ok.mpr ⟨bs, ?_, rfl⟩, rfl⟩
  exact List.forall₂_map_left_iff.mpr hbs.flip

theorem positions_spells : positions.Spells Encode.positions :=
  counted_spells _ position_spells

theorem polygon_spells : polygon.Spells Encode.polygon :=
  positions_spells.bind fun b _ hext =>
    (counted_spells _ positions_spells).map _ fun c _ hint =>
      Put.append_eq_ok.mpr ⟨b, c, hext, hint, rfl⟩

theorem shape_spells (n : ℕ) : (shape n).Spells Encode.shape := by
  induction n with
  | zero => exact consumes_fail _
  | succ n ih =>
      refine (Reader.u8_spells _).bind fun b kind hkind => ?_
      rw [shapeOf]
      -- Every kind writes its byte and then what the branch has read.
      have hnode : ∀ {α : Type} {g : Reader α} {put : α → Writer} (node : α → Shape),
          g.Spells put → (∀ a, Encode.shape (node a) = Writer.u8 kind ++ put a) →
          (g >>= fun a => (pure (node a) : Reader Shape)).Consumes fun c s =>
            Encode.shape s = .ok (b ++ c) := by
        intro α g put node hg heq
        refine hg.map _ fun c a ha => ?_
        rw [heq]
        exact Put.append_eq_ok.mpr ⟨b, c, hkind, ha, rfl⟩
      repeat' split
      · next h => subst h; exact hnode _ position_spells fun _ => rfl
      · next h => subst h; exact hnode _ positions_spells fun _ => rfl
      · next h => subst h; exact hnode _ polygon_spells fun _ => rfl
      · next h => subst h; exact hnode _ positions_spells fun _ => rfl
      · next h =>
        subst h
        exact hnode _ (counted_spells _ positions_spells) fun _ => rfl
      · next h =>
        subst h
        exact hnode _ (counted_spells _ polygon_spells) fun _ => rfl
      · next h =>
        subst h
        exact hnode _ (counted_spells _ ih) fun _ => by rw [Encode.shape, Encode.shapes_eq]
      · exact consumes_fail _

/-- A whole number of a value that holds no bool and no other value: the reader's branch for
its tag accepts only what the writer writes. -/
def LeafSpells (tag : ℕ) (g : Reader Value) : Prop :=
  g.Consumes fun c v => v.Keyed ∧ Encode.value v = Writer.u8 tag ++ .ok c

theorem leafSpells_pure {tag : ℕ} {v : Value} (hv : v.Keyed)
    (heq : Encode.value v = Writer.u8 tag) : LeafSpells tag (pure v) :=
  consumes_pure ⟨hv, by rw [heq, Put.append_ok_nil]⟩

theorem leafSpells_map {α : Type} {tag : ℕ} {g : Reader α} {put : α → Writer}
    (hg : g.Spells put) {node : α → Value} (hv : ∀ a, (node a).Keyed)
    (heq : ∀ a, Encode.value (node a) = Writer.u8 tag ++ put a) :
    LeafSpells tag (g >>= fun a => pure (node a)) :=
  hg.map _ fun c a ha => ⟨hv a, by rw [heq, ha]⟩

/-- The same for a leaf of two fields. -/
theorem leafSpells_map₂ {α β : Type} {tag : ℕ} {g : Reader α} {h : Reader β}
    {put : α → Writer} {put' : β → Writer} (hg : g.Spells put) (hh : h.Spells put')
    {node : α → β → Value} (hv : ∀ a b, (node a b).Keyed)
    (heq : ∀ a b, Encode.value (node a b) = Writer.u8 tag ++ (put a ++ put' b)) :
    LeafSpells tag (g >>= fun a => h >>= fun b => pure (node a b)) :=
  hg.bind fun c a ha => hh.map _ fun d b hb =>
    ⟨hv a b, by rw [heq, ha, hb]; rfl⟩

theorem number_spells : LeafSpells TAG_NUMBER number := by
  refine (Reader.u8_spells _).bind fun b kind (hkind : Writer.u8 kind = .ok b) => ?_
  split
  · next h =>
    subst h
    refine (Reader.i64_spells _).map _ fun c v hv => ⟨trivial, ?_⟩
    rw [Encode.value, hkind, hv]
    rfl
  split
  · next h =>
    subst h
    refine (Reader.double_spells _).map _ fun c v hv => ⟨trivial, ?_⟩
    rw [Encode.value, hkind, hv]
    rfl
  split
  · next h =>
    subst h
    refine (Reader.i128_spells _).bind fun c mantissa hm =>
      (Reader.u32_spells _).map _ fun d scale (hs : Writer.u32 scale = .ok d) => ⟨trivial, ?_⟩
    rw [Encode.value, hkind, hm, hs]
    rfl
  · exact consumes_fail _

/-- An accepted leaf is spelled as the writer spells it, and has no marks. -/
theorem leaf_spelling {n tag : ℕ} {b : Bytes} (htag : Writer.u8 tag = .ok b)
    (hmarked : ¬ Marked tag)
    (h : LeafSpells tag (valueOf (value n) (shape n) tag)) :
    (valueOf (value n) (shape n) tag).Consumes fun c v => Spelling (n + 1) (b ++ c) v := by
  refine (Consumes.reads h).mono ?_
  rintro c v ⟨hreads, hv, heq⟩
  rw [htag] at heq
  refine ⟨⟨_, heq⟩, Marks.none, (Reader.u8_inverts _ tag b htag).bind ?_, hv, fun _ => heq⟩
  rw [Int.toNat_natCast, marksOf_leaf hmarked]
  exact hreads.map _

/-- An accepted node with values inside, given what was made of the bytes after its tag. -/
theorem node_spelling {n tag : ℕ} {b c : Bytes} {v : Value} {p : Writer} {m : Marks}
    (htag : Writer.u8 tag = .ok b) (hv : v.Keyed)
    (heq : Encode.value v = Writer.u8 tag ++ p) (hrest : ∃ r, p = .ok r)
    (hm : (marksOf (marks n) (valueOf (value n) (shape n) tag) tag).Reads c m)
    (hc : m.Canonical → p = .ok c) : Spelling (n + 1) (b ++ c) v := by
  obtain ⟨r, hr⟩ := hrest
  refine ⟨⟨b ++ r, ?_⟩, m, (Reader.u8_inverts _ tag b htag).bind hm, hv, fun hcanon => ?_⟩
  · rw [heq, htag, hr]
    rfl
  · rw [heq, htag, hc hcanon]
    rfl

theorem tracks_list {α μ : Type} {h : Reader μ} {put : α → Writer} {T : α → μ → Prop}
    {C : μ → Prop} {bs : List Bytes} {as : List α}
    (hall : List.Forall₂ (Tracks h put T C) bs as) :
    (∃ c, Put.concat (as.map put) = .ok c) ∧
      ∃ ms, List.Forall₂ h.Reads bs ms ∧ List.Forall₂ T as ms ∧
        ((∀ m ∈ ms, C m) → Put.concat (as.map put) = .ok bs.flatten) := by
  induction hall with
  | nil => exact ⟨⟨[], rfl⟩, [], .nil, .nil, fun _ => rfl⟩
  | cons hba _ ih =>
      obtain ⟨⟨c, hc⟩, m, hm, hT, hcanon⟩ := hba
      obtain ⟨⟨d, hd⟩, ms, hms, hTs, hcanons⟩ := ih
      refine ⟨⟨c ++ d, Put.append_eq_ok.mpr ⟨c, d, hc, hd, rfl⟩⟩, m :: ms, .cons hm hms,
        .cons hT hTs, fun hall => ?_⟩
      obtain ⟨h₁, h₂⟩ := List.forall_mem_cons.mp hall
      exact Put.append_eq_ok.mpr ⟨_, _, hcanon h₁, hcanons h₂, rfl⟩

/-- Counted items keep track item by item. -/
theorem counted_tracks {α μ : Type} (what : String) {g : Reader α} {h : Reader μ}
    {put : α → Writer} {T : α → μ → Prop} {C : μ → Prop}
    (hg : g.Consumes (Tracks h put T C)) :
    (counted what g).Consumes (Tracks (counted what h)
      (fun as => Writer.u32 as.length ++ Put.concat (as.map put)) (List.Forall₂ T)
      fun ms => ∀ m ∈ ms, C m) := by
  refine (Reader.u32_spells what).bind fun b count hcount => (hg.repeatN count).mono ?_
  rintro c as ⟨rfl, bs, hbs, rfl⟩
  obtain ⟨⟨d, hd⟩, ms, hms, hT, hcanon⟩ := tracks_list hbs
  refine ⟨⟨b ++ d, Put.append_eq_ok.mpr ⟨b, d, hcount, hd, rfl⟩⟩, ms,
    (Reader.u32_inverts what _ b hcount).bind ?_, hT, fun hall =>
      Put.append_eq_ok.mpr ⟨b, _, hcount, hcanon hall, rfl⟩⟩
  have hlen : as.length = ms.length := hT.length_eq
  rw [Int.toNat_natCast, hlen]
  exact Reads.repeatN hms

theorem field_tracks {n : ℕ} (h : (value n).Consumes (Spelling n)) :
    (field (value n)).Consumes (Tracks (markField (marks n))
      (fun f => Writer.text f.1 ++ Encode.value f.2)
      (fun f read => f.2.Keyed ∧ Utf8.encode f.1 = some read.1)
      fun read => read.2.Canonical) := by
  refine (Reader.text_spells _).bind fun b name hname => h.map _ ?_
  rintro c v ⟨⟨d, hd⟩, m, hm, hv, hcanon⟩
  obtain ⟨raw, henc, hraw⟩ := Writer.text_eq_ok.mp hname
  refine ⟨⟨b ++ d, Put.append_eq_ok.mpr ⟨b, d, hname, hd, rfl⟩⟩, (raw, m),
    (Reader.lenbytes_inverts _ raw b hraw).bind (hm.map _), ⟨hv, henc⟩, fun hc =>
      Put.append_eq_ok.mpr ⟨b, c, hname, hcanon hc, rfl⟩⟩

theorem bound_tracks {n : ℕ} (h : (value n).Consumes (Spelling n)) :
    (bound (value n)).Consumes
      (Tracks (markBound (marks n)) Encode.bound (fun b _ => KeyedBound b)
        Marks.Canonical) := by
  refine (Reader.u8_spells _).bind fun b kind hkind => ?_
  have hread := Reader.u8_inverts "a range bound" kind b hkind
  split
  · next hk =>
    subst hk
    refine consumes_pure ⟨⟨b, hkind⟩, Marks.none, hread.bind (reads_pure _), trivial, ?_⟩
    rw [List.append_nil]
    exact fun _ => hkind
  split
  · next hk =>
    subst hk
    refine h.map _ ?_
    rintro c v ⟨⟨d, hd⟩, m, hm, hv, hcanon⟩
    exact ⟨⟨b ++ d, Put.append_eq_ok.mpr ⟨b, d, hkind, hd, rfl⟩⟩, m, hread.bind hm, hv,
      fun hc => Put.append_eq_ok.mpr ⟨b, c, hkind, hcanon hc, rfl⟩⟩
  split
  · next hk =>
    subst hk
    refine h.map _ ?_
    rintro c v ⟨⟨d, hd⟩, m, hm, hv, hcanon⟩
    exact ⟨⟨b ++ d, Put.append_eq_ok.mpr ⟨b, d, hkind, hd, rfl⟩⟩, m, hread.bind hm, hv,
      fun hc => Put.append_eq_ok.mpr ⟨b, c, hkind, hcanon hc, rfl⟩⟩
  · exact consumes_fail _

/-- The tag of whatever the value reader accepts is one of the seventeen. -/
theorem known_tag {nested : Reader Value} {shape : Reader Shape} {tag : ℕ} {s s' : Bytes}
    {v : Value} (h : valueOf nested shape tag s = .ok (v, s')) :
    tag = TAG_NONE ∨ tag = TAG_NULL ∨ tag = TAG_BOOL ∨ tag = TAG_NUMBER ∨ tag = TAG_STRING ∨
      tag = TAG_BYTES ∨ tag = TAG_DURATION ∨ tag = TAG_DATETIME ∨ tag = TAG_UUID ∨
      tag = TAG_TABLE ∨ tag = TAG_RECORD ∨ tag = TAG_ARRAY ∨ tag = TAG_SET ∨
      tag = TAG_OBJECT ∨ tag = TAG_RANGE ∨ tag = TAG_GEOMETRY ∨ tag = TAG_REGEX := by
  by_contra hnot
  simp only [not_or] at hnot
  simp only [valueOf, hnot, if_false, fail_apply, reduceCtorEq] at h

theorem object_spelling {n : ℕ} {b : Bytes} (htag : Writer.u8 TAG_OBJECT = .ok b)
    (ih : (value n).Consumes (Spelling n)) :
    (valueOf (value n) (shape n) TAG_OBJECT).Consumes fun c v => Spelling (n + 1) (b ++ c) v := by
  refine (counted_tracks _ (field_tracks ih)).map _ ?_
  rintro c pairs ⟨⟨d, hd⟩, reads, hreads, hT, hcanon⟩
  have hvalues : ∀ item ∈ pairs, item.2.Keyed := by
    intro item hitem
    obtain ⟨_, -, hk, -⟩ := exists_of_mem_forall₂ hT.flip hitem
    exact hk
  have hfields : ∀ item ∈ Dict.ofPairs pairs, item ∈ pairs :=
    fun item h => Dict.mem_of_mem_ofPairs h
  have hrest : ∃ r, Writer.u32 (Dict.ofPairs pairs).length ++
      Put.concat ((Dict.sorted (Dict.ofPairs pairs)).map
        fun f => Writer.text f.1 ++ Encode.value f.2) = .ok r := by
    obtain ⟨d₁, d₂, hcount, hitems, rfl⟩ := Put.append_eq_ok.mp hd
    obtain ⟨⟨-, hmax⟩, -⟩ := Writer.u32_eq_ok.mp hcount
    have hle := Dict.length_ofPairs_le pairs
    obtain ⟨bs, hbs, -⟩ := Put.concat_eq_ok.mp hitems
    obtain ⟨r₂, hr₂⟩ := Put.exists_concat_eq_ok
      (l := (Dict.sorted (Dict.ofPairs pairs)).map
        fun f => Writer.text f.1 ++ Encode.value f.2) (by
        rw [List.forall_mem_map]
        intro f hf
        have hmem := hfields f (Dict.mem_sorted.mp hf)
        obtain ⟨x, -, hx⟩ := exists_of_mem_forall₂ hbs.flip (List.mem_map_of_mem hmem)
        exact ⟨x, hx⟩)
    exact ⟨_, Put.append_eq_ok.mpr
      ⟨_, r₂, Writer.u32_eq_ok.mpr ⟨⟨by omega, by omega⟩, rfl⟩, hr₂, rfl⟩⟩
  refine node_spelling htag ?_ ?_ hrest (m := objectMarks reads) (hreads.map _) ?_
  · rw [Value.Keyed, keyedFields_iff]
    exact ⟨Dict.keyed_ofPairs pairs, fun item hitem => hvalues item (hfields item hitem)⟩
  · rw [Encode.value, Encode.sorted_fields]
  · -- Strictly ascending names are distinct and in order, so nothing was normalised.
    rintro ⟨hbools, hobjects⟩
    obtain ⟨hnames, hinner⟩ := List.forall_mem_cons.mp hobjects
    have hlt : (Dict.keys pairs).Pairwise (· < ·) :=
      (names_lt_iff (List.forall₂_map_left_iff.mpr
        (List.forall₂_map_right_iff.mpr (hT.imp fun _ _ hf => hf.2)))).mp hnames
    rw [Dict.ofPairs_of_keyed (Dict.keyed_of_lt hlt), Dict.sorted_of_lt hlt]
    have hall := Marks.canonical_join.mp (⟨hbools, hinner⟩ :
      (Marks.join (reads.map Prod.snd)).Canonical)
    exact hcanon (List.forall_mem_map.mp hall)

theorem items_spelling {n tag : ℕ} {b : Bytes} (what : String) {f : List Value → Value}
    (htag : Writer.u8 tag = .ok b) (ih : (value n).Consumes (Spelling n))
    (hkeyed : ∀ vs, (∀ v ∈ vs, v.Keyed) → (f vs).Keyed)
    (heq : ∀ vs, Encode.value (f vs) =
      Writer.u8 tag ++ (Writer.u32 vs.length ++ Put.concat (vs.map Encode.value)))
    (hmarks : marksOf (marks n) (valueOf (value n) (shape n) tag) tag =
      counted what (marks n) >>= fun ms => pure (Marks.join ms)) :
    (counted what (value n) >>= fun vs => (pure (f vs) : Reader Value)).Consumes
      fun c v => Spelling (n + 1) (b ++ c) v := by
  refine (counted_tracks what ih).map _ ?_
  rintro c vs ⟨hrest, ms, hms, hT, hcanon⟩
  refine node_spelling htag (hkeyed vs fun v hv => ?_) (heq vs) hrest (m := Marks.join ms)
    (by rw [hmarks]; exact hms.map _) fun hc => hcanon (Marks.canonical_join.mp hc)
  obtain ⟨_, -, hk⟩ := exists_of_mem_forall₂ hT.flip hv
  exact hk

theorem bool_spelling {n : ℕ} {b : Bytes} (htag : Writer.u8 TAG_BOOL = .ok b) :
    (valueOf (value n) (shape n) TAG_BOOL).Consumes fun c v => Spelling (n + 1) (b ++ c) v := by
  refine (Reader.u8_spells _).map _ fun c byte hbyte => ?_
  refine node_spelling (p := Writer.u8 (if decide (byte ≠ 0) then 1 else 0)) htag trivial rfl
    ?_ (m := ⟨[byte], []⟩) (((Reader.u8_inverts _ byte c hbyte).map _)) ?_
  · by_cases h : byte = 0
    · exact ⟨_, by rw [h]; rfl⟩
    · exact ⟨[1], by simp [h]; rfl⟩
  · rintro ⟨hcanon, -⟩
    rcases hcanon byte List.mem_cons_self with rfl | rfl
    · exact hbyte
    · exact hbyte

theorem range_spelling {n : ℕ} {b : Bytes} (htag : Writer.u8 TAG_RANGE = .ok b)
    (ih : (value n).Consumes (Spelling n)) :
    (valueOf (value n) (shape n) TAG_RANGE).Consumes fun c v => Spelling (n + 1) (b ++ c) v := by
  refine (bound_tracks ih).bind fun c start hstart => (bound_tracks ih).map _ fun d stop hstop => ?_
  obtain ⟨⟨x, hx⟩, m, hm, hkeyed, hcanon⟩ := hstart
  obtain ⟨⟨y, hy⟩, m', hm', hkeyed', hcanon'⟩ := hstop
  refine node_spelling htag (v := .range start stop) ⟨hkeyed, hkeyed'⟩ rfl
    ⟨x ++ y, Put.append_eq_ok.mpr ⟨x, y, hx, hy, rfl⟩⟩ (m := Marks.join [m, m'])
    (hm.bind (hm'.map _)) fun hc => ?_
  have hall := Marks.canonical_join.mp hc
  exact Put.append_eq_ok.mpr ⟨c, d, hcanon (hall m (by simp)), hcanon' (hall m' (by simp)), rfl⟩

/-- **What the value reader accepts.** Every result of the value reader is a value that
encodes again, and what it consumed is that encoding if it is canonical. -/
theorem value_spelling (n : ℕ) : (value n).Consumes (Spelling n) := by
  induction n with
  | zero => exact consumes_fail _
  | succ n ih =>
      refine (Reader.u8_spells _).bind fun b tag htag => consumes_of_ok fun s s' v hrun => ?_
      rcases known_tag hrun with rfl | rfl | rfl | rfl | rfl | rfl | rfl | rfl | rfl | rfl |
        rfl | rfl | rfl | rfl | rfl | rfl | rfl
      · exact leaf_spelling htag (by decide) (leafSpells_pure trivial rfl)
      · exact leaf_spelling htag (by decide) (leafSpells_pure trivial rfl)
      · exact bool_spelling htag
      · exact leaf_spelling htag (by decide) number_spells
      · exact leaf_spelling htag (by decide)
          (leafSpells_map (Reader.text_spells _) (fun _ => trivial) fun _ => rfl)
      · exact leaf_spelling htag (by decide)
          (leafSpells_map (Reader.lenbytes_spells _) (fun _ => trivial) fun _ => rfl)
      · exact leaf_spelling htag (by decide)
          (leafSpells_map₂ (Reader.i64_spells _) (Reader.nanos_spells _)
            (fun _ _ => trivial) fun _ _ => rfl)
      · exact leaf_spelling htag (by decide)
          (leafSpells_map₂ (Reader.i64_spells _) (Reader.nanos_spells _)
            (fun _ _ => trivial) fun _ _ => rfl)
      · exact leaf_spelling htag (by decide)
          (leafSpells_map (Reader.fixed_spells _ _ _) (fun _ => trivial) fun _ => rfl)
      · exact leaf_spelling htag (by decide)
          (leafSpells_map (Reader.u32_spells _) (fun _ => trivial) fun _ => rfl)
      · exact leaf_spelling htag (by decide)
          (leafSpells_map₂ (Reader.u32_spells _) recordId_spells
            (fun _ _ => trivial) fun _ _ => rfl)
      · exact items_spelling _ (f := Value.array) htag ih
          (fun _ h => keyedItems_iff.mpr h) (fun _ => by rw [Encode.value, Encode.items_eq]) rfl
      · exact items_spelling _ (f := Value.set) htag ih
          (fun _ h => keyedItems_iff.mpr h) (fun _ => by rw [Encode.value, Encode.items_eq]) rfl
      · exact object_spelling htag ih
      · exact range_spelling htag ih
      · exact leaf_spelling htag (by decide)
          (leafSpells_map (shape_spells n) (fun _ => trivial) fun _ => rfl)
      · exact leaf_spelling htag (by decide)
          (leafSpells_map (Reader.text_spells _) (fun _ => trivial) fun _ => rfl)

end Decode

/-- The bool bytes and the field names of a payload, as they were written. -/
def marks (raw : Bytes) : Except ProtocolError Marks :=
  (Decode.marks (raw.length + 1) raw).map Prod.fst

/-! ### The encoding decides sameness -/

theorem same_of_encode {v w : Value} (hv : v.Keyed) (hw : w.Keyed) {raw : Bytes}
    (hev : encode v = .ok raw) (hew : encode w = .ok raw) : v.Same w := by
  have hrun := (readValue_reads hv hev).eq_ok
  rw [(readValue_reads hw hew).eq_ok] at hrun
  exact (Prod.mk.inj (Except.ok.inj hrun)).1.symm

theorem encode_eq_encode_iff {v w : Value} (hv : v.Keyed) (hw : w.Keyed) {x y : Bytes}
    (hx : encode v = .ok x) (hy : encode w = .ok y) : x = y ↔ v.Same w := by
  constructor
  · rintro rfl
    exact same_of_encode hv hw hx hy
  · intro hsame
    have heq : encode v = encode w := by
      rw [← encode_canon hv, ← encode_canon hw, hsame]
    exact Except.ok.inj (hx.symm.trans (heq.trans hy))

/-- An accepted payload decodes to a value that encodes again, to the same bytes exactly when
the payload was written canonically. -/
theorem encode_decode {raw : Bytes} {v : Value} (h : decode raw = .ok v) :
    v.Keyed ∧ ∃ raw' m, encode v = .ok raw' ∧ marks raw = .ok m ∧ (raw' = raw ↔ m.Canonical) := by
  obtain ⟨b, ⟨⟨raw', henc⟩, m, hm, hv, hcanon⟩, hb⟩ :=
    Decode.value_spelling _ _ _ _ (decode_eq_ok.mp h)
  rw [List.append_nil] at hb
  subst hb
  have hmarks : marks raw = .ok m := by
    rw [marks, hm.eq_ok]
    rfl
  refine ⟨hv, raw', m, henc, hmarks, ?_, fun hc => ?_⟩
  · rintro rfl
    obtain ⟨m', hm', hc'⟩ := Decode.marks_of_encode hv _ raw' henc (Nat.lt_succ_self _)
    have hrun := hm'.eq_ok.symm.trans hm.eq_ok
    obtain rfl := (Prod.mk.inj (Except.ok.inj hrun)).1
    exact hc'
  · exact Except.ok.inj (henc.symm.trans (hcanon hc))

/-- **The encoding is canonical.** Values that encode have the same encoding exactly when they
are the same value. Every payload that is accepted decodes to a value that encodes again, is
accepted again as that value, and comes out as it went in exactly when its bool bytes are 0 or
1 and the field names of each of its objects strictly ascend as UTF-8. -/
theorem encoding_is_canonical :
    (∀ v w : Value, v.Keyed → w.Keyed → ∀ x y, encode v = .ok x → encode w = .ok y →
      (x = y ↔ v.Same w)) ∧
    ∀ raw v, decode raw = .ok v →
      ∃ raw' w m, encode v = .ok raw' ∧ decode raw' = .ok w ∧ w.Same v ∧
        marks raw = .ok m ∧
        (raw' = raw ↔ (∀ byte ∈ m.bools, byte = 0 ∨ byte = 1) ∧
          ∀ names ∈ m.objects, names.Pairwise (· < ·)) := by
  refine ⟨fun v w hv hw x y hx hy => encode_eq_encode_iff hv hw hx hy, fun raw v h => ?_⟩
  obtain ⟨hv, raw', m, henc, hm, hcanon⟩ := encode_decode h
  exact ⟨raw', v.canon, m, henc, decode_eq_ok.mpr (readValue_reads hv henc).eq_ok,
    Value.canon_same hv, hm, hcanon⟩

set_option maxRecDepth 4000 in
/-- A payload with two fields out of order and a bool byte of 2, which the decoder accepts
and the encoder would not write. -/
theorem encoding_is_canonical_normalises :
    ∃ raw', encode (.object [(ofString "b", .bool true), (ofString "a", .nullValue)]) =
        .ok raw' ∧
      raw' ≠ [0x0D, 0, 0, 0, 2, 0, 0, 0, 1, 0x62, 0x03, 0x02, 0, 0, 0, 1, 0x61, 0x02] := by
  obtain ⟨raw', w, m, henc, -, -, hm, hiff⟩ := encoding_is_canonical.2
    [0x0D, 0, 0, 0, 2, 0, 0, 0, 1, 0x62, 0x03, 0x02, 0, 0, 0, 1, 0x61, 0x02]
    (.object [(ofString "b", .bool true), (ofString "a", .nullValue)]) rfl
  refine ⟨raw', henc, fun heq => ?_⟩
  obtain rfl := Except.ok.inj
    (hm.symm.trans (rfl : _ = Except.ok (⟨[2], [[[0x62], [0x61]]]⟩ : Marks)))
  exact absurd ((hiff.mp heq).1 2 List.mem_cons_self) (by decide)

end TessariDB
