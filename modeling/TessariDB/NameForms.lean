import Mathlib.Computability.Language
import TessariDB.Follow
import TessariDB.Handles
import TessariDB.Http
import TessariDB.JsonRestored

/-!
# The Forms of Names

Six places check a name, in three ways: a loop over its characters, patterns, and a test that takes
the underscores away and asks whether what is left is alphanumeric. The first two take the same
names. The third says that it takes one letter, digit or underscore after another, and it does, if
one is no underscore: of a name of underscores only nothing is left, and nothing is not alphanumeric.

## Main results

* `passes_iff`: the loop, and what the rest of the model takes for it.
* `alphanumeric_iff`: the test on the letters and digits that are left, whichever characters past
  ASCII are alphanumeric.
* `names_are_routed_iff`: which names the routes take.
* `underscore_is_not_routed`: one that they do not.
-/

namespace TessariDB

namespace NameForms

open Computability Utf8 Text

/-! ### The forms -/

/-- One character of a class. -/
def oneOf (P : CodePoint → Prop) : Language CodePoint := {s | ∃ c, P c ∧ s = [c]}

/-- `[A-Za-z_][A-Za-z0-9_]*` -/
def nameForm : Language CodePoint := oneOf IsLetter * (oneOf IsWord)∗

/-- `[A-Za-z0-9_]+` -/
def segmentForm : Language CodePoint := oneOf IsWord * (oneOf IsWord)∗

theorem mem_oneOf_mul {P : CodePoint → Prop} {l : Language CodePoint} {s : Str} :
    s ∈ oneOf P * l ↔ ∃ c t, s = c :: t ∧ P c ∧ t ∈ l := by
  rw [Language.mem_mul]
  constructor
  · rintro ⟨_, ⟨c, hc, rfl⟩, t, ht, rfl⟩
    exact ⟨c, t, rfl, hc, ht⟩
  · rintro ⟨c, t, rfl, hc, ht⟩
    exact ⟨[c], ⟨c, hc, rfl⟩, t, ht, rfl⟩

theorem flatten_singletons (s : Str) : (s.map fun c => [c]).flatten = s := by
  rw [← List.flatMap_def, List.flatMap_singleton']

theorem mem_kstar_oneOf {P : CodePoint → Prop} {s : Str} : s ∈ (oneOf P)∗ ↔ ∀ c ∈ s, P c := by
  rw [Language.mem_kstar]
  constructor
  · rintro ⟨parts, rfl, hparts⟩ c hc
    obtain ⟨part, hpart, hc⟩ := List.mem_flatten.mp hc
    obtain ⟨d, hd, rfl⟩ := hparts part hpart
    rwa [List.mem_singleton.mp hc]
  · intro h
    refine ⟨s.map fun c => [c], (flatten_singletons s).symm, fun part hpart => ?_⟩
    obtain ⟨c, hc, rfl⟩ := List.mem_map.mp hpart
    exact ⟨c, h c hc, rfl⟩

theorem mem_nameForm {s : Str} : s ∈ nameForm ↔ IsName s := by
  rw [nameForm, mem_oneOf_mul]
  cases s with
  | nil => simp [IsName]
  | cons c t => simp [mem_kstar_oneOf, IsName]

theorem mem_segmentForm {s : Str} : s ∈ segmentForm ↔ s ≠ [] ∧ ∀ c ∈ s, IsWord c := by
  rw [segmentForm, mem_oneOf_mul]
  cases s with
  | nil => simp
  | cons c t => simp [mem_kstar_oneOf]

/-- A name is a segment. -/
theorem segmentForm_of_nameForm {s : Str} (h : s ∈ nameForm) : s ∈ segmentForm := by
  obtain ⟨c, t, rfl, hc, ht⟩ := mem_oneOf_mul.mp h
  exact mem_oneOf_mul.mpr ⟨c, t, rfl, .inl hc, ht⟩

/-! ### The loop -/

/-- The loop of `check_name`, from the character at `at_`. -/
def passesFrom : ℕ → Str → Bool
  | _, [] => true
  | at_, c :: rest =>
      if IsLetter c then passesFrom (at_ + 1) rest
      else if 0 < at_ ∧ IsDigit c then passesFrom (at_ + 1) rest
      else false

/-- `check_name` returns. -/
def passes (name : Str) : Bool := if name = [] then false else passesFrom 0 name

/-- Behind the first character a digit passes too. -/
theorem passesFrom_succ {at_ : ℕ} {s : Str} :
    passesFrom (at_ + 1) s = true ↔ ∀ c ∈ s, IsWord c := by
  induction s generalizing at_ with
  | nil => simp [passesFrom]
  | cons c rest ih =>
      rw [passesFrom, List.forall_mem_cons, IsWord]
      by_cases hletter : IsLetter c
      · simp [hletter, ih]
      · by_cases hdigit : IsDigit c <;> simp [hletter, hdigit, ih]

theorem passes_iff (name : Str) : passes name = true ↔ IsName name := by
  cases name with
  | nil => simp [passes, IsName]
  | cons c rest =>
      rw [passes, if_neg (List.cons_ne_nil c rest), passesFrom, IsName]
      by_cases hletter : IsLetter c <;> simp [hletter, passesFrom_succ]

/-! ### The patterns -/

theorem matchesName_iff (name : Str) : MatchesName name ↔ IsName name := by
  refine ⟨isName_of_matches, fun h => ?_⟩
  cases name with
  | nil => exact h
  | cons c rest =>
      exact ⟨h.1, List.dropWhile_eq_nil_iff.mpr fun d hd => decide_eq_true (h.2 d hd)⟩

theorem plain_iff (name : Str) : Follow.plain name = true ↔ IsName name := by
  cases name with
  | nil => simp [Follow.plain, IsName]
  | cons c rest =>
      simp only [Follow.plain, IsName, Bool.and_eq_true, List.all_eq_true, Bool.or_eq_true,
        decide_eq_true_eq, beq_iff_eq]
      refine and_congr ?_ (forall₂_congr fun d _ => ?_)
      · rw [IsLetter]
        omega
      · rw [IsWord, IsLetter, IsDigit]
        omega

/-! ### The routes -/

variable (isalnum : CodePoint → Bool)

/-- `segment.replace("_", "").isalnum() and segment.isascii()` -/
def alphanumeric (segment : Str) : Bool :=
  let left := segment.filter fun c => c ≠ codePoint 0x5F
  (left ≠ [] && left.all isalnum) && segment.all fun c => c.val < 0x80

/-- The test leaves the model's segments, whichever characters past ASCII are alphanumeric. -/
theorem alphanumeric_iff
    (hisalnum : ∀ c : CodePoint, c.val < 0x80 →
      (isalnum c = true ↔ IsWord c ∧ c ≠ codePoint 0x5F)) (segment : Str) :
    alphanumeric isalnum segment = true ↔ Http.IsSegment segment := by
  simp only [alphanumeric, Http.IsSegment, Bool.and_eq_true, List.all_eq_true, decide_eq_true_eq,
    List.mem_filter]
  constructor
  · rintro ⟨⟨hne, hall⟩, hascii⟩
    refine ⟨hne, fun c hc => ?_⟩
    by_cases hunderscore : c = codePoint 0x5F
    · rw [hunderscore]
      decide
    · exact ((hisalnum c (hascii c hc)).mp (hall c ⟨hc, hunderscore⟩)).1
  · rintro ⟨hne, hwords⟩
    have hascii : ∀ c ∈ segment, c.val < 0x80 := fun c hc => by
      have hword := hwords c hc
      rw [IsWord, IsLetter, IsDigit] at hword
      omega
    exact ⟨⟨hne, fun c hc => (hisalnum c (hascii c hc.1)).mpr ⟨hwords c hc.1, hc.2⟩⟩, hascii⟩

/-- What the routes take: a segment that is not made of underscores only. -/
theorem isSegment_iff (segment : Str) :
    Http.IsSegment segment ↔ segment ∈ segmentForm ∧ ∃ c ∈ segment, c ≠ codePoint 0x5F := by
  rw [mem_segmentForm, Http.IsSegment, ne_eq, List.filter_eq_nil_iff]
  constructor
  · rintro ⟨hleft, hwords⟩
    obtain ⟨c, hc, hne⟩ : ∃ c ∈ segment, c ≠ codePoint 0x5F := by
      simpa using hleft
    exact ⟨⟨List.ne_nil_of_mem hc, hwords⟩, c, hc, hne⟩
  · rintro ⟨⟨-, hwords⟩, c, hc, hne⟩
    exact ⟨fun hall => hall c hc (decide_eq_true hne), hwords⟩

variable (python : Interpreter) (namespace_ database name : Str)

/-- Three names make a path when each of them passes. -/
theorem namedPath_ok_iff (root : String) :
    (∃ path, Http.namedPath python root namespace_ database name = .ok path) ↔
      ∀ segment ∈ [namespace_, database, name], Http.IsSegment segment := by
  rw [Http.namedPath]
  split
  · next segment hfind =>
    refine iff_of_false (by simp) fun hall => ?_
    have hnot : ¬ Http.IsSegment segment := by simpa using List.find?_some hfind
    exact hnot (hall segment (List.mem_of_find?_eq_some hfind))
  · next hfind =>
    refine iff_of_true ⟨_, rfl⟩ fun segment hsegment => ?_
    simpa using List.find?_eq_none.mp hfind segment hsegment

/-- Some name is of the form of a segment, as all are, and made of underscores only. -/
def Underscored (names : List Str) : Prop :=
  (∀ s ∈ names, s ∈ segmentForm) ∧ ∃ s ∈ names, ∀ c ∈ s, c = codePoint 0x5F

/-- What the three names are taken for is the same everywhere. -/
structure SameEverywhere : Prop where
  checked : ∀ s ∈ [namespace_, database, name], ∀ what,
    (∃ checked, checkName what s = .ok checked) ↔ s ∈ nameForm
  looped : ∀ s ∈ [namespace_, database, name], passes s = true ↔ s ∈ nameForm
  pattern : ∀ s ∈ [namespace_, database, name], ∀ what,
    (∃ checked, patternName what s = .ok checked) ↔ s ∈ nameForm
  followed : ∀ s ∈ [namespace_, database, name], Follow.plain s = true ↔ s ∈ nameForm
  bucket : (∃ path, Http.bucketPath python namespace_ database name = .ok path) ↔
    ∀ s ∈ [namespace_, database, name], s ∈ segmentForm
  series : (∃ path, Http.seriesPath python namespace_ database name = .ok path) ↔
    ∀ s ∈ [namespace_, database, name], s ∈ segmentForm
  routed : (∀ s ∈ [namespace_, database, name], ∃ checked, checkName "a name" s = .ok checked) →
    (∃ path, Http.bucketPath python namespace_ database name = .ok path) ∧
      ∃ path, Http.seriesPath python namespace_ database name = .ok path

theorem patternName_ok_iff {what : String} {s : Str} :
    (∃ checked, patternName what s = .ok checked) ↔ MatchesName s := by
  by_cases h : MatchesName s <;> simp [patternName, h]

/-- The routes take names of the form of segments, unless one is made of underscores only. -/
theorem namedPath_forms (h : ¬ Underscored [namespace_, database, name]) (root : String) :
    (∃ path, Http.namedPath python root namespace_ database name = .ok path) ↔
      ∀ s ∈ [namespace_, database, name], s ∈ segmentForm := by
  rw [namedPath_ok_iff]
  constructor
  · exact fun hall s hs => ((isSegment_iff s).mp (hall s hs)).1
  · intro hall s hs
    refine (isSegment_iff s).mpr ⟨hall s hs, ?_⟩
    by_contra hnone
    push Not at hnone
    exact h ⟨hall, s, hs, hnone⟩

/-- **Which names the routes take.** Everything agrees about three names exactly unless all are of
the form of a segment and one is made of underscores only. -/
theorem names_are_routed_iff :
    SameEverywhere python namespace_ database name ↔
      ¬ Underscored [namespace_, database, name] := by
  constructor
  · rintro h ⟨hforms, s, hs, hunderscores⟩
    have hsegment := (namedPath_ok_iff python namespace_ database name "/files").mp
      (h.bucket.mpr hforms) s hs
    obtain ⟨-, c, hc, hne⟩ := (isSegment_iff s).mp hsegment
    exact hne (hunderscores c hc)
  · intro h
    have hbucket := namedPath_forms python namespace_ database name h "/files"
    have hseries := namedPath_forms python namespace_ database name h "/series"
    refine ⟨fun s _ what => ?_, fun s _ => ?_, fun s _ what => ?_, fun s _ => ?_, hbucket, hseries,
      fun hchecked => ?_⟩
    · rw [checkName_ok_iff, mem_nameForm]
    · rw [passes_iff, mem_nameForm]
    · rw [patternName_ok_iff, matchesName_iff, mem_nameForm]
    · rw [plain_iff, mem_nameForm]
    · have hforms : ∀ s ∈ [namespace_, database, name], s ∈ segmentForm := fun s hs =>
        segmentForm_of_nameForm (mem_nameForm.mpr (checkName_ok_iff.mp (hchecked s hs)))
      exact ⟨hbucket.mpr hforms, hseries.mpr hforms⟩

/-- A bucket named `_` is a name wherever a statement is written, and is no segment of a route. -/
theorem underscore_is_not_routed :
    ¬ SameEverywhere (JsonValues.asciiInterpreter 0 JsonValues.unlimited) "n" "d" "_" := by
  intro h
  have hnames : ∀ s ∈ [ofString "n", ofString "d", ofString "_"],
      ∃ checked, checkName "a name" s = .ok checked := by
    intro s hs
    refine checkName_ok_iff.mpr ?_
    revert s
    decide
  have hsegment := (namedPath_ok_iff _ _ _ _ "/files").mp (h.routed hnames).1 (ofString "_")
    (by simp)
  exact absurd hsegment (by decide)

end NameForms

end TessariDB
