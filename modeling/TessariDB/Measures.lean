import Mathlib.Data.List.Basic
import TessariDB.References

/-!
# Counts with Units

Texts made of groups, each a count and the word of a unit, and a scanner that takes one group after
another off the front: the longest run of digits, and then the first unit of a table that what
follows begins with. One unit may begin another, so the scanner is right by the order of the table:
no unit comes before one that it begins.

## Main results

* `Table.turn_group`: a group is taken off the front of what it begins.
* `Table.scan_eq_some_iff`: the texts that are scanned are those made of groups, and are scanned as
  the groups they are made of.
-/

namespace Measures

open References

variable {γ υ : Type} (digit : γ → Bool) (word : υ → List γ) (units : List υ)

/-- A count and a unit. -/
abbrev Group (γ υ : Type) := List γ × υ

/-- Some digits, and a unit of the table. -/
structure IsGroup (group : Group γ υ) : Prop where
  count_ne : group.1 ≠ []
  digits : ∀ c ∈ group.1, digit c = true
  unit : group.2 ∈ units

/-- How a group is written. -/
def Group.text (group : Group γ υ) : List γ := group.1 ++ word group.2

/-- How groups are written. -/
def text (groups : List (Group γ υ)) : List γ := groups.flatMap (Group.text word)

variable [DecidableEq γ]

/-- One group is taken off the front. -/
def turn (s : List γ) : Option (Group γ υ × List γ) :=
  if s.takeWhile digit = [] then none
  else
    let behind := s.dropWhile digit
    (units.find? fun u => (word u).isPrefixOf behind).map fun u =>
      ((s.takeWhile digit, u), behind.drop (word u).length)

/-- Groups are taken off until nothing is left. -/
def scan : ℕ → List γ → Option (List (Group γ υ))
  | _, [] => some []
  | 0, _ :: _ => none
  | fuel + 1, c :: s => do
      let (group, rest) ← turn digit word units (c :: s)
      let groups ← scan fuel rest
      return group :: groups

/-- Units are words without digits, and none comes before one that it begins. -/
structure Table : Prop where
  word_ne : ∀ u ∈ units, word u ≠ []
  word_digits : ∀ u ∈ units, ∀ c ∈ word u, digit c = false
  order : units.Pairwise fun u v => ¬ word u <+: word v

variable {digit word units}

/-- What is taken off is a group. -/
theorem turn_eq_some {s rest : List γ} {group : Group γ υ}
    (h : turn digit word units s = some (group, rest)) :
    IsGroup digit units group ∧ s = group.text word ++ rest := by
  rw [turn] at h
  split at h
  · cases h
  · next hcount =>
    obtain ⟨u, hfind, h⟩ := Option.map_eq_some_iff.mp h
    obtain ⟨rfl, rfl⟩ := Prod.mk.inj h
    have hbegins := @List.find?_some _ (fun u => (word u).isPrefixOf (s.dropWhile digit)) _ _ hfind
    obtain ⟨rest, hrest⟩ := List.isPrefixOf_iff_prefix.mp hbegins
    refine ⟨⟨hcount, fun c hc => List.mem_takeWhile_imp hc, List.mem_of_find?_eq_some hfind⟩, ?_⟩
    rw [Group.text, ← hrest, List.drop_left, List.append_assoc, hrest,
      List.takeWhile_append_dropWhile]

omit [DecidableEq γ] in
/-- A word without digits ends where a count begins. -/
theorem prefix_of_prefix_append {u v rest : List γ} (hu : ∀ c ∈ u, digit c = false)
    (hrest : ∀ c ∈ rest.head?, digit c = true) (h : u <+: v ++ rest) : u <+: v := by
  by_cases hle : u.length ≤ v.length
  · exact List.prefix_of_prefix_length_le h (List.prefix_append v rest) hle
  · obtain ⟨w, rfl⟩ := List.prefix_of_prefix_length_le (List.prefix_append v rest) h (by omega)
    obtain ⟨t, ht⟩ := h
    rw [List.append_assoc] at ht
    have htail := List.append_cancel_left ht
    cases w with
    | nil => simp at hle
    | cons c w =>
        have hdigit := hrest c (by rw [← htail]; rfl)
        rw [hu c (by simp)] at hdigit
        cases hdigit

/-- **A group is taken off the front of what it begins**, where a count or nothing follows. -/
theorem Table.turn_group (table : Table digit word units) {group : Group γ υ}
    (hgroup : IsGroup digit units group) {rest : List γ}
    (hrest : ∀ c ∈ rest.head?, digit c = true) :
    turn digit word units (group.text word ++ rest) = some (group, rest) := by
  obtain ⟨count, u⟩ := group
  obtain ⟨hne, hdigits, hunit⟩ := hgroup
  dsimp only at hne hdigits hunit
  have hbreak : Break digit (word u ++ rest) := by
    intro c hc
    rw [List.head?_append_of_ne_nil _ (table.word_ne u hunit)] at hc
    exact table.word_digits u hunit c (List.mem_of_mem_head? hc)
  have htake : (count ++ (word u ++ rest)).takeWhile digit = count := by
    rw [takeWhile_append_break _ hbreak, List.takeWhile_eq_self_iff.mpr hdigits]
  have hdrop : (count ++ (word u ++ rest)).dropWhile digit = word u ++ rest := by
    have hsplit := List.takeWhile_append_dropWhile (p := digit) (l := count ++ (word u ++ rest))
    rw [htake] at hsplit
    exact List.append_cancel_left hsplit
  have hfind : units.find? (fun v => (word v).isPrefixOf (word u ++ rest)) = some u := by
    obtain ⟨before, behind, rfl⟩ := List.append_of_mem hunit
    refine List.find?_eq_some_iff_append.mpr
      ⟨List.isPrefixOf_iff_prefix.mpr (List.prefix_append _ _), before, behind, rfl, fun v hv => ?_⟩
    have hnot : ¬ word v <+: word u :=
      (List.pairwise_append.mp table.order).2.2 v hv u List.mem_cons_self
    simp only [Bool.not_eq_true', ← Bool.not_eq_true, List.isPrefixOf_iff_prefix]
    exact fun h => hnot (prefix_of_prefix_append
      (table.word_digits v (List.mem_append_left _ hv)) hrest h)
  rw [turn, Group.text, List.append_assoc, htake, hdrop, if_neg hne]
  dsimp only
  rw [hfind, Option.map_some, List.drop_left]

omit [DecidableEq γ] in
/-- What is made of groups begins with a count. -/
theorem digit_head_text {groups : List (Group γ υ)} (h : ∀ group ∈ groups, IsGroup digit units group) :
    ∀ c ∈ (text word groups).head?, digit c = true := by
  intro c hc
  cases groups with
  | nil => cases hc
  | cons group groups =>
      obtain ⟨hne, hdigits, -⟩ := h group List.mem_cons_self
      rw [text, List.flatMap_cons, Group.text, List.append_assoc,
        List.head?_append_of_ne_nil _ hne] at hc
      exact hdigits c (List.mem_of_mem_head? hc)

omit [DecidableEq γ] in
/-- A group is longer than nothing. -/
theorem IsGroup.length_lt {group : Group γ υ} (h : IsGroup digit units group) {s rest : List γ}
    (hs : s = group.text word ++ rest) : rest.length < s.length := by
  have hpos := List.length_pos_iff.mpr h.count_ne
  rw [hs, Group.text, List.length_append, List.length_append]
  omega

/-- Nothing is made of no groups only. -/
theorem scan_nil_iff {fuel : ℕ} {groups : List (Group γ υ)} :
    scan digit word units fuel [] = some groups ↔
      (∀ group ∈ groups, IsGroup digit units group) ∧ [] = text word groups := by
  rw [scan]
  constructor
  · rintro ⟨⟩
    exact ⟨by simp, rfl⟩
  · rintro ⟨hgroups, hs⟩
    cases groups with
    | nil => rfl
    | cons group groups =>
        rw [text, List.flatMap_cons] at hs
        cases (hgroups group List.mem_cons_self).length_lt hs

/-- **What is scanned is made of groups**, and is scanned as these. -/
theorem Table.scan_eq_some_iff (table : Table digit word units) {fuel : ℕ} {s : List γ}
    (hfuel : s.length ≤ fuel) {groups : List (Group γ υ)} :
    scan digit word units fuel s = some groups ↔
      (∀ group ∈ groups, IsGroup digit units group) ∧ s = text word groups := by
  induction fuel generalizing s groups with
  | zero =>
      obtain rfl := List.length_eq_zero_iff.mp (Nat.le_zero.mp hfuel)
      exact scan_nil_iff
  | succ fuel ih =>
      cases s with
      | nil => exact scan_nil_iff
      | cons c s =>
          constructor
          · intro h
            obtain ⟨⟨group, rest⟩, hturn, h⟩ := Option.bind_eq_some_iff.mp h
            obtain ⟨behind, hscan, h⟩ := Option.bind_eq_some_iff.mp h
            obtain rfl := Option.some.inj h
            obtain ⟨hgroup, hs⟩ := turn_eq_some hturn
            have hrest := hgroup.length_lt hs
            obtain ⟨hgroups, rfl⟩ := (ih (Nat.le_of_lt_succ (hrest.trans_le hfuel))).mp hscan
            rw [hs, text, text, List.flatMap_cons]
            exact ⟨List.forall_mem_cons.mpr ⟨hgroup, hgroups⟩, rfl⟩
          · rintro ⟨hgroups, hs⟩
            cases groups with
            | nil => cases hs
            | cons group groups =>
                obtain ⟨hgroup, hgroups⟩ := List.forall_mem_cons.mp hgroups
                rw [text, List.flatMap_cons] at hs
                have hrest := hgroup.length_lt hs
                have hhead : ∀ c ∈ (text word groups).head?, digit c = true :=
                  digit_head_text hgroups
                have hturn := table.turn_group hgroup hhead
                rw [text, ← hs] at hturn
                have hscan := (ih (Nat.le_of_lt_succ (hrest.trans_le hfuel))).mpr ⟨hgroups, rfl⟩
                simp only [scan, hturn, hscan, Option.bind_eq_bind, Option.bind_some]
                rfl

end Measures
