import Mathlib.Algebra.Ring.Nat
import Mathlib.Data.List.Induction
import Mathlib.Data.List.Sort

/-!
# Insertion-Ordered Dictionaries

A Python `dict` as the list of its items in insertion order. Assignment to a key that is
already there replaces the value and keeps the key's place (`set`); a loop that assigns
pair after pair is `ofPairs`; `sorted` is the list of items in ascending key order. A
dictionary is a list whose keys are distinct (`Keyed`).

## Main results

* `keyed_ofPairs`: whatever pairs are assigned, the result is a dictionary.
* `ofPairs_of_keyed`: assigning the items of a dictionary in order rebuilds it.
* `sorted_eq_sorted_iff`: two dictionaries hold the same items exactly when their sorted
  item lists are equal.
-/

namespace Dict

variable {κ α β : Type}

/-- The keys, in insertion order. -/
def keys (d : List (κ × α)) : List κ := d.map Prod.fst

/-- No key occurs twice. -/
def Keyed (d : List (κ × α)) : Prop := (keys d).Nodup

/-- Change every value. -/
def mapValues (f : α → β) (d : List (κ × α)) : List (κ × β) :=
  d.map fun item => (item.1, f item.2)

@[simp] theorem keys_nil : keys ([] : List (κ × α)) = [] := rfl

@[simp] theorem keys_cons (item : κ × α) (d : List (κ × α)) :
    keys (item :: d) = item.1 :: keys d := rfl

@[simp] theorem keys_append (d e : List (κ × α)) : keys (d ++ e) = keys d ++ keys e :=
  List.map_append

@[simp] theorem keys_mapValues (f : α → β) (d : List (κ × α)) :
    keys (mapValues f d) = keys d := by
  simp [keys, mapValues]

theorem values_mapValues (f : α → β) (d : List (κ × α)) :
    (mapValues f d).map Prod.snd = (d.map Prod.snd).map f := by
  simp [mapValues]

variable [LinearOrder κ]

instance (d : List (κ × α)) : Decidable (Keyed d) := inferInstanceAs (Decidable (List.Nodup _))

/-- `d[key] = value`. -/
def set (d : List (κ × α)) (key : κ) (value : α) : List (κ × α) :=
  match d with
  | [] => [(key, value)]
  | item :: d => if item.1 = key then (item.1, value) :: d else item :: set d key value

/-- `d.get(key)`. -/
def get? (d : List (κ × α)) (key : κ) : Option α :=
  (d.find? fun item => item.1 = key).map Prod.snd

/-- Assign pair after pair to an empty dictionary. -/
def ofPairs (pairs : List (κ × α)) : List (κ × α) :=
  pairs.foldl (fun d pair => set d pair.1 pair.2) []

/-- The items in ascending key order. -/
def sorted (d : List (κ × α)) : List (κ × α) :=
  d.insertionSort fun x y => x.1 ≤ y.1

/-! ### Assignment -/

/-- Assigning to a new key appends it. -/
theorem set_of_notMem {d : List (κ × α)} {key : κ} (h : key ∉ keys d) (value : α) :
    set d key value = d ++ [(key, value)] := by
  induction d with
  | nil => rfl
  | cons item d ih =>
      simp only [keys_cons, List.mem_cons, not_or] at h
      rw [set, if_neg (Ne.symm h.1), ih h.2, List.cons_append]

/-- Assigning to a key that is there leaves the keys as they are. -/
theorem keys_set_of_mem {d : List (κ × α)} {key : κ} (h : key ∈ keys d) (value : α) :
    keys (set d key value) = keys d := by
  induction d with
  | nil => simp at h
  | cons item d ih =>
      rw [set]
      split
      · rfl
      · next hne =>
        rw [keys_cons, List.mem_cons] at h
        rcases h with rfl | h
        · exact absurd rfl hne
        · rw [keys_cons, ih h, keys_cons]

theorem mem_set {d : List (κ × α)} {key : κ} {value : α} {item : κ × α}
    (h : item ∈ set d key value) : item ∈ d ∨ item = (key, value) := by
  induction d with
  | nil => exact .inr (List.mem_singleton.mp h)
  | cons other d ih =>
      rw [set] at h
      split at h
      · next heq =>
        rcases List.mem_cons.mp h with rfl | h
        · exact .inr (by rw [heq])
        · exact .inl (List.mem_cons_of_mem _ h)
      · rcases List.mem_cons.mp h with rfl | h
        · exact .inl List.mem_cons_self
        · exact (ih h).imp (List.mem_cons_of_mem _) id

theorem keyed_set {d : List (κ × α)} (h : Keyed d) (key : κ) (value : α) :
    Keyed (set d key value) := by
  by_cases hmem : key ∈ keys d
  · rwa [Keyed, keys_set_of_mem hmem]
  · rw [Keyed, set_of_notMem hmem, keys_append]
    refine List.Nodup.append h (List.nodup_singleton _) ?_
    simpa using hmem

theorem length_set_le (d : List (κ × α)) (key : κ) (value : α) :
    (set d key value).length ≤ d.length + 1 := by
  induction d with
  | nil => simp [set]
  | cons item d ih =>
      rw [set]
      split <;> simp only [List.length_cons] <;> omega

/-- Assignment looks at keys only. -/
theorem mapValues_set (f : α → β) (d : List (κ × α)) (key : κ) (value : α) :
    mapValues f (set d key value) = set (mapValues f d) key (f value) := by
  induction d with
  | nil => rfl
  | cons item d ih =>
      simp only [mapValues, List.map_cons, set] at ih ⊢
      split
      · rfl
      · rw [List.map_cons, ih]

theorem mapValues_foldl_set (f : α → β) (pairs d : List (κ × α)) :
    mapValues f (pairs.foldl (fun d pair => set d pair.1 pair.2) d) =
      (mapValues f pairs).foldl (fun d pair => set d pair.1 pair.2) (mapValues f d) := by
  induction pairs generalizing d with
  | nil => rfl
  | cons pair pairs ih =>
      rw [List.foldl_cons, ih, mapValues_set]
      rfl

theorem mem_keys_set {d : List (κ × α)} {key other : κ} {value : α} :
    other ∈ keys (set d key value) ↔ other = key ∨ other ∈ keys d := by
  by_cases h : key ∈ keys d
  · rw [keys_set_of_mem h]
    exact ⟨.inr, fun hor => hor.elim (fun heq => heq ▸ h) id⟩
  · rw [set_of_notMem h, keys_append, List.mem_append, keys_cons, keys_nil, List.mem_singleton,
      or_comm]

theorem mem_keys_foldl_set {γ : Type} (f : γ → κ) (g : γ → α) (xs : List γ) (d : List (κ × α))
    (key : κ) : key ∈ keys (xs.foldl (fun d x => set d (f x) (g x)) d) ↔
      key ∈ keys d ∨ ∃ x ∈ xs, key = f x := by
  induction xs generalizing d with
  | nil => simp
  | cons x xs ih =>
      rw [List.foldl_cons, ih, mem_keys_set]
      simp only [List.mem_cons, exists_eq_or_imp]
      rw [or_comm (a := key = f x), or_assoc]

theorem mem_keys_foldl_set₂ {γ : Type} (f f' : γ → κ) (g g' : γ → α) (xs : List γ)
    (d : List (κ × α)) (key : κ) :
    key ∈ keys (xs.foldl (fun d x => set (set d (f x) (g x)) (f' x) (g' x)) d) ↔
      key ∈ keys d ∨ ∃ x ∈ xs, key = f x ∨ key = f' x := by
  induction xs generalizing d with
  | nil => simp
  | cons x xs ih =>
      rw [List.foldl_cons, ih, mem_keys_set, mem_keys_set]
      simp only [List.mem_cons, exists_eq_or_imp]
      constructor
      · rintro ((h | h | h) | h)
        · exact .inr (.inl (.inr h))
        · exact .inr (.inl (.inl h))
        · exact .inl h
        · exact .inr (.inr h)
      · rintro (h | (h | h) | h)
        · exact .inl (.inr (.inr h))
        · exact .inl (.inr (.inl h))
        · exact .inl (.inl h)
        · exact .inr h

/-- What a dictionary holds is what is found in it. -/
theorem get?_of_mem {d : List (κ × α)} (h : Keyed d) {key : κ} {value : α}
    (hmem : (key, value) ∈ d) : get? d key = some value := by
  induction d with
  | nil => simp at hmem
  | cons item d ih =>
      obtain ⟨hnew, hd⟩ := List.nodup_cons.mp h
      rw [get?, List.find?_cons]
      rcases List.mem_cons.mp hmem with rfl | hmem
      · simp
      · have hne : item.1 ≠ key := fun heq =>
          hnew (heq ▸ List.mem_map_of_mem (f := Prod.fst) hmem)
        simpa [hne, get?] using ih hd hmem

theorem mem_of_get? {d : List (κ × α)} {key : κ} {value : α} (h : get? d key = some value) :
    (key, value) ∈ d := by
  obtain ⟨⟨found, held⟩, hfind, rfl⟩ := Option.map_eq_some_iff.mp h
  obtain rfl : found = key := by simpa using List.find?_some hfind
  exact List.mem_of_find?_eq_some hfind

/-- An assignment is found under its key, and everything else as before. -/
theorem get?_set (d : List (κ × α)) (key : κ) (value : α) (other : κ) :
    get? (set d key value) other = if other = key then some value else get? d other := by
  induction d with
  | nil => by_cases h : other = key <;> simp [set, get?, h, eq_comm]
  | cons item d ih =>
      rw [set]
      simp only [get?, List.find?_cons] at ih ⊢
      by_cases hitem : item.1 = key <;> by_cases h : other = key <;>
        by_cases hother : item.1 = other <;> simp_all [eq_comm]

theorem get?_mapValues (f : α → β) (d : List (κ × α)) (key : κ) :
    get? (mapValues f d) key = (get? d key).map f := by
  induction d with
  | nil => rfl
  | cons item d ih =>
      rw [get?, get?, mapValues, List.map_cons, List.find?_cons, List.find?_cons, ← mapValues]
      by_cases h : item.1 = key
      · simp [h]
      · simpa [h, get?] using ih

/-! ### Building from pairs -/

theorem ofPairs_concat (pairs : List (κ × α)) (pair : κ × α) :
    ofPairs (pairs ++ [pair]) = set (ofPairs pairs) pair.1 pair.2 := by
  simp [ofPairs]

/-- Whatever is assigned, the keys stay distinct. -/
theorem keyed_ofPairs (pairs : List (κ × α)) : Keyed (ofPairs pairs) := by
  induction pairs using List.reverseRecOn with
  | nil => exact List.nodup_nil
  | append_singleton pairs pair ih =>
      rw [ofPairs_concat]
      exact keyed_set ih _ _

theorem mem_of_mem_ofPairs {pairs : List (κ × α)} {item : κ × α}
    (h : item ∈ ofPairs pairs) : item ∈ pairs := by
  induction pairs using List.reverseRecOn with
  | nil => exact h
  | append_singleton pairs pair ih =>
      rw [ofPairs_concat] at h
      rcases mem_set h with h | rfl
      · exact List.mem_append_left _ (ih h)
      · exact List.mem_append_right _ List.mem_cons_self

theorem length_ofPairs_le (pairs : List (κ × α)) : (ofPairs pairs).length ≤ pairs.length := by
  induction pairs using List.reverseRecOn with
  | nil => exact Nat.le_refl _
  | append_singleton pairs pair ih =>
      have h := length_set_le (ofPairs pairs) pair.1 pair.2
      rw [ofPairs_concat, List.length_append, List.length_singleton]
      omega

theorem sum_set_le (size : κ × α → ℕ) (d : List (κ × α)) (key : κ) (value : α) :
    ((set d key value).map size).sum ≤ (d.map size).sum + size (key, value) := by
  induction d with
  | nil => simp [set]
  | cons item d ih =>
      rw [set]
      split
      · next heq =>
        simp only [List.map_cons, List.sum_cons, heq]
        omega
      · simp only [List.map_cons, List.sum_cons]
        omega

/-- What is measured entry by entry does not grow in a dictionary. -/
theorem sum_ofPairs_le (size : κ × α → ℕ) (pairs : List (κ × α)) :
    ((ofPairs pairs).map size).sum ≤ (pairs.map size).sum := by
  induction pairs using List.reverseRecOn with
  | nil => exact Nat.le_refl _
  | append_singleton pairs pair ih =>
      have h := sum_set_le size (ofPairs pairs) pair.1 pair.2
      rw [ofPairs_concat, List.map_append, List.sum_append, List.map_singleton, List.sum_singleton]
      exact h.trans (Nat.add_le_add_right ih _)

/-- Assigning the items of a dictionary in order rebuilds it. -/
theorem ofPairs_of_keyed {d : List (κ × α)} (h : Keyed d) : ofPairs d = d := by
  induction d using List.reverseRecOn with
  | nil => rfl
  | append_singleton d item ih =>
      rw [Keyed, keys_append] at h
      have hd : Keyed d := h.of_append_left
      have hnew : item.1 ∉ keys d := fun hmem =>
        (List.nodup_append.mp h).2.2 item.1 hmem item.1 (by simp) rfl
      rw [ofPairs_concat, ih hd, set_of_notMem hnew]

/-! ### Key order -/

theorem sorted_perm (d : List (κ × α)) : (sorted d).Perm d := List.perm_insertionSort _ d

@[simp] theorem length_sorted (d : List (κ × α)) : (sorted d).length = d.length :=
  (sorted_perm d).length_eq

theorem mem_sorted {d : List (κ × α)} {item : κ × α} : item ∈ sorted d ↔ item ∈ d :=
  (sorted_perm d).mem_iff

theorem keyed_sorted {d : List (κ × α)} : Keyed (sorted d) ↔ Keyed d :=
  ((sorted_perm d).map Prod.fst).nodup_iff

theorem sorted_pairwise (d : List (κ × α)) :
    (sorted d).Pairwise fun x y => x.1 ≤ y.1 := by
  have : Std.Total fun x y : κ × α => x.1 ≤ y.1 := ⟨fun x y => le_total x.1 y.1⟩
  have : IsTrans (κ × α) fun x y => x.1 ≤ y.1 := ⟨fun _ _ _ h h' => le_trans h h'⟩
  exact List.pairwise_insertionSort _ d

/-- The sorted keys of a dictionary ascend strictly. -/
theorem keys_sorted_lt {d : List (κ × α)} (h : Keyed d) :
    (keys (sorted d)).Pairwise (· < ·) := by
  have hle : (keys (sorted d)).Pairwise (· ≤ ·) := List.pairwise_map.mpr (sorted_pairwise d)
  have hne : (keys (sorted d)).Pairwise (· ≠ ·) := keyed_sorted.mpr h
  exact hle.imp₂ (fun _ _ hle hne => lt_of_le_of_ne hle hne) hne

/-- A list whose keys ascend strictly is sorted already, and is a dictionary. -/
theorem sorted_of_lt {d : List (κ × α)} (h : (keys d).Pairwise (· < ·)) : sorted d = d := by
  refine List.Pairwise.insertionSort_eq ?_
  exact (List.pairwise_map.mp h).imp le_of_lt

theorem keyed_of_lt {d : List (κ × α)} (h : (keys d).Pairwise (· < ·)) : Keyed d :=
  h.imp ne_of_lt

theorem sorted_sorted {d : List (κ × α)} (h : Keyed d) : sorted (sorted d) = sorted d :=
  sorted_of_lt (keys_sorted_lt h)

/-- Sorting looks at keys only. -/
theorem sorted_mapValues (f : α → β) (d : List (κ × α)) :
    sorted (mapValues f d) = mapValues f (sorted d) := by
  refine (List.map_insertionSort _ _ _ _ ?_).symm
  intro x _ y _
  rfl

/-- **Equality as maps.** Two dictionaries hold the same items exactly when their sorted
item lists are equal. -/
theorem sorted_eq_sorted_iff {d e : List (κ × α)} (hd : Keyed d) (he : Keyed e) :
    sorted d = sorted e ↔ ∀ item, item ∈ d ↔ item ∈ e := by
  constructor
  · intro h item
    rw [← mem_sorted, h, mem_sorted]
  · intro h
    have hperm : d.Perm e :=
      (List.perm_ext_iff_of_nodup (hd.of_map _) (he.of_map _)).mpr h
    have hsorted : (sorted d).Perm (sorted e) :=
      (sorted_perm d).trans (hperm.trans (sorted_perm e).symm)
    refine hsorted.eq_of_pairwise ?_ (List.pairwise_map.mp (keys_sorted_lt hd))
      (List.pairwise_map.mp (keys_sorted_lt he))
    intro x y _ _ hxy hyx
    exact absurd hxy (lt_asymm hyx)

/-- Two dictionaries in which the same is found under every key hold the same items. -/
theorem perm_of_get? {d e : List (κ × α)} (hd : Keyed d) (he : Keyed e)
    (h : ∀ key, get? d key = get? e key) : d.Perm e := by
  refine (List.perm_ext_iff_of_nodup (hd.of_map _) (he.of_map _)).mpr fun item => ?_
  constructor
  · intro hitem
    exact mem_of_get? (by rw [← h, get?_of_mem hd hitem])
  · intro hitem
    exact mem_of_get? (by rw [h, get?_of_mem he hitem])

theorem sorted_eq_of_perm {d e : List (κ × α)} (hd : Keyed d) (h : d.Perm e) :
    sorted d = sorted e :=
  (sorted_eq_sorted_iff hd ((h.map Prod.fst).nodup_iff.mp hd)).mpr fun _ => h.mem_iff

/-- Items may be left out before the sorting or after. -/
theorem sorted_filter {d : List (κ × α)} (h : Keyed d) (p : κ × α → Bool) :
    sorted (d.filter p) = (sorted d).filter p := by
  have hlt : (keys ((sorted d).filter p)).Pairwise (· < ·) :=
    (keys_sorted_lt h).sublist (List.filter_sublist.map Prod.fst)
  have hkeyed : Keyed (d.filter p) := h.sublist (List.filter_sublist.map Prod.fst)
  rw [← sorted_of_lt hlt, sorted_eq_sorted_iff hkeyed (keyed_of_lt hlt)]
  intro item
  rw [List.mem_filter, List.mem_filter, mem_sorted]

end Dict
