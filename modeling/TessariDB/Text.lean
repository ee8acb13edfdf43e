import TessariDB.Utf8
import Mathlib.Tactic.IntervalCases
import Mathlib.Tactic.Ring

/-!
# Building Text

Text is a sequence of code points. A string literal stands for its own code points; numbers
are written in decimal (`digits`, `str`) and read back (`number`), and pieces are joined with
a separator (`join`).

## Main results

* `number_digits`, `digits_injective`: a natural number is read back from its numeral.
* `str_injective`: an integer is known by its numeral.
* `length_padded`, `number_padded`: a padded numeral has its width, and is read back.
-/

namespace Text

open Utf8

instance : Coe String Str := ⟨ofString⟩

/-! ### Characters -/

/-- `'0'` to `'9'`. -/
def IsDigit (c : CodePoint) : Prop := 0x30 ≤ c.val ∧ c.val ≤ 0x39

instance (c : CodePoint) : Decidable (IsDigit c) := instDecidableAnd

/-- An ASCII letter or an underscore. -/
def IsLetter (c : CodePoint) : Prop :=
  c.val = 0x5F ∨ (0x61 ≤ c.val ∧ c.val ≤ 0x7A) ∨ (0x41 ≤ c.val ∧ c.val ≤ 0x5A)

instance (c : CodePoint) : Decidable (IsLetter c) := instDecidableOr

/-- A character a name may go on with. -/
def IsWord (c : CodePoint) : Prop := IsLetter c ∨ IsDigit c

instance (c : CodePoint) : Decidable (IsWord c) := instDecidableOr

/-! ### Numerals -/

/-- The digit a number below ten is written as. -/
def digit (d : ℕ) : CodePoint := codePoint (0x30 + d)

/-- The decimal numeral of a natural number. -/
def digits (n : ℕ) : Str := ofString (Nat.repr n)

/-- The number a run of digits denotes. -/
def number (s : Str) : ℕ := s.foldl (fun n c => 10 * n + (c.val - 0x30)) 0

/-- `str(z)`. -/
def str (z : ℤ) : Str := if z < 0 then "-" ++ digits z.natAbs else digits z.natAbs

theorem val_digit {d : ℕ} (h : d < 10) : (digit d).val = 0x30 + d :=
  val_codePoint (by omega)

theorem isDigit_digit {d : ℕ} (h : d < 10) : IsDigit (digit d) := by
  rw [IsDigit, val_digit h]
  omega

theorem ofString_append (s t : String) : ofString (s ++ t) = ofString s ++ ofString t := by
  simp [ofString]

theorem digits_of_lt {n : ℕ} (h : n < 10) : digits n = [digit n] := by
  rw [digits, ofString, Nat.toList_repr, Nat.toDigits_of_lt_base h, List.map_singleton, digit]
  interval_cases n <;> rfl

theorem digits_of_ge {n : ℕ} (h : 10 ≤ n) : digits n = digits (n / 10) ++ [digit (n % 10)] := by
  rw [digits, Nat.repr_eq_repr_append_repr h, ofString_append, ← digits, ← digits,
    digits_of_lt (Nat.mod_lt n (by omega))]

/-- Numerals are built digit by digit from the front. -/
theorem digits_induction {P : ℕ → Str → Prop} (hlt : ∀ d, d < 10 → P d [digit d])
    (hge : ∀ n d, 0 < n → d < 10 → P n (digits n) → P (10 * n + d) (digits n ++ [digit d]))
    (n : ℕ) : P n (digits n) := by
  induction n using Nat.strong_induction_on with
  | _ n ih =>
      by_cases h : n < 10
      · rw [digits_of_lt h]
        exact hlt n h
      · rw [digits_of_ge (by omega)]
        have hn : n = 10 * (n / 10) + n % 10 := by omega
        have := hge (n / 10) (n % 10) (by omega) (by omega) (ih (n / 10) (by omega))
        rwa [← hn] at this

theorem isDigit_of_mem_digits {n : ℕ} : ∀ c ∈ digits n, IsDigit c := by
  refine digits_induction (P := fun _ s => ∀ c ∈ s, IsDigit c) ?_ ?_ n
  · intro d hd c hc
    rw [List.mem_singleton.mp hc]
    exact isDigit_digit hd
  · intro m d _ hd ih c hc
    rcases List.mem_append.mp hc with hc | hc
    · exact ih c hc
    · rw [List.mem_singleton.mp hc]
      exact isDigit_digit hd

theorem digits_ne_nil (n : ℕ) : digits n ≠ [] :=
  digits_induction (P := fun _ s => s ≠ []) (fun _ _ => by simp) (fun _ _ _ _ _ => by simp) n

@[simp] theorem number_nil : number [] = 0 := rfl

theorem number_concat (s : Str) (c : CodePoint) :
    number (s ++ [c]) = 10 * number s + (c.val - 0x30) := by
  rw [number, number, List.foldl_append, List.foldl_cons, List.foldl_nil]

theorem number_append (s t : Str) : number (s ++ t) = number s * 10 ^ t.length + number t := by
  induction t using List.reverseRecOn with
  | nil => simp
  | append_singleton t c ih =>
      rw [← List.append_assoc, number_concat, number_concat, ih, List.length_append,
        List.length_singleton, pow_succ]
      ring

theorem number_digits (n : ℕ) : number (digits n) = n := by
  refine digits_induction (P := fun n s => number s = n) ?_ ?_ n
  · intro d hd
    rw [← List.nil_append [digit d], number_concat, val_digit hd]
    simp
  · intro m d _ hd ih
    rw [number_concat, ih, val_digit hd]
    omega

theorem digits_injective {m n : ℕ} (h : digits m = digits n) : m = n := by
  rw [← number_digits m, h, number_digits]

theorem str_injective {y z : ℤ} (h : str y = str z) : y = z := by
  have hminus : ∀ n t, ofString "-" ++ t ≠ digits n := by
    intro n t heq
    have hdigit := isDigit_of_mem_digits (codePoint 0x2D)
      (heq ▸ List.mem_append_left t (show codePoint 0x2D ∈ ofString "-" by decide))
    exact absurd hdigit (by decide)
  rw [str, str] at h
  split at h <;> split at h
  · have := digits_injective (List.append_cancel_left h)
    omega
  · exact absurd h (hminus _ _)
  · exact absurd h.symm (hminus _ _)
  · have := digits_injective h
    omega

/-! ### Runs -/

section Runs

variable {P : CodePoint → Prop} [DecidablePred P] {w w' r r' : Str}

theorem forall_mem_of_all (h : w.all (fun c => decide (P c))) : ∀ c ∈ w, P c :=
  fun c hc => of_decide_eq_true (List.all_eq_true.mp h c hc)

theorem dropWhile_run (hw : ∀ c ∈ w, P c) (hr : ∀ c ∈ r.head?, ¬ P c) :
    (w ++ r).dropWhile (fun c => decide (P c)) = r := by
  rw [List.dropWhile_append_of_pos fun c hc => decide_eq_true (hw c hc)]
  cases r with
  | nil => rfl
  | cons c r => rw [List.dropWhile_cons_of_neg (by simpa using hr c rfl)]

/-- **A run of characters ends where it was ended.** -/
theorem run_append_inj (hw : ∀ c ∈ w, P c) (hw' : ∀ c ∈ w', P c) (hr : ∀ c ∈ r.head?, ¬ P c)
    (hr' : ∀ c ∈ r'.head?, ¬ P c) (h : w ++ r = w' ++ r') : w = w' ∧ r = r' := by
  have hrest : r = r' := by rw [← dropWhile_run hw hr, h, dropWhile_run hw' hr']
  exact ⟨List.append_cancel_right (hrest ▸ h), hrest⟩

end Runs

/-- `s.partition(c)`; the second part is whether `c` was there. -/
def partition (c : CodePoint) (s : Str) : Str × Bool × Str :=
  match s.dropWhile (· ≠ c) with
  | [] => (s, false, [])
  | _ :: rest => (s.takeWhile (· ≠ c), true, rest)

theorem partition_of_notMem {c : CodePoint} {s : Str} (h : ∀ d ∈ s, d ≠ c) :
    partition c s = (s, false, []) := by
  have hnil : s.dropWhile (· ≠ c) = [] := by
    rw [← List.append_nil s, List.dropWhile_append_of_pos fun d hd => decide_eq_true (h d hd),
      List.dropWhile_nil]
  rw [partition, hnil]

theorem partition_append {c : CodePoint} {s t : Str} (h : ∀ d ∈ s, d ≠ c) :
    partition c (s ++ c :: t) = (s, true, t) := by
  have hall : ∀ d ∈ s, decide (d ≠ c) = true := fun d hd => decide_eq_true (h d hd)
  rw [partition, List.dropWhile_append_of_pos hall, List.takeWhile_append_of_pos hall,
    List.dropWhile_cons_of_neg (by simp), List.takeWhile_cons_of_neg (by simp), List.append_nil]

/-- A text holds the character nowhere, or is parted at its first place. -/
theorem partition_cases (c : CodePoint) (s : Str) :
    ((∀ d ∈ s, d ≠ c) ∧ partition c s = (s, false, [])) ∨
      ∃ t u, (∀ d ∈ t, d ≠ c) ∧ s = t ++ c :: u ∧ partition c s = (t, true, u) := by
  by_cases hmem : c ∈ s
  · obtain ⟨t, u, rfl, hnot⟩ := List.eq_append_cons_of_mem hmem
    have hall : ∀ d ∈ t, d ≠ c := fun d hd heq => hnot (heq ▸ hd)
    exact .inr ⟨t, u, hall, rfl, partition_append hall⟩
  · have hall : ∀ d ∈ s, d ≠ c := fun d hd heq => hmem (heq ▸ hd)
    exact .inl ⟨hall, partition_of_notMem hall⟩

/-- What stands on both sides of the character is the text without it. -/
theorem partition_join (c : CodePoint) (s : Str) :
    (partition c s).1 ++ (partition c s).2.2 = s.erase c := by
  rcases partition_cases c s with ⟨hall, h⟩ | ⟨t, u, hall, rfl, h⟩
  · rw [h, List.append_nil, List.erase_of_not_mem fun hmem => hall c hmem rfl]
  · rw [h, List.erase_append_right _ fun hmem => hall c hmem rfl, List.erase_cons_head]

/-! ### Padding -/

/-- `s.rjust(width, fill)`. -/
def rjust (width : ℕ) (fill : CodePoint) (s : Str) : Str :=
  List.replicate (width - s.length) fill ++ s

/-- `s.ljust(width, fill)`. -/
def ljust (width : ℕ) (fill : CodePoint) (s : Str) : Str :=
  s ++ List.replicate (width - s.length) fill

/-- A natural number in at least so many digits. -/
def padded (width n : ℕ) : Str := rjust width (digit 0) (digits n)

theorem length_rjust (width : ℕ) (fill : CodePoint) (s : Str) :
    (rjust width fill s).length = max width s.length := by
  rw [rjust, List.length_append, List.length_replicate]
  omega

theorem length_digits_le {n width : ℕ} (h : n < 10 ^ width) (hwidth : 1 ≤ width) :
    (digits n).length ≤ width := by
  refine digits_induction (P := fun n s => ∀ w, n < 10 ^ w → 1 ≤ w → s.length ≤ w) ?_ ?_ n
    width h hwidth
  · intro d _ w _ hw
    exact hw
  · intro m d hm _ ih w hlt hw
    obtain ⟨w, rfl⟩ := Nat.exists_eq_succ_of_ne_zero (Nat.pos_iff_ne_zero.mp hw)
    rw [Nat.pow_succ] at hlt
    have hmlt : m < 10 ^ w := by omega
    have hpos : 1 ≤ w := by
      by_contra hzero
      rw [Nat.not_le, Nat.lt_one_iff] at hzero
      rw [hzero, Nat.pow_zero] at hmlt
      omega
    rw [List.length_append, List.length_singleton]
    exact Nat.succ_le_succ (ih w hmlt hpos)

theorem lt_pow_length_digits (n : ℕ) : n < 10 ^ (digits n).length := by
  refine digits_induction (P := fun n s => n < 10 ^ s.length) (fun d hd => hd) ?_ n
  intro m d hm hd ih
  rw [List.length_append, List.length_singleton, Nat.pow_succ]
  omega

/-- Nothing is filled up where there are digits enough. -/
theorem padded_of_pow_le {n w width : ℕ} (h : 10 ^ w ≤ n) (hwidth : width ≤ w + 1) :
    padded width n = digits n := by
  have hlt := Nat.lt_of_le_of_lt h (lt_pow_length_digits n)
  have hlength : w < (digits n).length := (Nat.pow_lt_pow_iff_right (by decide)).mp hlt
  rw [padded, rjust, Nat.sub_eq_zero_of_le (by omega), List.replicate_zero, List.nil_append]

theorem length_padded {n width : ℕ} (h : n < 10 ^ width) (hwidth : 1 ≤ width) :
    (padded width n).length = width := by
  rw [padded, length_rjust, Nat.max_eq_left (length_digits_le h hwidth)]

theorem number_zeros (k : ℕ) : number (List.replicate k (digit 0)) = 0 := by
  induction k with
  | zero => rfl
  | succ k ih => rw [List.replicate_succ', number_concat, ih, val_digit (by omega)]

theorem number_rjust (width : ℕ) (s : Str) : number (rjust width (digit 0) s) = number s := by
  rw [rjust, number_append, number_zeros, Nat.zero_mul, Nat.zero_add]

/-- Zeros behind a number are places. -/
theorem number_ljust (width : ℕ) (s : Str) :
    number (ljust width (digit 0) s) = number s * 10 ^ (width - s.length) := by
  rw [ljust, number_append, number_zeros, List.length_replicate, Nat.add_zero]

theorem number_padded (width n : ℕ) : number (padded width n) = n := by
  rw [padded, number_rjust, number_digits]

theorem padded_injective {width m n : ℕ} (h : padded width m = padded width n) : m = n := by
  rw [← number_padded width m, h, number_padded]

theorem isDigit_of_mem_rjust {width : ℕ} {s : Str} (hs : ∀ c ∈ s, IsDigit c) :
    ∀ c ∈ rjust width (digit 0) s, IsDigit c := by
  intro c hc
  rcases List.mem_append.mp hc with hc | hc
  · rw [List.eq_of_mem_replicate hc]
    exact isDigit_digit (by omega)
  · exact hs c hc

theorem isDigit_of_mem_padded {width n : ℕ} : ∀ c ∈ padded width n, IsDigit c :=
  isDigit_of_mem_rjust isDigit_of_mem_digits

/-! ### Joining -/

/-- `sep.join(parts)`. -/
def join (sep : Str) : List Str → Str
  | [] => []
  | [part] => part
  | part :: parts => part ++ sep ++ join sep parts

theorem join_cons_cons (sep part other : Str) (parts : List Str) :
    join sep (part :: other :: parts) = part ++ sep ++ join sep (other :: parts) := rfl

end Text
