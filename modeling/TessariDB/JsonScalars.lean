import TessariDB.JsonSpelling
import Mathlib.Data.List.Find

/-!
# Texts Read out of JSON

The texts that decimals, durations and instants are written as, read back.

## Main results

* `readDecimal_positional`, `readDuration_spanText`, `readDatetime_spelled`.
-/

namespace TessariDB

namespace JsonValues

open ByteCodec Utf8 Text Calendar Doubles Hex Numerals Timestamps

variable (python : Interpreter)

/-! ### Decimals -/

theorem ne_point_of_isDigit {c : CodePoint} (h : IsDigit c) : c ≠ POINT := by
  rintro rfl
  exact absurd h (by decide)

theorem ne_point_of_mem_signText {z : ℤ} : ∀ c ∈ signText z, c ≠ POINT := by
  intro c hc
  rw [signText] at hc
  split at hc
  · rw [List.mem_singleton.mp hc]
    decide
  · cases hc

/-- A fraction is what stands behind the point. -/
theorem partition_fractionText {s f : Str} (hs : ∀ c ∈ s, c ≠ POINT) :
    ∃ dot, partition POINT (s ++ fractionText f) = (s, dot, f) ∧ (dot = false → f = []) := by
  rw [fractionText]
  split
  · next hf =>
    refine ⟨false, ?_, fun _ => hf⟩
    rw [List.append_nil, partition_of_notMem hs, hf]
  · exact ⟨true, partition_append hs, fun h => by cases h⟩

theorem int_signText_append {z : ℤ} {s : Str} (hne : s ≠ []) (hs : ∀ c ∈ s, IsDigit c)
    (hnumber : number s = z.natAbs) :
    python.int (signText z ++ s) = if python.Converts s.length then some z else none := by
  rw [signText]
  split
  · have hz : -(z.natAbs : ℤ) = z := by omega
    rw [python.int_minus_digits hne hs, hnumber, hz]
  · have hz : (z.natAbs : ℤ) = z := by omega
    rw [List.nil_append, python.int_digits hne hs, hnumber, hz]

/-- The digits of a decimal are its scale and one more, or those of its mantissa. -/
theorem converts_allDigits {n k : ℕ} (hn : n < 10 ^ 40) :
    python.Converts (allDigits n k).length ↔ python.Converts (k + 1) := by
  have hlarge := python.maxDigits_large
  have hdigits := length_digits_le hn (by omega)
  rw [length_allDigits, Interpreter.Converts, Interpreter.Converts]
  omega

/-- What is made of the digits of a decimal. -/
theorem int_allDigits (m : ℤ) (k : ℕ) :
    python.int (signText m ++ allDigits m.natAbs k) =
      if python.Converts (allDigits m.natAbs k).length then some m else none := by
  have hne : allDigits m.natAbs k ≠ [] := by
    rw [← whole_append_fraction]
    exact List.append_ne_nil_of_left_ne_nil (whole_ne_nil _ _) _
  exact int_signText_append python hne isDigit_of_mem_allDigits (number_allDigits _ _)

/-- What is made of the text of a decimal. -/
theorem readDecimal_numeral (m : ℤ) (k : ℕ) :
    readDecimal python (positional m k) =
      if python.Converts (allDigits m.natAbs k).length then .ok (.decimal m k)
      else .error (.malformed (python.repr (.string (positional m k)) ++ " is not a decimal: " ++
        python.why (signText m ++ allDigits m.natAbs k))) := by
  obtain ⟨dot, hpartition, -⟩ := partition_fractionText (s := signText m ++ whole m.natAbs k)
    (f := fraction m.natAbs k) (List.forall_mem_append.mpr
      ⟨ne_point_of_mem_signText, fun c hc => ne_point_of_isDigit (isDigit_of_mem_whole c hc)⟩)
  rw [readDecimal, positional, ← List.append_assoc, hpartition]
  dsimp only
  rw [List.append_assoc, whole_append_fraction, int_allDigits python, length_fraction]
  by_cases hfits : python.Converts (allDigits m.natAbs k).length
  · rw [if_pos hfits, if_pos hfits]
  · rw [if_neg hfits, if_neg hfits]

theorem readDecimal_eq {m : ℤ} {k : ℕ} (hm : m.natAbs < 10 ^ 40) :
    readDecimal python (positional m k) =
      if python.Converts (k + 1) then .ok (.decimal m k)
      else .error (.malformed (python.repr (.string (positional m k)) ++ " is not a decimal: " ++
        python.why (signText m ++ allDigits m.natAbs k))) := by
  simp only [readDecimal_numeral, converts_allDigits python hm]

/-- **A decimal is read back**, if its digits are converted. -/
theorem readDecimal_positional {m : ℤ} {k : ℕ} (hm : m.natAbs < 10 ^ 40)
    (hfits : python.Converts (k + 1)) :
    readDecimal python (positional m k) = .ok (.decimal m k) := by
  rw [readDecimal_eq python hm, if_pos hfits]

/-! ### Durations -/

/-- A unit that is found in the table before a digit, or at the end. -/
structure Known (unit : Str) (nanos : ℕ) : Prop where
  head : ∃ c rest, unit = c :: rest ∧ c.val < 0x80 ∧ ¬ IsDigit c
  found : ∀ r : Str, (∀ c ∈ r.head?, IsDigit c) →
    UNITS.find? (fun u => u.1.isPrefixOf (unit ++ r)) = some (unit, nanos)

/-- No unit begins as the text of another does before a digit. -/
theorem isPrefixOf_append_digit {u unit r : Str} (hr : ∀ c ∈ r.head?, IsDigit c)
    (hlonger : unit.isPrefixOf u → (u.drop unit.length).head?.all fun c => decide (¬ IsDigit c)) :
    u.isPrefixOf (unit ++ r) = u.isPrefixOf unit := by
  rw [Bool.eq_iff_iff, List.isPrefixOf_iff_prefix, List.isPrefixOf_iff_prefix]
  refine ⟨fun hprefix => ?_, fun h => h.trans (List.prefix_append unit r)⟩
  by_cases hle : u.length ≤ unit.length
  · exact List.prefix_of_prefix_length_le hprefix (List.prefix_append unit r) hle
  · obtain ⟨v, rfl⟩ := List.prefix_of_prefix_length_le (List.prefix_append unit r) hprefix (by omega)
    obtain ⟨t, ht⟩ := hprefix
    rw [List.append_assoc] at ht
    obtain ⟨c, v, rfl⟩ := List.exists_cons_of_ne_nil (l := v) (by rintro rfl; simp at hle)
    have hnot := hlonger (List.isPrefixOf_iff_prefix.mpr (List.prefix_append _ _))
    rw [List.drop_left] at hnot
    have hdigit := hr c (by rw [← List.append_cancel_left ht]; rfl)
    exact absurd hdigit (of_decide_eq_true hnot)

theorem known_of {unit : Str} {nanos : ℕ} {c : CodePoint} {rest : Str} (hunit : unit = c :: rest)
    (hascii : c.val < 0x80) (hc : ¬ IsDigit c)
    (hfound : UNITS.find? (fun u => u.1.isPrefixOf unit) = some (unit, nanos))
    (hlonger : ∀ u ∈ UNITS, unit.isPrefixOf u.1 →
      (u.1.drop unit.length).head?.all fun c => decide (¬ IsDigit c)) : Known unit nanos := by
  refine ⟨⟨c, rest, hunit, hascii, hc⟩, fun r hr => ?_⟩
  rw [← hfound]
  exact List.find?_congr fun u hu => isPrefixOf_append_digit hr (hlonger u hu)

/-- One turn of the loop takes a count and its unit. -/
theorem spans_step {text body unit r : Str} {n nanos fuel : ℕ} {total : ℤ} (hn : n < 10 ^ 40)
    (hknown : Known unit nanos) (hr : ∀ c ∈ r.head?, IsDigit c) :
    spans python text body (fuel + 1) (digits n ++ unit ++ r) total =
      spans python text body fuel r (total + n * nanos) := by
  obtain ⟨c, rest, rfl, hascii, hc⟩ := hknown.head
  have hdigits : ∀ d ∈ digits n, python.isdigit d = true := by
    intro d hd
    have hdigit := isDigit_of_mem_digits d hd
    have hval := hdigit
    rw [IsDigit] at hval
    rw [python.isdigit_ascii d (by omega)]
    exact decide_eq_true hdigit
  have hstop : python.isdigit c = false := by
    rw [python.isdigit_ascii c hascii]
    exact decide_eq_false hc
  have hcount : (digits n ++ (c :: rest ++ r)).takeWhile python.isdigit = digits n := by
    rw [List.takeWhile_append_of_pos hdigits, List.cons_append, List.takeWhile_cons_of_neg
      (by rw [hstop]; decide), List.append_nil]
  have hbehind : (digits n ++ (c :: rest ++ r)).dropWhile python.isdigit = c :: rest ++ r := by
    rw [List.dropWhile_append_of_pos hdigits, List.cons_append, List.dropWhile_cons_of_neg
      (by rw [hstop]; decide)]
  have hint := python.int_digits (digits_ne_nil n) isDigit_of_mem_digits
  rw [if_pos (python.converts_of_le (Nat.le_trans (length_digits_le hn (by omega)) (by omega)))] at hint
  rw [List.append_assoc, spans, if_neg (List.append_ne_nil_of_left_ne_nil (digits_ne_nil n) _),
    hcount, hbehind]
  dsimp only
  rw [if_neg (digits_ne_nil n), hint]
  dsimp only
  rw [hknown.found r hr, number_digits]
  dsimp only
  rw [List.drop_left' rfl]

theorem isDigit_head_digits_append {n : ℕ} (r : Str) : ∀ c ∈ (digits n ++ r).head?, IsDigit c := by
  intro c hc
  rw [List.head?_append_of_ne_nil _ (digits_ne_nil n)] at hc
  exact isDigit_of_mem_digits c (List.mem_of_mem_head? hc)

theorem isDigit_head_spanParts (units : List (Str × ℕ)) (n : ℕ) :
    ∀ c ∈ (spanParts units n).head?, IsDigit c := by
  induction units generalizing n with
  | nil =>
      intro c hc
      cases hc
  | cons unit units ih =>
      rw [spanParts]
      split
      · exact ih _
      · rw [List.append_assoc]
        exact isDigit_head_digits_append _

/-- What the parts of a span amount to. -/
def worth : List (Str × ℕ) → ℕ → ℕ
  | [], _ => 0
  | (_, nanos) :: units, n => n / nanos * nanos + worth units (n % nanos)

/-- **The loop adds up the parts of a span.** -/
theorem spans_spanParts {text body : Str} {units : List (Str × ℕ)}
    (hknown : ∀ unit ∈ units, Known unit.1 unit.2) {n : ℕ} (hn : n < 10 ^ 40) {fuel : ℕ}
    (hfuel : (spanParts units n).length ≤ fuel) (total : ℤ) :
    spans python text body fuel (spanParts units n) total = .ok (total + worth units n) := by
  induction units generalizing n fuel total with
  | nil =>
      cases fuel with
      | zero => rw [spans, worth, Int.natCast_zero, Int.add_zero]
      | succ fuel => rw [spans, spanParts, if_pos rfl, worth, Int.natCast_zero, Int.add_zero]
  | cons unit units ih =>
      obtain ⟨hunit, hunits⟩ := List.forall_mem_cons.mp hknown
      have hmod : n % unit.2 < 10 ^ 40 := Nat.lt_of_le_of_lt (Nat.mod_le _ _) hn
      rw [spanParts] at hfuel ⊢
      rw [worth]
      split
      · next hzero =>
        rw [if_pos hzero, List.nil_append] at hfuel
        rw [List.nil_append, ih hunits hmod hfuel, hzero, Nat.zero_mul, Nat.zero_add]
      · next hcount =>
        rw [if_neg hcount, List.length_append, List.length_append] at hfuel
        have hpos := List.length_pos_of_ne_nil (digits_ne_nil (n / unit.2))
        obtain ⟨fuel, rfl⟩ : ∃ k, fuel = k + 1 := ⟨fuel - 1, by omega⟩
        rw [spans_step python (Nat.lt_of_le_of_lt (Nat.div_le_self _ _) hn) hunit
          (isDigit_head_spanParts _ _), ih hunits hmod (by omega)]
        exact congrArg Except.ok (by push_cast; omega)

theorem known_units : ∀ unit ∈ DURATION_UNITS, Known unit.1 unit.2 := by
  simp only [DURATION_UNITS, List.forall_mem_cons]
  refine ⟨?_, ?_, ?_, ?_, ?_, ?_, List.forall_mem_nil _⟩ <;>
    exact known_of rfl (by decide) (by decide) (by decide) (by decide)

theorem worth_units (n : ℕ) : worth DURATION_UNITS n = n := by
  simp only [DURATION_UNITS, worth]
  omega

theorem worth_of_nil {units : List (Str × ℕ)} {n : ℕ} (h : spanParts units n = []) :
    worth units n = 0 := by
  induction units generalizing n with
  | nil => rfl
  | cons unit units ih =>
      rw [spanParts, List.append_eq_nil_iff] at h
      have hzero : n / unit.2 = 0 := by
        by_contra hcount
        rw [if_neg hcount] at h
        exact digits_ne_nil _ (List.append_eq_nil_iff.mp h.1).1
      rw [worth, ih h.2, hzero, Nat.zero_mul]

/-- The sign of a span is taken off, and put back in the end. -/
theorem readDuration_signText (total : ℤ) {body : Str} (hne : body ≠ [])
    (hhead : ∀ c ∈ body.head?, IsDigit c)
    (hspans : ∀ text, spans python text body body.length body 0 = .ok (total.natAbs : ℤ)) :
    readDuration python (signText total ++ body) =
      .ok (.duration (total / 1000000000) (total % 1000000000)) := by
  rw [readDuration, signText]
  split
  · next hneg =>
    have hminus : (ofString "-" ++ body).head? = some (codePoint 0x2D) := rfl
    have htail : (ofString "-" ++ body).tail = body := rfl
    have htotal : -(total.natAbs : ℤ) = total := by omega
    simp only [hminus, if_true, htail, if_neg hne, hspans]
    change Except.ok (Value.duration (-(total.natAbs : ℤ) / _) (-(total.natAbs : ℤ) % _)) = _
    rw [htotal]
  · next hpos =>
    have hplus : ¬ body.head? = some (codePoint 0x2D) := fun h =>
      absurd (hhead _ h) (by decide)
    have htotal : (total.natAbs : ℤ) = total := by omega
    simp only [List.nil_append, hplus, if_false, if_neg hne, hspans, htotal]
    rfl

/-- **A duration is read back.** -/
theorem readDuration_spanText (total : ℤ) (h : total.natAbs < 10 ^ 40) :
    readDuration python (spanText total) =
      .ok (.duration (total / 1000000000) (total % 1000000000)) := by
  rw [spanText]
  split
  · next hzero =>
    subst hzero
    have hknown : Known (ofString "s") 1000000000 :=
      known_units _ (show (ofString "s", 1000000000) ∈ DURATION_UNITS by decide)
    refine readDuration_signText python 0 (by decide) ?_ fun text => ?_
    · exact isDigit_head_digits_append (n := 0) (ofString "s")
    · exact spans_step python (n := 0) (r := []) (by positivity) hknown (by simp)
  · next hzero =>
    refine readDuration_signText python total ?_ (isDigit_head_spanParts _ _) fun text => ?_
    · intro hnil
      have := worth_of_nil hnil
      rw [worth_units] at this
      omega
    · rw [spans_spanParts python known_units h (Nat.le_refl _), worth_units, Int.zero_add]

/-! ### Instants -/

theorem ne_point_of_mem_stamp {yearWidth : ℕ} {m : Moment} : ∀ c ∈ stamp yearWidth m, c ≠ POINT := by
  have hhyphen : ∀ c ∈ ofString "-", c ≠ POINT := forall_mem_of_all (by decide)
  have hcolon : ∀ c ∈ ofString ":", c ≠ POINT := forall_mem_of_all (by decide)
  have htime : ∀ c ∈ ofString "T", c ≠ POINT := forall_mem_of_all (by decide)
  have hpadded : ∀ {width n : ℕ}, ∀ c ∈ padded width n, c ≠ POINT :=
    fun c hc => ne_point_of_isDigit (isDigit_of_mem_padded c hc)
  rw [stamp]
  simp only [List.forall_mem_append]
  exact ⟨⟨⟨⟨⟨⟨⟨⟨⟨⟨hpadded, hhyphen⟩, hpadded⟩, hhyphen⟩, hpadded⟩, htime⟩, hpadded⟩, hcolon⟩,
    hpadded⟩, hcolon⟩, hpadded⟩

theorem isDigit_of_mem_ljust {width : ℕ} {s : Str} (hs : ∀ c ∈ s, IsDigit c) :
    ∀ c ∈ ljust width (digit 0) s, IsDigit c := by
  intro c hc
  rcases List.mem_append.mp hc with hc | hc
  · exact hs c hc
  · rw [List.eq_of_mem_replicate hc]
    exact isDigit_digit (by omega)

/-- **An instant is read back**, in a year of four digits. -/
theorem readDatetime_spelled {seconds nanos : ℤ} {text : Str} {m : Moment}
    (hm : moment seconds = some m) (hyear : 1000 ≤ m.date.year)
    (h : SpellsInstant seconds nanos text) :
    readDatetime python text = .ok (.datetime seconds nanos) := by
  obtain ⟨m', f, hm', htext, hf, hlength, hnanos⟩ := h
  obtain rfl : m = m' := Option.some.inj (hm.symm.trans hm')
  obtain ⟨dot, hpartition, hnone⟩ :=
    partition_fractionText (s := stamp 4 m) (f := f) ne_point_of_mem_stamp
  have hzone : ofString "Z" = [codePoint 0x5A] := rfl
  have hlimit : ¬ 9 < f.length := Nat.not_lt.mpr hlength
  rw [htext, readDatetime, hzone, List.getLast?_concat, if_neg (not_not.mpr rfl),
    List.dropLast_concat, hpartition]
  dsimp only
  rw [if_neg hlimit, python.strptime_stamp m (moment_valid hm) hyear]
  dsimp only
  rw [seconds_moment hm]
  cases dot with
  | false =>
      rw [hnone rfl] at hnanos
      have hzero : number (ljust 9 (digit 0) []) = 0 := by decide
      rw [hzero] at hnanos
      rw [← hnanos]
      rfl
  | true =>
      have hwide : (ljust 9 (digit 0) f).length = 9 := by
        rw [ljust, List.length_append, List.length_replicate]
        omega
      have hne : ljust 9 (digit 0) f ≠ [] := List.ne_nil_of_length_eq_add_one hwide
      have hint := python.int_digits hne (isDigit_of_mem_ljust hf)
      rw [if_pos (python.converts_of_le (by omega))] at hint
      rw [if_pos rfl, hint]
      dsimp only
      rw [hnanos]

end JsonValues

end TessariDB
