import TessariDB.Text

/-!
# Decimal Numerals

A mantissa and a number of digits behind the point, written positionally: a sign, at least one
digit, and a point only if digits follow it.

## Main results

* `whole_append_fraction`, `length_fraction`: where the digits of the mantissa stand.
* `positional_injective`: mantissa and scale are known by the numeral.
-/

namespace Numerals

open Utf8 Text

def POINT : CodePoint := codePoint 0x2E

/-- The digits of a number, at least one of them before the point. -/
def allDigits (n scale : ℕ) : Str := rjust (scale + 1) (digit 0) (digits n)

/-- The digits before the point. -/
def whole (n scale : ℕ) : Str := (allDigits n scale).take ((allDigits n scale).length - scale)

/-- The digits behind it. -/
def fraction (n scale : ℕ) : Str := (allDigits n scale).drop ((allDigits n scale).length - scale)

def signText (z : ℤ) : Str := if z < 0 then "-" else []

/-- What stands behind the whole part. -/
def fractionText (fraction : Str) : Str := if fraction = [] then [] else "." ++ fraction

/-- The numeral of `mantissa / 10 ^ scale`. -/
def positional (mantissa : ℤ) (scale : ℕ) : Str :=
  signText mantissa ++ (whole mantissa.natAbs scale ++ fractionText (fraction mantissa.natAbs scale))

theorem whole_append_fraction (n scale : ℕ) : whole n scale ++ fraction n scale = allDigits n scale :=
  List.take_append_drop _ _

theorem number_allDigits (n scale : ℕ) : number (allDigits n scale) = n := by
  rw [allDigits, number_rjust, number_digits]

theorem isDigit_of_mem_allDigits {n scale : ℕ} : ∀ c ∈ allDigits n scale, IsDigit c :=
  isDigit_of_mem_rjust isDigit_of_mem_digits

theorem isDigit_of_mem_whole {n scale : ℕ} : ∀ c ∈ whole n scale, IsDigit c :=
  fun c hc => isDigit_of_mem_allDigits c (List.mem_of_mem_take hc)

theorem isDigit_of_mem_fraction {n scale : ℕ} : ∀ c ∈ fraction n scale, IsDigit c :=
  fun c hc => isDigit_of_mem_allDigits c (List.mem_of_mem_drop hc)

theorem length_allDigits (n scale : ℕ) :
    (allDigits n scale).length = max (scale + 1) (digits n).length := length_rjust _ _ _

theorem length_fraction (n scale : ℕ) : (fraction n scale).length = scale := by
  have := length_allDigits n scale
  rw [fraction, List.length_drop]
  omega

theorem whole_ne_nil (n scale : ℕ) : whole n scale ≠ [] := by
  have := length_allDigits n scale
  refine List.ne_nil_of_length_pos ?_
  rw [whole, List.length_take]
  omega

theorem fraction_zero (n : ℕ) : fraction n 0 = [] :=
  List.eq_nil_of_length_eq_zero (length_fraction n 0)

/-- Without a scale there is nothing to fill up. -/
theorem whole_zero (n : ℕ) : whole n 0 = digits n := by
  have hpos := List.length_pos_of_ne_nil (digits_ne_nil n)
  have h := whole_append_fraction n 0
  rw [fraction_zero, List.append_nil, allDigits, rjust, Nat.sub_eq_zero_of_le (by omega),
    List.replicate_zero, List.nil_append] at h
  exact h

theorem fraction_ne_nil {n scale : ℕ} (h : 0 < scale) : fraction n scale ≠ [] :=
  List.ne_nil_of_length_pos (by rwa [length_fraction])

/-! ### Reading -/

theorem not_isDigit_head {c : CodePoint} {s : Str} (hc : ¬ IsDigit c) :
    ∀ d ∈ (c :: s).head?, ¬ IsDigit d := by
  intro d hd
  obtain rfl : c = d := Option.some.inj hd
  exact hc

theorem not_isDigit_head_fractionText (fraction : Str) :
    ∀ c ∈ (fractionText fraction).head?, ¬ IsDigit c := by
  intro c hc
  rw [fractionText] at hc
  split at hc
  · cases hc
  · exact not_isDigit_head (c := codePoint 0x2E) (by decide) c hc

theorem fractionText_injective {s t : Str} (h : fractionText s = fractionText t) : s = t := by
  rw [fractionText, fractionText] at h
  split at h
  · next hs =>
    split at h
    · next ht => rw [hs, ht]
    · cases h
  · split at h
    · cases h
    · exact List.append_cancel_left h

theorem isDigit_head_whole_append {n scale : ℕ} (r : Str) : ∀ c ∈ (whole n scale ++ r).head?, IsDigit c := by
  intro c hc
  rw [List.head?_append_of_ne_nil _ (whole_ne_nil n scale)] at hc
  exact isDigit_of_mem_whole c (List.mem_of_mem_head? hc)

/-- A sign ends where the digits begin. -/
theorem signText_append_inj {z z' : ℤ} {r r' : Str} (hne : r ≠ []) (hne' : r' ≠ [])
    (hr : ∀ c ∈ r.head?, IsDigit c) (hr' : ∀ c ∈ r'.head?, IsDigit c)
    (h : signText z ++ r = signText z' ++ r') : (z < 0 ↔ z' < 0) ∧ r = r' := by
  have hminus : ∀ {s t : Str}, s ≠ [] → (∀ c ∈ s.head?, IsDigit c) → s ≠ ofString "-" ++ t := by
    rintro s t - hs rfl
    exact absurd (hs (codePoint 0x2D) rfl) (by decide)
  rw [signText, signText] at h
  split at h <;> split at h
  · next hz hz' => exact ⟨iff_of_true hz hz', List.append_cancel_left h⟩
  · exact absurd h.symm (hminus hne' hr')
  · exact absurd h (hminus hne hr)
  · next hz hz' => exact ⟨iff_of_false hz hz', h⟩

/-- **Mantissa and scale are known by the numeral.** -/
theorem positional_injective {m m' : ℤ} {k k' : ℕ} (h : positional m k = positional m' k') :
    m = m' ∧ k = k' := by
  obtain ⟨hsign, hrest⟩ := signText_append_inj
    (List.append_ne_nil_of_left_ne_nil (whole_ne_nil _ _) _)
    (List.append_ne_nil_of_left_ne_nil (whole_ne_nil _ _) _)
    (isDigit_head_whole_append _) (isDigit_head_whole_append _) h
  obtain ⟨hwhole, htext⟩ := run_append_inj isDigit_of_mem_whole isDigit_of_mem_whole
    (not_isDigit_head_fractionText _) (not_isDigit_head_fractionText _) hrest
  have hfraction := fractionText_injective htext
  have hscale := congrArg List.length hfraction
  have habs : number (allDigits m.natAbs k) = number (allDigits m'.natAbs k') := by
    rw [← whole_append_fraction, hwhole, hfraction, whole_append_fraction]
  rw [number_allDigits, number_allDigits] at habs
  rw [length_fraction, length_fraction] at hscale
  exact ⟨by omega, hscale⟩

end Numerals
