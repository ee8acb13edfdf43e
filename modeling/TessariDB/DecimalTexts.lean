import TessariDB.Integers
import TessariDB.JsonRestored
import Mathlib.Tactic.FieldSimp

/-!
# Which Decimals are Read

The reader of a decimal parts the text at its first point, joins the two sides again and leaves
the rest to `int`, which takes white space, a plus sign, underscores and digits of any script; the
scale is the length of the right side as it was. So a text that is no decimal may be read as one,
and white space or an underscore behind the point counts as a digit.

## Main results

* `decimals_are_denoted_iff`: the texts that are read as the number they denote, or refused.
* `trailing_space_is_a_digit`: one that is not.
-/

namespace TessariDB

namespace JsonValues

open Utf8 Text Numerals

/-! ### The numbers texts denote -/

/-- An optional minus sign, digits, and optionally a point and digits. -/
structure DecimalText (text : Str) (negative : Bool) (whole fraction : Str) : Prop where
  spelled : text = (if negative then ofString "-" else []) ++ (whole ++ fractionText fraction)
  whole_ne : whole ≠ []
  whole_digits : ∀ c ∈ whole, IsDigit c
  fraction_digits : ∀ c ∈ fraction, IsDigit c

/-- The number a decimal is written as. -/
def written (negative : Bool) (whole fraction : Str) : ℚ :=
  (if negative then -1 else 1) * (number whole + number fraction / 10 ^ fraction.length)

variable (python : Interpreter)

/-- The text is refused, or read as the number it denotes, with a digit of scale for each digit
behind the point. -/
def Denoted (text : Str) : Prop :=
  (∃ message, readDecimal python text = .error (.malformed message)) ∨
    ∃ negative whole fraction, DecimalText text negative whole fraction ∧
      ∃ mantissa, readDecimal python text = .ok (.decimal mantissa fraction.length) ∧
        (mantissa : ℚ) / 10 ^ fraction.length = written negative whole fraction

/-! ### What the reader does -/

variable {python} {text : Str}

/-- The reader refuses exactly what `int` does, the point aside. -/
theorem readDecimal_refuses_iff :
    (∃ message, readDecimal python text = .error (.malformed message)) ↔
      ¬ python.Integral (text.erase POINT) := by
  rw [← python.int_eq_none_iff, ← partition_join, readDecimal]
  dsimp only
  cases hint : python.int ((partition POINT text).1 ++ (partition POINT text).2.2) with
  | none => exact iff_of_true ⟨_, rfl⟩ rfl
  | some mantissa =>
      refine iff_of_false ?_ (by simp)
      rintro ⟨message, h⟩
      cases h

theorem int_minus_append {negative : Bool} {s : Str} (hne : s ≠ []) (hs : ∀ c ∈ s, IsDigit c) :
    python.int ((if negative then ofString "-" else []) ++ s) =
      if python.Converts s.length then some ((if negative then -1 else 1) * (number s : ℤ))
      else none := by
  cases negative with
  | true =>
      rw [if_pos rfl, if_pos rfl, python.int_minus_digits hne hs, neg_one_mul]
  | false =>
      rw [if_neg Bool.false_ne_true, if_neg Bool.false_ne_true, List.nil_append,
        python.int_digits hne hs, one_mul]

/-- A decimal is read, if its digits are converted. -/
theorem readDecimal_of_text (python : Interpreter) {negative : Bool} {whole fraction : Str}
    (h : DecimalText text negative whole fraction) :
    (∃ message, readDecimal python text = .error (.malformed message)) ∨
      readDecimal python text = .ok (.decimal
        ((if negative then -1 else 1) * (number (whole ++ fraction) : ℤ)) fraction.length) := by
  obtain ⟨htext, hne, hwhole, hfraction⟩ := h
  have hpoint : ∀ c ∈ (if negative then ofString "-" else []) ++ whole, c ≠ POINT := by
    refine List.forall_mem_append.mpr ⟨fun c hc => ?_, fun c hc => ne_point_of_isDigit (hwhole c hc)⟩
    split at hc
    · rw [List.mem_singleton.mp hc]
      decide
    · cases hc
  obtain ⟨dot, hpartition, -⟩ := partition_fractionText (f := fraction) hpoint
  rw [← List.append_assoc] at htext
  rw [readDecimal, htext, hpartition]
  dsimp only
  rw [List.append_assoc, int_minus_append (List.append_ne_nil_of_left_ne_nil hne _)
    (List.forall_mem_append.mpr ⟨hwhole, hfraction⟩)]
  by_cases hfits : python.Converts (whole ++ fraction).length
  · rw [if_pos hfits]
    exact .inr rfl
  · rw [if_neg hfits]
    exact .inl ⟨_, rfl⟩

/-- The digits on both sides of the point are those of the number, so many places up. -/
theorem number_div_eq_written (negative : Bool) (whole fraction : Str) :
    (((if negative then -1 else 1) * (number (whole ++ fraction) : ℤ) : ℤ) : ℚ) /
      10 ^ fraction.length = written negative whole fraction := by
  have hpow : (10 : ℚ) ^ fraction.length ≠ 0 := pow_ne_zero _ (by norm_num)
  rw [written, number_append]
  cases negative <;> push_cast <;> field_simp

/-- **Which decimals are read as what they denote.** A text is refused or read as the number it
denotes exactly when it is a decimal, or is no integer once its point is gone. -/
theorem decimals_are_denoted_iff (python : Interpreter) (text : Str) :
    Denoted python text ↔
      (∃ negative whole fraction, DecimalText text negative whole fraction) ∨
        ¬ python.Integral (text.erase POINT) := by
  constructor
  · rintro (hrefused | ⟨negative, whole, fraction, htext, -⟩)
    · exact .inr (readDecimal_refuses_iff.mp hrefused)
    · exact .inl ⟨negative, whole, fraction, htext⟩
  · rintro (⟨negative, whole, fraction, htext⟩ | hint)
    · rcases readDecimal_of_text python htext with hrefused | hread
      · exact .inl hrefused
      · exact .inr ⟨negative, whole, fraction, htext, _, hread, number_div_eq_written _ _ _⟩
    · exact .inl (readDecimal_refuses_iff.mpr hint)

/-- Whatever stands in a decimal is its sign, its point or a digit. -/
theorem DecimalText.chars {negative : Bool} {whole fraction : Str}
    (h : DecimalText text negative whole fraction) :
    ∀ c ∈ text, c = codePoint 0x2D ∨ c = POINT ∨ IsDigit c := by
  obtain ⟨rfl, -, hwhole, hfraction⟩ := h
  intro c hc
  rw [List.mem_append, List.mem_append] at hc
  rcases hc with hc | hc | hc
  · split at hc
    · exact .inl (List.mem_singleton.mp hc)
    · cases hc
  · exact .inr (.inr (hwhole c hc))
  · rw [fractionText] at hc
    split at hc
    · cases hc
    · rcases List.mem_append.mp hc with hc | hc
      · exact .inr (.inl (List.mem_singleton.mp hc))
      · exact .inr (.inr (hfraction c hc))

/-- One and a half with a space behind it is read as fifteen hundredths. -/
theorem trailing_space_is_a_digit :
    readDecimal (asciiInterpreter 0 unlimited) (ofString "1.5 ") = .ok (.decimal 15 2) ∧
      ¬ Denoted (asciiInterpreter 0 unlimited) (ofString "1.5 ") := by
  refine ⟨rfl, ?_⟩
  rintro (⟨message, h⟩ | ⟨negative, whole, fraction, htext, -⟩)
  · cases h
  · have hspace : codePoint 0x20 ∈ ofString "1.5 " := by decide
    have hchar := htext.chars _ hspace
    revert hchar
    decide

end JsonValues

end TessariDB
