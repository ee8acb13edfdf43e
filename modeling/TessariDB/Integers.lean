import TessariDB.Json

/-!
# The Texts of Integers

What `int(s)` takes, described and not computed: white space aside, a sign or none, and decimal
digits of any script with single underscores between them, no more of them than are converted.

## Main results

* `Interpreter.int_isSome_iff`: these are the texts that are converted.
-/

namespace TessariDB

open Utf8 Text

namespace Interpreter

variable (python : Interpreter)

/-- Decimal digits of any script, with single underscores between them. -/
inductive Run : Str → Prop where
  | digit {c : CodePoint} {d : ℕ} (hc : python.decimal c = some d) : Run [c]
  | before {c : CodePoint} {d : ℕ} {s : Str} (hc : python.decimal c = some d) (hs : Run s) :
      Run (c :: s)
  | apart {c u : CodePoint} {d : ℕ} {s : Str} (hc : python.decimal c = some d) (hu : u.val = 0x5F)
      (hs : Run s) : Run (c :: u :: s)

/-- How many of the characters are digits. -/
def digitCount (s : Str) : ℕ := s.countP fun c => (python.decimal c).isSome

/-- The text of an integer, white space around it aside. -/
structure Integral (s : Str) : Prop where
  spelled : ∃ sign run, python.strip s = sign ++ run ∧
    (sign = [] ∨ sign = ofString "-" ∨ sign = ofString "+") ∧ python.Run run ∧
      python.Converts (python.digitCount run)

variable {python}

/-- An underscore is no digit of any script. -/
theorem decimal_underscore {c : CodePoint} (hc : c.val = 0x5F) : python.decimal c = none := by
  rw [python.decimal_ascii c (by omega), if_neg]
  rw [IsDigit]
  omega

theorem digitValues_isSome_iff (s : Str) :
    ((python.digitValues false s).isSome ↔ python.Run s) ∧
      ((python.digitValues true s).isSome ↔
        s = [] ∨ python.Run s ∨ ∃ u t, s = u :: t ∧ u.val = 0x5F ∧ python.Run t) := by
  induction s with
  | nil =>
      refine ⟨iff_of_false (by simp [digitValues]) fun h => ?_, iff_of_true rfl (.inl rfl)⟩
      cases h
  | cons c s ih =>
      obtain ⟨ihfalse, ihtrue⟩ := ih
      rw [digitValues, digitValues]
      cases hc : python.decimal c with
      | some d =>
          have hc' : c.val ≠ 0x5F := fun hu => by
            rw [decimal_underscore hu] at hc
            cases hc
          have hrun : ((python.digitValues true s).map (d :: ·)).isSome ↔ python.Run (c :: s) := by
            rw [Option.isSome_map, ihtrue]
            constructor
            · rintro (rfl | hs | ⟨u, t, rfl, hu, ht⟩)
              · exact .digit hc
              · exact .before hc hs
              · exact .apart hc hu ht
            · intro h
              cases h with
              | digit _ => exact .inl rfl
              | before _ hs => exact .inr (.inl hs)
              | apart _ hu ht => exact .inr (.inr ⟨_, _, rfl, hu, ht⟩)
          refine ⟨hrun, hrun.trans ⟨fun h => .inr (.inl h), ?_⟩⟩
          rintro (h | h | ⟨u, t, h, hu, -⟩)
          · cases h
          · exact h
          · cases h
            exact absurd hu hc'
      | none =>
          have hno : ¬ python.Run (c :: s) := by
            intro h
            cases h with
            | digit h | before h _ | apart h _ _ => cases hc.symm.trans h
          refine ⟨iff_of_false (by simp) hno, ?_⟩
          by_cases hu : c.val = 0x5F
          · rw [if_pos ⟨rfl, hu⟩, ihfalse]
            constructor
            · exact fun h => .inr (.inr ⟨c, s, rfl, hu, h⟩)
            · rintro (h | h | ⟨u, t, h, -, ht⟩)
              · cases h
              · exact absurd h hno
              · cases h
                exact ht
          · rw [if_neg fun h => hu h.2]
            refine iff_of_false (by simp) ?_
            rintro (h | h | ⟨u, t, h, hu', -⟩)
            · cases h
            · exact hno h
            · cases h
              exact hu hu'

theorem length_digitValues {behindDigit : Bool} {s : Str} {ds : List ℕ}
    (h : python.digitValues behindDigit s = some ds) : ds.length = python.digitCount s := by
  induction s generalizing behindDigit ds with
  | nil =>
      rw [digitValues] at h
      split at h
      · cases h
        rfl
      · cases h
  | cons c s ih =>
      rw [digitValues] at h
      cases hc : python.decimal c with
      | some d =>
          rw [hc] at h
          obtain ⟨ds', hds', rfl⟩ := Option.map_eq_some_iff.mp h
          rw [digitCount, List.countP_cons, ← digitCount, ← ih hds', hc]
          rfl
      | none =>
          rw [hc] at h
          dsimp only at h
          split at h
          · rw [digitCount, List.countP_cons, ← digitCount, ← ih h, hc]
            rfl
          · cases h

theorem magnitude_isSome_iff (s : Str) :
    (python.magnitude s).isSome ↔ python.Run s ∧ python.Converts (python.digitCount s) := by
  have hrun := (python.digitValues_isSome_iff s).1
  rw [magnitude]
  cases hds : python.digitValues false s with
  | none =>
      rw [hds] at hrun
      exact iff_of_false (by simp) fun h => by simpa using hrun.mpr h.1
  | some ds =>
      rw [hds] at hrun
      rw [← length_digitValues hds, and_iff_right (hrun.mp rfl), Converts]
      dsimp only
      split
      · next hlong => exact iff_of_false (by simp) (by omega)
      · next hshort => exact iff_of_true rfl (by omega)

/-- A run of digits begins with neither sign. -/
theorem Run.head {s : Str} (h : python.Run s) :
    ∃ c t, s = c :: t ∧ c.val ≠ 0x2D ∧ c.val ≠ 0x2B := by
  have hdigit : ∀ {c : CodePoint} {d : ℕ}, python.decimal c = some d →
      c.val ≠ 0x2D ∧ c.val ≠ 0x2B := by
    intro c d hc
    constructor <;> intro hsign <;> rw [python.decimal_ascii c (by omega), if_neg] at hc
    · cases hc
    · rw [IsDigit]
      omega
    · cases hc
    · rw [IsDigit]
      omega
  cases h with
  | digit hc | before hc _ | apart hc _ _ => exact ⟨_, _, rfl, hdigit hc⟩

theorem magnitude_head {c : CodePoint} {rest : Str} (h : (python.magnitude (c :: rest)).isSome) :
    c.val ≠ 0x2D ∧ c.val ≠ 0x2B := by
  obtain ⟨d, t, heq, hminus, hplus⟩ := ((magnitude_isSome_iff _).mp h).1.head
  obtain ⟨rfl, -⟩ := List.cons.inj heq
  exact ⟨hminus, hplus⟩

theorem magnitude_nil : ¬ (python.magnitude []).isSome := by
  intro h
  obtain ⟨c, t, heq, -⟩ := ((magnitude_isSome_iff _).mp h).1.head
  cases heq

/-- A text by its first character, the white space being gone. -/
theorem integral_iff {s : Str} {c : CodePoint} {rest : Str} (hstrip : python.strip s = c :: rest) :
    python.Integral s ↔
      if c.val = 0x2D ∨ c.val = 0x2B then (python.magnitude rest).isSome
      else (python.magnitude (c :: rest)).isSome := by
  have hminus : ofString "-" = [codePoint 0x2D] := rfl
  have hplus : ofString "+" = [codePoint 0x2B] := rfl
  constructor
  · rintro ⟨sign, run, hsplit, hsign, hrun⟩
    rw [hstrip] at hsplit
    rw [← magnitude_isSome_iff] at hrun
    rcases hsign with rfl | rfl | rfl
    · rw [List.nil_append] at hsplit
      rw [← hsplit] at hrun
      have hhead := magnitude_head hrun
      rw [if_neg (by omega)]
      exact hrun
    · rw [hminus] at hsplit
      obtain ⟨rfl, rfl⟩ := List.cons.inj hsplit
      rw [if_pos (.inl (by decide))]
      exact hrun
    · rw [hplus] at hsplit
      obtain ⟨rfl, rfl⟩ := List.cons.inj hsplit
      rw [if_pos (.inr (by decide))]
      exact hrun
  · intro h
    split at h
    · next hsign =>
      rw [magnitude_isSome_iff] at h
      rcases hsign with hsign | hsign
      · refine ⟨_, rest, ?_, .inr (.inl rfl), h⟩
        rw [hstrip, hminus, codePoint_eq_of_val hsign.symm]
        rfl
      · refine ⟨_, rest, ?_, .inr (.inr rfl), h⟩
        rw [hstrip, hplus, codePoint_eq_of_val hsign.symm]
        rfl
    · rw [magnitude_isSome_iff] at h
      exact ⟨[], _, hstrip, .inl rfl, h⟩

/-- **The texts that are converted are the texts of integers.** -/
theorem int_isSome_iff (s : Str) : (python.int s).isSome ↔ python.Integral s := by
  rw [int]
  cases hstrip : python.strip s with
  | nil =>
      refine iff_of_false (by simp) ?_
      rintro ⟨sign, run, hsplit, -, hrun⟩
      rw [hstrip] at hsplit
      obtain ⟨-, rfl⟩ := List.append_eq_nil_iff.mp hsplit.symm
      exact magnitude_nil ((magnitude_isSome_iff _).mpr hrun)
  | cons c rest =>
      rw [integral_iff hstrip]
      dsimp only
      by_cases hminus : c.val = 0x2D
      · rw [if_pos hminus, if_pos (.inl hminus), Option.isSome_map]
      by_cases hplus : c.val = 0x2B
      · rw [if_neg hminus, if_pos hplus, if_pos (.inr hplus), Option.isSome_map]
      · rw [if_neg hminus, if_neg hplus, if_neg (by omega), Option.isSome_map]

theorem int_eq_none_iff (s : Str) : python.int s = none ↔ ¬ python.Integral s := by
  rw [← int_isSome_iff, Option.not_isSome_iff_eq_none]

end Interpreter

end TessariDB
