import TessariDB.DecimalTexts

/-!
# Which Instants are Read

The reader of an instant takes the fraction apart by hand: no more than nine characters, filled up
with zeros to nine and left to `int`, outside the block that turns a `ValueError` into a refusal.
So a fraction that is not made of digits raises a `ValueError`, or is read as something else.

## Main results

* `instants_are_kept_iff`: the texts that are read to the nanosecond, or refused.
* `negative_fraction_is_read`, in which two are not.
-/

namespace TessariDB

namespace JsonValues

open Utf8 Text Numerals Calendar

def ZONE : CodePoint := codePoint 0x5A

/-- An instant and what stands between it and the `Z`. -/
structure InstantText (text instant behind : Str) : Prop where
  spelled : text = instant ++ behind ++ [ZONE]
  before : ∀ c ∈ instant, c ≠ POINT
  point : behind = [] ∨ ∃ fraction, behind = POINT :: fraction

/-- One to nine digits. -/
structure IsFraction (fraction : Str) : Prop where
  ne : fraction ≠ []
  length : fraction.length ≤ 9
  digits : ∀ c ∈ fraction, IsDigit c

variable (python : Interpreter)

/-- The text is refused, or read as the second of its instant and the nanoseconds of its
fraction. -/
def Kept (text : Str) : Prop :=
  (∃ message, readDatetime python text = .error (.malformed message)) ∨
    ∃ instant behind moment nanos, InstantText text instant behind ∧
      python.strptime instant = some moment ∧
      readDatetime python text = .ok (.datetime moment.seconds nanos) ∧
      0 ≤ nanos ∧ nanos ≤ 999999999 ∧
      (behind = [] → nanos = 0) ∧
      ∀ fraction, behind = POINT :: fraction → IsFraction fraction ∧
        (nanos : ℚ) / 10 ^ 9 = number fraction / 10 ^ fraction.length

/-- A fraction of at most nine characters that are not digits, or of none, behind an instant. -/
def Strays (text : Str) : Prop :=
  ∃ instant fraction, InstantText text instant (POINT :: fraction) ∧ fraction.length ≤ 9 ∧
    (python.strptime instant).isSome ∧ ¬ IsFraction fraction

/-! ### What the reader does -/

variable {text instant behind fraction : Str}

/-- A text is parted in one way. -/
theorem InstantText.unique {instant' behind' : Str} (h : InstantText text instant behind)
    (h' : InstantText text instant' behind') : instant = instant' ∧ behind = behind' := by
  obtain ⟨htext, hbefore, hpoint⟩ := h
  obtain ⟨htext', hbefore', hpoint'⟩ := h'
  have hhead : ∀ {r : Str}, (r = [] ∨ ∃ fraction, r = POINT :: fraction) →
      ∀ c ∈ r.head?, ¬ c ≠ POINT := by
    rintro r (rfl | ⟨fraction, rfl⟩) c hc
    · cases hc
    · cases hc
      exact not_not.mpr rfl
  refine run_append_inj hbefore hbefore' (hhead hpoint) (hhead hpoint') ?_
  exact List.append_cancel_right (htext.symm.trans htext')

/-- Every text that ends in a `Z` is parted. -/
theorem exists_instantText (h : text.getLast? = some ZONE) :
    ∃ instant behind, InstantText text instant behind := by
  obtain ⟨t, rfl⟩ := List.getLast?_eq_some_iff.mp h
  rcases partition_cases POINT t with ⟨hall, -⟩ | ⟨instant, fraction, hall, rfl, -⟩
  · exact ⟨t, [], by rw [List.append_nil], hall, .inl rfl⟩
  · exact ⟨instant, POINT :: fraction, rfl, hall, .inr ⟨fraction, rfl⟩⟩

theorem refused_of_zone (h : text.getLast? ≠ some ZONE) :
    ∃ message, readDatetime python text = .error (.malformed message) :=
  ⟨_, by rw [readDatetime]; exact if_pos h⟩

/-- What is made of an instant without a fraction. -/
theorem readDatetime_whole (h : InstantText text instant []) :
    (∃ message, readDatetime python text = .error (.malformed message)) ∨
      ∃ moment, python.strptime instant = some moment ∧
        readDatetime python text = .ok (.datetime moment.seconds 0) := by
  obtain ⟨rfl, hbefore, -⟩ := h
  rw [List.append_nil, ZONE, readDatetime, List.getLast?_concat, if_neg (not_not.mpr rfl),
    List.dropLast_concat, partition_of_notMem hbefore]
  dsimp only
  rw [if_neg (by decide)]
  cases hmoment : python.strptime instant with
  | none => exact .inl ⟨_, rfl⟩
  | some moment => exact .inr ⟨moment, rfl, rfl⟩

/-- What is made of an instant and a fraction. -/
theorem readDatetime_fraction (h : InstantText text instant (POINT :: fraction)) :
    ((9 < fraction.length ∨ python.strptime instant = none) ∧
        ∃ message, readDatetime python text = .error (.malformed message)) ∨
      ∃ moment, fraction.length ≤ 9 ∧ python.strptime instant = some moment ∧
        (∀ nanos, python.int (ljust 9 (digit 0) fraction) = some nanos →
          readDatetime python text = .ok (.datetime moment.seconds nanos)) ∧
        (python.int (ljust 9 (digit 0) fraction) = none →
          ∃ why, readDatetime python text = .error (.valueError why)) := by
  obtain ⟨rfl, hbefore, -⟩ := h
  rw [ZONE, readDatetime, List.getLast?_concat, if_neg (not_not.mpr rfl), List.dropLast_concat,
    partition_append hbefore]
  dsimp only
  by_cases hlong : 9 < fraction.length
  · rw [if_pos hlong]
    exact .inl ⟨.inl hlong, _, rfl⟩
  · rw [if_neg hlong]
    cases hmoment : python.strptime instant with
    | none => exact .inl ⟨.inr rfl, _, rfl⟩
    | some moment =>
        refine .inr ⟨moment, Nat.le_of_not_lt hlong, rfl, fun nanos hnanos => ?_, fun hnone => ?_⟩
        · dsimp only
          rw [if_pos rfl, hnanos]
        · dsimp only
          rw [if_pos rfl, hnone]
          exact ⟨_, rfl⟩

/-- Up to nine digits are a number of nanoseconds. -/
theorem int_fraction (h : IsFraction fraction) :
    ∃ nanos, python.int (ljust 9 (digit 0) fraction) = some nanos ∧ 0 ≤ nanos ∧ nanos ≤ 999999999 ∧
      (nanos : ℚ) / 10 ^ 9 = number fraction / 10 ^ fraction.length := by
  obtain ⟨hne, hlength, hdigits⟩ := h
  have hwide : (ljust 9 (digit 0) fraction).length = 9 := by
    rw [ljust, List.length_append, List.length_replicate]
    omega
  have hint := python.int_digits (List.ne_nil_of_length_eq_add_one hwide) (isDigit_of_mem_ljust hdigits)
  rw [if_pos (python.converts_of_le (by omega)), number_ljust] at hint
  have hlt := python.int_lt hint
  rw [hwide] at hlt
  refine ⟨_, hint, Int.natCast_nonneg _, by omega, ?_⟩
  have hsplit : (10 : ℚ) ^ 9 = 10 ^ (9 - fraction.length) * 10 ^ fraction.length := by
    rw [← pow_add, Nat.sub_add_cancel hlength]
  rw [hsplit]
  push_cast
  have hpow : (10 : ℚ) ^ (9 - fraction.length) ≠ 0 := pow_ne_zero _ (by norm_num)
  field_simp

/-- **Which instants are kept.** A text is refused, or read to the nanosecond, unless an instant is
followed by a fraction of at most nine characters that is not one to nine digits. -/
theorem instants_are_kept_iff (python : Interpreter) (text : Str) :
    Kept python text ↔ ¬ Strays python text := by
  constructor
  · rintro hkept ⟨instant, fraction, htext, hlength, hinstant, hstrays⟩
    rcases hkept with ⟨message, h⟩ | ⟨instant', behind, moment, nanos, htext', -, -, -, -, -, hall⟩
    · rcases readDatetime_fraction python htext with
        ⟨hlong | hnone, -⟩ | ⟨moment, -, -, hsome, hnone⟩
      · omega
      · rw [hnone] at hinstant
        cases hinstant
      · cases hint : python.int (ljust 9 (digit 0) fraction) with
        | none =>
            obtain ⟨why, hread⟩ := hnone hint
            cases h.symm.trans hread
        | some nanos => cases h.symm.trans (hsome nanos hint)
    · obtain ⟨-, rfl⟩ := htext.unique htext'
      exact hstrays (hall fraction rfl).1
  · intro hnot
    by_cases hzone : text.getLast? = some ZONE
    · obtain ⟨instant, behind, htext⟩ := exists_instantText hzone
      rcases htext.point with rfl | ⟨fraction, rfl⟩
      · rcases readDatetime_whole python htext with hrefused | ⟨moment, hmoment, hread⟩
        · exact .inl hrefused
        · exact .inr ⟨instant, [], moment, 0, htext, hmoment, hread, by decide, by decide,
            fun _ => rfl, fun fraction h => by cases h⟩
      · rcases readDatetime_fraction python htext with
          ⟨-, hrefused⟩ | ⟨moment, hlength, hmoment, hsome, -⟩
        · exact .inl hrefused
        · have hfraction : IsFraction fraction := by
            by_contra hstrays
            exact hnot ⟨instant, fraction, htext, hlength, by rw [hmoment]; rfl, hstrays⟩
          obtain ⟨nanos, hint, hpos, hlt, hvalue⟩ := int_fraction python hfraction
          refine .inr ⟨instant, _, moment, nanos, htext, hmoment, hsome nanos hint, hpos, hlt,
            fun h => (by cases h), fun fraction' h => ?_⟩
          obtain ⟨-, rfl⟩ := List.cons.inj h
          exact ⟨hfraction, hvalue⟩
    · exact .inl (refused_of_zone python hzone)

set_option maxRecDepth 4000 in
/-- A minus sign is read as part of the fraction; a letter is no refusal. -/
theorem negative_fraction_is_read :
    readDatetime (asciiInterpreter 0 unlimited) (ofString "1970-01-01T00:00:00.-5Z") =
        .ok (.datetime 0 (-50000000)) ∧
      ¬ Kept (asciiInterpreter 0 unlimited) (ofString "1970-01-01T00:00:00.-5Z") ∧
      readDatetime (asciiInterpreter 0 unlimited) (ofString "1970-01-01T00:00:00.xZ") =
        .error (.valueError []) ∧
      ¬ Kept (asciiInterpreter 0 unlimited) (ofString "1970-01-01T00:00:00.xZ") := by
  have hread : readDatetime (asciiInterpreter 0 unlimited) (ofString "1970-01-01T00:00:00.-5Z") =
    .ok (.datetime 0 (-50000000)) := rfl
  refine ⟨hread, ?_, rfl, ?_⟩
  · rintro (⟨message, h⟩ | ⟨instant, behind, moment, nanos, -, -, h, hpos, -⟩)
    · cases h
    · obtain ⟨-, rfl⟩ := Value.datetime.inj (Except.ok.inj (h.symm.trans hread))
      exact absurd hpos (by decide)
  · rintro (⟨message, h⟩ | ⟨instant, behind, moment, nanos, -, -, h, -⟩)
    · cases h
    · cases h

end JsonValues

end TessariDB
