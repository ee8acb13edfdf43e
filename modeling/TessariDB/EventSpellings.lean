import TessariDB.Events
import TessariDB.JsonRestored

/-!
# Event Spellings Read as JSON

A decimal and an instant, written by the event renderer and read by the readers of JSON
(`_decimal` and `_instant` of `_events.py` against `_decimal` and `_datetime` of `_json.py`).

The decimals agree at every mantissa and every scale. The instants agree from the year 1000 on:
where `strftime` does not fill up the year, one of less than four digits is spelled in a form that
`strptime` does not take.

## Main results

* `readDecimal_decimal`: a decimal is read back from its spelling.
* `instant_read_back_iff`: the instants that are read back from theirs.
-/

namespace TessariDB

namespace EventSpellings

open ByteCodec Utf8 Text Calendar Numerals Timestamps JsonValues

variable (python : Interpreter) (platform : Platform)

/-! ### Decimals -/

theorem drop_decimal (mantissa : ℤ) (scale : ℕ) :
    (Events.decimal mantissa scale).drop 4 = positional mantissa scale := by
  rw [Events.decimal, Events.numeral_eq]
  exact List.drop_left' rfl

/-- **A decimal is read back**, whatever its mantissa and its scale. -/
theorem readDecimal_decimal (hlimit : python.maxDigits = 0) (mantissa : ℤ) (scale : ℕ) :
    readDecimal python ((Events.decimal mantissa scale).drop 4) = .ok (.decimal mantissa scale) := by
  have hfits : python.Converts (allDigits mantissa.natAbs scale).length := Or.inl hlimit
  rw [drop_decimal, readDecimal_numeral, if_pos hfits]

/-! ### Instants -/

/-- The digits behind the point of an instant. -/
def fractionDigits (nanos : ℤ) : Str := if nanos ≠ 0 then padded 9 nanos.natAbs else []

theorem isDigit_of_mem_fractionDigits {nanos : ℤ} : ∀ c ∈ fractionDigits nanos, IsDigit c := by
  intro c hc
  rw [fractionDigits] at hc
  split at hc
  · exact isDigit_of_mem_padded c hc
  · cases hc

/-- An instant, a point and a fraction, and the zone. -/
theorem instantText_eq (m : Moment) {nanos : ℤ} (hpos : 0 ≤ nanos) (hlt : nanos ≤ 999999999) :
    Events.instantText platform m nanos =
      stamp platform.yearWidth m ++ fractionText (fractionDigits nanos) ++ "Z" := by
  rw [Events.instantText, fractionText, fractionDigits]
  by_cases hzero : nanos = 0
  · simp [hzero]
  · have hwide : (padded 9 nanos.natAbs).length = 9 := length_padded (by omega) (by omega)
    have hne : padded 9 nanos.natAbs ≠ [] := List.ne_nil_of_length_eq_add_one hwide
    simp only [ne_eq, hzero, not_false_eq_true, if_true, hne, if_false,
      Events.zeroFilled_of_nonneg hpos]

/-- The fraction of an instant is its nanoseconds. -/
theorem fractionDigits_spec {nanos : ℤ} (hpos : 0 ≤ nanos) (hlt : nanos ≤ 999999999) :
    (fractionDigits nanos).length ≤ 9 ∧
      (number (ljust 9 (digit 0) (fractionDigits nanos)) : ℤ) = nanos := by
  rw [fractionDigits]
  by_cases hzero : nanos = 0
  · subst hzero
    decide
  · have hwide : (padded 9 nanos.natAbs).length = 9 := length_padded (by omega) (by omega)
    rw [if_pos hzero, ljust, hwide, Nat.sub_self, List.replicate_zero, List.append_nil,
      number_padded]
    omega

/-- A year of four digits is spelled alike on every platform. -/
theorem stamp_of_large {width : ℕ} {m : Moment} (hwidth : width ≤ 4) (hyear : 1000 ≤ m.date.year) :
    stamp width m = stamp 4 m := by
  have h : 10 ^ 3 ≤ m.date.year := hyear
  rw [stamp, stamp, padded_of_pow_le h hwidth, padded_of_pow_le h (Nat.le_refl 4)]

/-- A year of fewer is spelled with a hyphen among the first four characters. -/
theorem hyphen_mem_take_stamp {width : ℕ} {m : Moment} (hwidth : width ≤ 1)
    (hyear : m.date.year < 1000) : codePoint 0x2D ∈ (stamp width m).take 4 := by
  have hshort : (padded width m.date.year).length ≤ 3 := by
    have hdigits : (digits m.date.year).length ≤ 3 := length_digits_le (by omega) (by omega)
    rw [padded, length_rjust]
    omega
  have hstamp : ∃ rest, stamp width m = padded width m.date.year ++ codePoint 0x2D :: rest := by
    simp only [stamp, List.append_assoc]
    exact ⟨_, rfl⟩
  obtain ⟨rest, hrest⟩ := hstamp
  obtain ⟨k, hk⟩ : ∃ k, 4 - (padded width m.date.year).length = k + 1 :=
    ⟨3 - (padded width m.date.year).length, by omega⟩
  rw [hrest, List.take_append, hk, List.take_succ_cons]
  exact List.mem_append_right _ List.mem_cons_self

/-- Whatever an instant is read from, `strptime` takes what stands before its fraction. -/
theorem strptime_of_readDatetime {s f : Str} {v : Value} (hs : ∀ c ∈ s, c ≠ POINT)
    (h : readDatetime python (s ++ fractionText f ++ "Z") = .ok v) :
    ∃ m, python.strptime s = some m := by
  obtain ⟨dot, hpartition, -⟩ := partition_fractionText (f := f) hs
  have hzone : ofString "Z" = [codePoint 0x5A] := rfl
  rw [readDatetime, hzone, List.getLast?_concat, if_neg (not_not.mpr rfl), List.dropLast_concat,
    hpartition] at h
  dsimp only at h
  split at h
  · cases h
  · cases hm : python.strptime s with
    | some m => exact ⟨m, rfl⟩
    | none =>
        rw [hm] at h
        cases h

/-- **The instants that are read back.** -/
theorem instant_read_back_iff (hwidth : platform.yearWidth ≤ 1)
    (hstrict : ∀ s m, python.strptime s = some m → ∀ c ∈ s.take 4, python.isdigit c = true)
    {seconds nanos : ℤ} {m : Moment} (hm : moment seconds = some m) (hpos : 0 ≤ nanos)
    (hlt : nanos ≤ 999999999) :
    readDatetime python (Events.instantText platform m nanos) = .ok (.datetime seconds nanos) ↔
      1000 ≤ m.date.year := by
  obtain ⟨hlength, hnanos⟩ := fractionDigits_spec hpos hlt
  rw [instantText_eq platform m hpos hlt]
  constructor
  · intro h
    by_contra hless
    obtain ⟨read, hread⟩ := strptime_of_readDatetime python ne_point_of_mem_stamp h
    have hdigit := hstrict _ _ hread _ (hyphen_mem_take_stamp hwidth (Nat.lt_of_not_le hless))
    rw [python.isdigit_ascii _ (by decide)] at hdigit
    exact absurd (of_decide_eq_true hdigit) (by decide)
  · intro hyear
    rw [stamp_of_large (Nat.le_trans hwidth (by decide)) hyear]
    exact readDatetime_spelled python hm hyear
      ⟨m, _, hm, rfl, isDigit_of_mem_fractionDigits, hlength, hnanos⟩

/-- **An event's decimals are read back, and its instants from the year 1000 on.** -/
theorem spellings_are_read_back (hlimit : python.maxDigits = 0) (hwidth : platform.yearWidth ≤ 1)
    (hstrict : ∀ s m, python.strptime s = some m → ∀ c ∈ s.take 4, python.isdigit c = true) :
    (∀ (mantissa : ℤ) (scale : ℕ), readDecimal python ((Events.decimal mantissa scale).drop 4) =
        .ok (.decimal mantissa scale)) ∧
      ∀ seconds nanos : ℤ, -62135596800 ≤ seconds → seconds ≤ 253402300799 → 0 ≤ nanos →
        nanos ≤ 999999999 → ∃ text, Events.instant platform seconds nanos = .ok text ∧
          (readDatetime python text = .ok (.datetime seconds nanos) ↔ -30610224000 ≤ seconds) := by
  refine ⟨readDecimal_decimal python hlimit, fun seconds nanos hfirst hlast hpos hlt => ?_⟩
  obtain ⟨m, hm⟩ : ∃ m, moment seconds = some m := by
    rw [moment, if_pos (by rw [EPOCH, MAX_ORDINAL]; omega)]
    exact ⟨_, rfl⟩
  have hyear := le_year_iff hm 1000
  have hdays : daysBeforeYear 1000 = 364877 := rfl
  rw [hdays, EPOCH] at hyear
  refine ⟨Events.instantText platform m nanos, ?_, ?_⟩
  · rw [Events.instant, hm]
  · rw [instant_read_back_iff python platform hwidth hstrict hm hpos hlt, hyear]
    omega

/-- A platform that does not fill up a year. -/
def unfilled : Platform := ⟨fun _ => [], 0⟩

/-- The last second of the year 999 is refused where it was spelled. -/
theorem year_999_is_not_read_back :
    Events.instant unfilled (-30610224001) 0 = .ok (ofString "999-12-31T23:59:59Z") ∧
      readDatetime (asciiInterpreter 0 unlimited) (ofString "999-12-31T23:59:59Z") ≠
        .ok (.datetime (-30610224001) 0) := by
  refine ⟨rfl, fun h => ?_⟩
  cases h

theorem readStamp_strict (s : Str) (m : Moment) (h : readStamp s = some m) :
    ∀ c ∈ s.take 4, decide (IsDigit c) = true := by
  rw [readStamp] at h
  split at h
  · next hvalid =>
    intro c hc
    have hyear := (length_fields hvalid.1).1
    rw [← hvalid.2, stamp] at hc
    simp only [List.append_assoc] at hc
    rw [List.take_left' hyear] at hc
    exact decide_eq_true (isDigit_of_mem_padded c hc)
  · cases h

theorem spellings_are_read_back_unfilled :
    readDecimal (asciiInterpreter 0 unlimited) ((Events.decimal (-5) 2).drop 4) =
        .ok (.decimal (-5) 2) ∧
      ∃ text, Events.instant unfilled (-30610224000) 999999999 = .ok text ∧
        readDatetime (asciiInterpreter 0 unlimited) text =
          .ok (.datetime (-30610224000) 999999999) := by
  obtain ⟨hdecimal, hinstant⟩ := spellings_are_read_back (asciiInterpreter 0 unlimited) unfilled rfl
    (by decide) readStamp_strict
  obtain ⟨text, htext, hread⟩ := hinstant (-30610224000) 999999999 (by decide) (by decide)
    (by decide) (by decide)
  exact ⟨hdecimal (-5) 2, text, htext, hread.mpr (by decide)⟩

end EventSpellings

end TessariDB
