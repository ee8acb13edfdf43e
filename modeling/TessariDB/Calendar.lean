import Mathlib.Algebra.BigOperators.Group.List.Basic
import Mathlib.Algebra.Ring.Nat

/-!
# The Gregorian Calendar

Dates of the calendar run back to 1 January of the year 1, and days numbered from there. A day is
split off in cycles of 400, 100, 4 and 1 years and then along the months.

## Main results

* `yearOf_spec`: the year of a day, and the day within it.
* `le_year_iff`: the years an instant lies in or behind.
* `toOrdinal_ofOrdinal`, `ofOrdinal_valid`: a day is known by its date, which is a date.
* `seconds_moment`: an instant is known by its date and its time of day.
-/

namespace Calendar

/-- A date; `day` and `month` count from one. -/
structure Date where
  year : ℕ
  month : ℕ
  day : ℕ
  deriving DecidableEq, Repr

def isLeap (year : ℕ) : Bool := year % 4 = 0 ∧ (year % 100 ≠ 0 ∨ year % 400 = 0)

def monthLengths (leap : Bool) : List ℕ :=
  [31, if leap then 29 else 28, 31, 30, 31, 30, 31, 31, 30, 31, 30, 31]

/-- The days before 1 January of a year. -/
def daysBeforeYear (year : ℕ) : ℕ :=
  (year - 1) * 365 + (year - 1) / 4 - (year - 1) / 100 + (year - 1) / 400

/-- The days of a year before the first of a month. -/
def daysBeforeMonth (leap : Bool) (month : ℕ) : ℕ := ((monthLengths leap).take (month - 1)).sum

/-- The number of a date; 1 January of the year 1 has number one. -/
def toOrdinal (d : Date) : ℕ :=
  daysBeforeYear d.year + daysBeforeMonth (isLeap d.year) d.month + d.day

structure Date.Valid (d : Date) : Prop where
  year_pos : 1 ≤ d.year
  month_pos : 1 ≤ d.month
  month_le : d.month ≤ 12
  day_pos : 1 ≤ d.day
  day_le : d.day ≤ (monthLengths (isLeap d.year)).getD (d.month - 1) 0

instance (d : Date) : Decidable d.Valid :=
  decidable_of_iff (1 ≤ d.year ∧ 1 ≤ d.month ∧ d.month ≤ 12 ∧ 1 ≤ d.day ∧
      d.day ≤ (monthLengths (isLeap d.year)).getD (d.month - 1) 0)
    ⟨fun ⟨hy, hm, hm', hd, hd'⟩ => ⟨hy, hm, hm', hd, hd'⟩,
      fun ⟨hy, hm, hm', hd, hd'⟩ => ⟨hy, hm, hm', hd, hd'⟩⟩

/-- Which of some lengths laid end to end a point falls into, and where in it. -/
def splitAlong : List ℕ → ℕ → ℕ × ℕ
  | [], n => (0, n)
  | k :: ks, n => if n < k then (0, n) else ((splitAlong ks (n - k)).1 + 1, (splitAlong ks (n - k)).2)

/-- The year of a day, and the day of the year, all counted from zero but the years. -/
def yearOf (n : ℕ) : ℕ × ℕ :=
  let n400 := n / 146097
  let n := n % 146097
  let n100 := n / 36524
  let n := n % 36524
  let n4 := n / 1461
  let n := n % 1461
  let n1 := n / 365
  let year := n400 * 400 + n100 * 100 + n4 * 4 + n1 + 1
  if n1 = 4 ∨ n100 = 4 then (year - 1, 365) else (year, n % 365)

/-- The date of a number. -/
def ofOrdinal (ordinal : ℕ) : Date :=
  let (year, day) := yearOf (ordinal - 1)
  let (month, day) := splitAlong (monthLengths (isLeap year)) day
  ⟨year, month + 1, day + 1⟩

theorem splitAlong_spec {ks : List ℕ} {n : ℕ} (h : n < ks.sum) :
    (splitAlong ks n).1 < ks.length ∧
      (ks.take (splitAlong ks n).1).sum + (splitAlong ks n).2 = n ∧
      (splitAlong ks n).2 < ks.getD (splitAlong ks n).1 0 := by
  induction ks generalizing n with
  | nil => exact absurd h (Nat.not_lt_zero n)
  | cons k ks ih =>
      rw [splitAlong]
      split
      · next hlt => exact ⟨Nat.succ_pos _, by simp, hlt⟩
      · next hge =>
        rw [List.sum_cons] at h
        obtain ⟨hlen, hsum, hlt⟩ := ih (n := n - k) (by omega)
        refine ⟨Nat.succ_lt_succ hlen, ?_, hlt⟩
        rw [List.take_succ_cons, List.sum_cons]
        omega

theorem monthLengths_sum (leap : Bool) :
    (monthLengths leap).sum = if leap then 366 else 365 := by
  cases leap <;> rfl

/-- The days before a year, from the cycles that came before it. -/
theorem daysBeforeYear_eq {a b c d : ℕ} (hb : b ≤ 3) (hc : c ≤ 24) (hd : d ≤ 3) :
    daysBeforeYear (400 * a + 100 * b + 4 * c + d + 1) =
      146097 * a + 36524 * b + 1461 * c + 365 * d := by
  have h4 : (400 * a + 100 * b + 4 * c + d) / 4 = 100 * a + 25 * b + c := by omega
  have h100 : (400 * a + 100 * b + 4 * c + d) / 100 = 4 * a + b := by omega
  have h400 : (400 * a + 100 * b + 4 * c + d) / 400 = a := by omega
  rw [daysBeforeYear, Nat.add_sub_cancel, h4, h100, h400]
  omega

/-- A day is so many cycles of 400, 100, 4 and 1 years; the last day of a leap year is the only
one to fall out of the shorter cycles. -/
theorem cycles (n : ℕ) : ∃ a b c d r, n = 146097 * a + 36524 * b + 1461 * c + 365 * d + r ∧
    n / 146097 = a ∧ n % 146097 / 36524 = b ∧ n % 146097 % 36524 / 1461 = c ∧
    n % 146097 % 36524 % 1461 / 365 = d ∧ n % 146097 % 36524 % 1461 % 365 = r ∧
    c ≤ 24 ∧ r < 365 ∧ (b ≤ 3 ∨ b = 4 ∧ c = 0 ∧ d = 0 ∧ r = 0) ∧
    (d ≤ 3 ∨ d = 4 ∧ c ≤ 23 ∧ r = 0) :=
  ⟨_, _, _, _, _, by omega, rfl, rfl, rfl, rfl, rfl, by omega, by omega, by omega, by omega⟩

/-- **The year of a day.** -/
theorem yearOf_spec (n : ℕ) : 1 ≤ (yearOf n).1 ∧
    daysBeforeYear (yearOf n).1 + (yearOf n).2 = n ∧
    (yearOf n).2 < if isLeap (yearOf n).1 then 366 else 365 := by
  obtain ⟨a, b, c, d, r, hn, ha, hb, hc, hd, hr, hcle, hrlt, hblt, hdlt⟩ := cycles n
  simp only [yearOf, ha, hb, hc, hd, hr]
  have hshort : ∀ leap : Bool, r < if leap then 366 else 365 := by
    intro leap
    cases leap
    · exact hrlt
    · exact Nat.lt_succ_of_lt hrlt
  rcases hblt with hble | ⟨rfl, rfl, rfl, rfl⟩
  · rcases hdlt with hdle | ⟨rfl, hcle', rfl⟩
    · have hnot : ¬ (d = 4 ∨ b = 4) := by omega
      have hyear : a * 400 + b * 100 + c * 4 + d + 1 = 400 * a + 100 * b + 4 * c + d + 1 := by omega
      rw [if_neg hnot]
      dsimp only
      rw [hyear, daysBeforeYear_eq hble hcle hdle]
      exact ⟨by omega, by omega, hshort _⟩
    · have hyear : a * 400 + b * 100 + c * 4 + 4 + 1 - 1 = 400 * a + 100 * b + 4 * c + 3 + 1 := by
        omega
      have hleap : isLeap (400 * a + 100 * b + 4 * c + 3 + 1) = true := by
        simp only [isLeap, decide_eq_true_eq]
        omega
      rw [if_pos (Or.inl rfl)]
      dsimp only
      rw [hyear, daysBeforeYear_eq hble (by omega) (Nat.le_refl 3), hleap]
      exact ⟨by omega, by omega, by decide⟩
  · have hyear : a * 400 + 4 * 100 + 0 * 4 + 0 + 1 - 1 = 400 * a + 100 * 3 + 4 * 24 + 3 + 1 := by
      omega
    have hleap : isLeap (400 * a + 100 * 3 + 4 * 24 + 3 + 1) = true := by
      simp only [isLeap, decide_eq_true_eq]
      omega
    rw [if_pos (Or.inr rfl)]
    dsimp only
    rw [hyear, daysBeforeYear_eq (Nat.le_refl 3) (Nat.le_refl 24) (Nat.le_refl 3), hleap]
    exact ⟨by omega, by omega, by decide⟩

/-- **A day is known by its date.** -/
theorem toOrdinal_ofOrdinal {ordinal : ℕ} (h : 1 ≤ ordinal) :
    toOrdinal (ofOrdinal ordinal) = ordinal := by
  obtain ⟨-, hyear, hday⟩ := yearOf_spec (ordinal - 1)
  rw [← monthLengths_sum] at hday
  obtain ⟨-, hsum, -⟩ := splitAlong_spec hday
  simp only [ofOrdinal, toOrdinal, daysBeforeMonth, Nat.add_sub_cancel]
  omega

/-- The date of a day is one. -/
theorem ofOrdinal_valid (ordinal : ℕ) : (ofOrdinal ordinal).Valid := by
  obtain ⟨hpos, -, hday⟩ := yearOf_spec (ordinal - 1)
  rw [← monthLengths_sum] at hday
  obtain ⟨hmonth, -, hlt⟩ := splitAlong_spec hday
  exact ⟨hpos, Nat.succ_pos _, hmonth, Nat.succ_pos _, hlt⟩

/-- A date lies in or after its year. -/
theorem daysBeforeYear_lt (d : Date) (h : d.Valid) : daysBeforeYear d.year < toOrdinal d := by
  have := h.day_pos
  rw [toOrdinal]
  omega

theorem daysBeforeYear_mono {y z : ℕ} (h : y ≤ z) : daysBeforeYear y ≤ daysBeforeYear z := by
  induction h with
  | refl => exact Nat.le_refl _
  | step _ ih =>
      refine Nat.le_trans ih ?_
      rw [daysBeforeYear, daysBeforeYear]
      omega

theorem succ_div_eq (n k : ℕ) : (n + 1) / k = n / k + if (n + 1) % k = 0 then 1 else 0 := by
  rw [Nat.succ_div]
  simp only [Nat.dvd_iff_mod_eq_zero]

/-- The days of a year. -/
theorem daysBeforeYear_succ {year : ℕ} (h : 1 ≤ year) :
    daysBeforeYear (year + 1) = daysBeforeYear year + if isLeap year then 366 else 365 := by
  obtain ⟨y, rfl⟩ := Nat.exists_eq_add_of_le' h
  have hcentury : (y + 1) % 100 = 0 → (y + 1) % 4 = 0 := by omega
  have hcycle : (y + 1) % 400 = 0 → (y + 1) % 100 = 0 := by omega
  have hle : y / 100 ≤ y * 365 := by omega
  simp only [daysBeforeYear, isLeap, decide_eq_true_eq, Nat.add_sub_cancel, succ_div_eq y]
  by_cases h400 : (y + 1) % 400 = 0
  · simp [h400, hcycle h400, hcentury (hcycle h400)]
    omega
  by_cases h100 : (y + 1) % 100 = 0
  · simp [h400, h100, hcentury h100]
    omega
  by_cases h4 : (y + 1) % 4 = 0
  · simp [h400, h100, h4]
    omega
  · simp [h400, h100, h4]
    omega

/-- A day lies in or behind a year when it does not come before its first. -/
theorem le_yearOf_iff {year n : ℕ} : year ≤ (yearOf n).1 ↔ daysBeforeYear year ≤ n := by
  obtain ⟨hpos, hsum, hlt⟩ := yearOf_spec n
  have hsucc := daysBeforeYear_succ hpos
  constructor
  · intro h
    have := daysBeforeYear_mono h
    omega
  · intro h
    by_contra hless
    have : daysBeforeYear ((yearOf n).1 + 1) ≤ daysBeforeYear year :=
      daysBeforeYear_mono (Nat.lt_of_not_le hless)
    omega

/-! ### Instants -/

/-- An instant by date and time of day, to the second. -/
structure Moment where
  date : Date
  hour : ℕ
  minute : ℕ
  second : ℕ
  deriving DecidableEq, Repr

/-- The number of 1 January 1970. -/
def EPOCH : ℤ := 719163

/-- The number of 31 December 9999. -/
def MAX_ORDINAL : ℤ := 3652059

/-- The date and the time of day of a count of seconds since the epoch, in the years 1 to 9999. -/
def moment (seconds : ℤ) : Option Moment :=
  let ordinal := EPOCH + seconds / 86400
  let rest := (seconds % 86400).toNat
  if 1 ≤ ordinal ∧ ordinal ≤ MAX_ORDINAL then
    some ⟨ofOrdinal ordinal.toNat, rest / 3600, rest / 60 % 60, rest % 60⟩
  else none

/-- The seconds since the epoch. -/
def Moment.seconds (m : Moment) : ℤ :=
  ((toOrdinal m.date : ℤ) - EPOCH) * 86400 + (m.hour * 3600 + m.minute * 60 + m.second : ℕ)

structure Moment.Valid (m : Moment) : Prop where
  date : m.date.Valid
  year_le : m.date.year ≤ 9999
  hour_lt : m.hour < 24
  minute_lt : m.minute < 60
  second_lt : m.second < 60

instance (m : Moment) : Decidable m.Valid :=
  decidable_of_iff (m.date.Valid ∧ m.date.year ≤ 9999 ∧ m.hour < 24 ∧ m.minute < 60 ∧ m.second < 60)
    ⟨fun ⟨hd, hy, hh, hm, hs⟩ => ⟨hd, hy, hh, hm, hs⟩,
      fun ⟨hd, hy, hh, hm, hs⟩ => ⟨hd, hy, hh, hm, hs⟩⟩

theorem monthLength_le (leap : Bool) (i : ℕ) : (monthLengths leap).getD i 0 ≤ 31 := by
  by_cases h : i < 12
  · revert leap i
    decide
  · rw [List.getD, List.getElem?_eq_none (Nat.le_of_not_lt h)]
    exact Nat.zero_le _

/-- **An instant is known by its date and its time of day.** -/
theorem seconds_moment {seconds : ℤ} {m : Moment} (h : moment seconds = some m) :
    m.seconds = seconds := by
  rw [moment] at h
  split at h
  · next hrange =>
    cases h
    have hordinal : toOrdinal (ofOrdinal (EPOCH + seconds / 86400).toNat) =
        (EPOCH + seconds / 86400).toNat := toOrdinal_ofOrdinal (by omega)
    rw [Moment.seconds, hordinal]
    dsimp only
    omega
  · cases h

/-- The instants of the years 1 to 9999, by their seconds. -/
theorem moment_isSome_iff (seconds : ℤ) :
    (moment seconds).isSome ↔ -62135596800 ≤ seconds ∧ seconds ≤ 253402300799 := by
  rw [moment, EPOCH, MAX_ORDINAL]
  split
  · exact iff_of_true rfl (by omega)
  · exact iff_of_false (by simp) (by omega)

/-- An instant lies in or behind a year when it does not come before its first second. -/
theorem le_year_iff {seconds : ℤ} {m : Moment} (h : moment seconds = some m) (year : ℕ) :
    year ≤ m.date.year ↔ (daysBeforeYear year + 1 - EPOCH) * 86400 ≤ seconds := by
  rw [moment] at h
  split at h
  · next hrange =>
    cases h
    change year ≤ (yearOf _).1 ↔ _
    rw [le_yearOf_iff]
    omega
  · cases h

theorem moment_injective {seconds seconds' : ℤ} {m : Moment} (h : moment seconds = some m)
    (h' : moment seconds' = some m) : seconds = seconds' := by
  rw [← seconds_moment h, seconds_moment h']

theorem moment_valid {seconds : ℤ} {m : Moment} (h : moment seconds = some m) : m.Valid := by
  rw [moment] at h
  split at h
  · next hrange =>
    cases h
    have hvalid := ofOrdinal_valid (EPOCH + seconds / 86400).toNat
    refine ⟨hvalid, ?_, ?_, ?_, ?_⟩
    · by_contra hlarge
      have hmono := daysBeforeYear_mono (show 10000 ≤ _ by exact Nat.lt_of_not_le hlarge)
      have hlt := daysBeforeYear_lt _ hvalid
      rw [toOrdinal_ofOrdinal (by omega)] at hlt
      have hmany : daysBeforeYear 10000 = 3652059 := rfl
      have hmax := hrange.2
      rw [MAX_ORDINAL] at hmax
      dsimp only at hmono
      omega
    · dsimp only
      omega
    · exact Nat.mod_lt _ (by decide)
    · exact Nat.mod_lt _ (by decide)
  · cases h

end Calendar
