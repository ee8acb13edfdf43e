import TessariDB.Calendar
import TessariDB.Numerals

/-!
# Timestamps

An instant as `strftime` writes it by the format `%Y-%m-%dT%H:%M:%S`. How far a year below 1000
is filled up with zeros differs between platforms, so the width of a year is a parameter.

## Main results

* `stamp_append_inj`: an instant is known by its timestamp, whatever follows it.
* `readStamp_stamp`: a timestamp of fixed width is read back.
-/

namespace Timestamps

open Utf8 Text Calendar Numerals

/-- `moment.strftime("%Y-%m-%dT%H:%M:%S")`. -/
def stamp (yearWidth : ℕ) (m : Moment) : Str :=
  padded yearWidth m.date.year ++ "-" ++ padded 2 m.date.month ++ "-" ++ padded 2 m.date.day ++
    "T" ++ padded 2 m.hour ++ ":" ++ padded 2 m.minute ++ ":" ++ padded 2 m.second

/-- A numeral ends where its digits do. -/
theorem padded_append_inj {width m n : ℕ} {r r' : Str} (hr : ∀ c ∈ r.head?, ¬ IsDigit c)
    (hr' : ∀ c ∈ r'.head?, ¬ IsDigit c) (h : padded width m ++ r = padded width n ++ r') :
    m = n ∧ r = r' := by
  obtain ⟨hpad, hrest⟩ := run_append_inj isDigit_of_mem_padded isDigit_of_mem_padded hr hr' h
  exact ⟨padded_injective hpad, hrest⟩

/-- **An instant is known by its timestamp.** -/
theorem stamp_append_inj {yearWidth : ℕ} {m m' : Moment} {r r' : Str}
    (hr : ∀ c ∈ r.head?, ¬ IsDigit c) (hr' : ∀ c ∈ r'.head?, ¬ IsDigit c)
    (h : stamp yearWidth m ++ r = stamp yearWidth m' ++ r') : m = m' ∧ r = r' := by
  have hhyphen : ∀ {s : Str}, ∀ c ∈ (ofString "-" ++ s).head?, ¬ IsDigit c :=
    not_isDigit_head (c := codePoint 0x2D) (by decide)
  have hcolon : ∀ {s : Str}, ∀ c ∈ (ofString ":" ++ s).head?, ¬ IsDigit c :=
    not_isDigit_head (c := codePoint 0x3A) (by decide)
  have htime : ∀ {s : Str}, ∀ c ∈ (ofString "T" ++ s).head?, ¬ IsDigit c :=
    not_isDigit_head (c := codePoint 0x54) (by decide)
  simp only [stamp, List.append_assoc] at h
  obtain ⟨hyear, h⟩ := padded_append_inj hhyphen hhyphen h
  obtain ⟨hmonth, h⟩ := padded_append_inj hhyphen hhyphen (List.append_cancel_left h)
  obtain ⟨hday, h⟩ := padded_append_inj htime htime (List.append_cancel_left h)
  obtain ⟨hhour, h⟩ := padded_append_inj hcolon hcolon (List.append_cancel_left h)
  obtain ⟨hminute, h⟩ := padded_append_inj hcolon hcolon (List.append_cancel_left h)
  obtain ⟨hsecond, h⟩ := padded_append_inj hr hr' (List.append_cancel_left h)
  refine ⟨?_, h⟩
  obtain ⟨⟨_, _, _⟩, _, _, _⟩ := m
  obtain ⟨⟨_, _, _⟩, _, _, _⟩ := m'
  simp_all only

/-! ### Fixed width -/

/-- The instant whose fields stand in a timestamp with four digits for the year. -/
def fields (s : Str) : Moment :=
  let month := s.drop 5
  let day := month.drop 3
  let hour := day.drop 3
  let minute := hour.drop 3
  let second := minute.drop 3
  ⟨⟨number (s.take 4), number (month.take 2), number (day.take 2)⟩, number (hour.take 2),
    number (minute.take 2), number (second.take 2)⟩

/-- The instant of a timestamp that is written with every digit. -/
def readStamp (s : Str) : Option Moment :=
  if (fields s).Valid ∧ stamp 4 (fields s) = s then some (fields s) else none

theorem drop_field {p r : Str} {n : ℕ} (c : CodePoint) (hp : p.length = n) :
    (p ++ c :: r).drop (n + 1) = r := by
  rw [← List.singleton_append, ← List.append_assoc]
  exact List.drop_left' (by rw [List.length_append, hp]; rfl)

/-- Every field of a timestamp has its width. -/
theorem length_fields {m : Moment} (hm : m.Valid) :
    (padded 4 m.date.year).length = 4 ∧ (padded 2 m.date.month).length = 2 ∧
      (padded 2 m.date.day).length = 2 ∧ (padded 2 m.hour).length = 2 ∧
      (padded 2 m.minute).length = 2 ∧ (padded 2 m.second).length = 2 := by
  have hyear := hm.year_le
  have hmonth := hm.date.month_le
  have hday := Nat.le_trans hm.date.day_le (monthLength_le _ _)
  have hhour := hm.hour_lt
  have hminute := hm.minute_lt
  have hsecond := hm.second_lt
  refine ⟨?_, ?_, ?_, ?_, ?_, ?_⟩ <;> exact length_padded (by omega) (by omega)

theorem fields_stamp {m : Moment} (hm : m.Valid) : fields (stamp 4 m) = m := by
  obtain ⟨hyear, hmonth, hday, hhour, hminute, hsecond⟩ := length_fields hm
  have hstamp : stamp 4 m = padded 4 m.date.year ++ codePoint 0x2D :: (padded 2 m.date.month ++
      codePoint 0x2D :: (padded 2 m.date.day ++ codePoint 0x54 :: (padded 2 m.hour ++
        codePoint 0x3A :: (padded 2 m.minute ++ codePoint 0x3A :: padded 2 m.second)))) := by
    have hhyphen : ofString "-" = [codePoint 0x2D] := rfl
    have htime : ofString "T" = [codePoint 0x54] := rfl
    have hcolon : ofString ":" = [codePoint 0x3A] := rfl
    simp only [stamp, hhyphen, htime, hcolon, List.append_assoc, List.cons_append,
      List.nil_append]
  simp only [fields, hstamp, drop_field _ hyear, drop_field _ hmonth, drop_field _ hday,
    drop_field _ hhour, drop_field _ hminute, List.take_left' hyear, List.take_left' hmonth,
    List.take_left' hday, List.take_left' hhour, List.take_left' hminute,
    List.take_of_length_le (Nat.le_of_eq hsecond), number_padded]

/-- **A timestamp is read back.** -/
theorem readStamp_stamp {m : Moment} (hm : m.Valid) : readStamp (stamp 4 m) = some m := by
  rw [readStamp, fields_stamp hm, if_pos ⟨hm, rfl⟩]

end Timestamps
