import TessariDB.Measures
import TessariDB.Integers
import TessariDB.JsonRestored

/-!
# Which Durations are Read

A duration is written as counts with units, after a minus sign when it is negative. The reader goes
through the text once, from one count to the next, and two of the units begin with a third: it looks
for `ms` before `m`. It carries the sum as whole seconds, rounded down, and the nanoseconds forward
from there.

## Main results

* `order_table`: no unit is looked for before one that it begins.
* `durations_are_summed`: the reader takes the durations, sums each, and refuses all else.
-/

namespace TessariDB

namespace JsonValues

open Utf8 Text Numerals

/-! ### The durations -/

/-- The units of a duration. -/
inductive SpanUnit where
  | hour
  | minute
  | second
  | millisecond
  | microsecond
  | nanosecond
  deriving DecidableEq, Repr

namespace SpanUnit

def word : SpanUnit → Str
  | hour => "h"
  | minute => "m"
  | second => "s"
  | millisecond => "ms"
  | microsecond => "us"
  | nanosecond => "ns"

/-- A unit in nanoseconds. -/
def nanos : SpanUnit → ℕ
  | hour => 3600 * 10 ^ 9
  | minute => 60 * 10 ^ 9
  | second => 10 ^ 9
  | millisecond => 10 ^ 6
  | microsecond => 10 ^ 3
  | nanosecond => 1

end SpanUnit

/-- One count and its unit: at least one digit. -/
structure SpanGroup (group : Str × SpanUnit) : Prop where
  count_ne : group.1 ≠ []
  digits : ∀ c ∈ group.1, IsDigit c

/-- An optional minus sign, and at least one count with its unit. -/
structure SpanText (text : Str) (negative : Bool) (groups : List (Str × SpanUnit)) : Prop where
  spelled : text = (if negative then ofString "-" else []) ++
    groups.flatMap fun group => group.1 ++ group.2.word
  groups_ne : groups ≠ []
  group : ∀ group ∈ groups, SpanGroup group

/-- Each count times its unit, summed. -/
def magnitude (groups : List (Str × SpanUnit)) : ℕ :=
  (groups.map fun group => number group.1 * group.2.nanos).sum

/-- The nanoseconds a duration is written as. -/
def signedSum (negative : Bool) (groups : List (Str × SpanUnit)) : ℤ :=
  (if negative then -1 else 1) * magnitude groups

/-! ### The table -/

/-- The units in the order they are looked for. -/
def order : List SpanUnit :=
  [.millisecond, .microsecond, .nanosecond, .hour, .minute, .second]

theorem units_eq_order : UNITS = order.map fun u => (u.word, u.nanos) := rfl

theorem mem_order (u : SpanUnit) : u ∈ order := by
  cases u <;> decide

variable (python : Interpreter)

theorem isDigit_of_isdigit {c : CodePoint} (hascii : c.val < 0x80)
    (h : python.isdigit c = true) : IsDigit c := by
  rw [python.isdigit_ascii c hascii] at h
  exact of_decide_eq_true h

theorem isdigit_of_isDigit {c : CodePoint} (h : IsDigit c) : python.isdigit c = true := by
  have hval := h.2
  rw [python.isdigit_ascii c (by omega), decide_eq_true h]

/-- No unit is looked for before one that it begins. -/
theorem order_table : Measures.Table python.isdigit SpanUnit.word order where
  word_ne u _ := by cases u <;> decide
  word_digits u _ c hc := by
    have hletters : ∀ d ∈ u.word, d.val < 0x80 ∧ ¬ IsDigit d :=
      forall_mem_of_all (by cases u <;> rfl)
    rw [python.isdigit_ascii c (hletters c hc).1, decide_eq_false (hletters c hc).2]
  order := by decide

/-! ### The loop -/

@[simp] theorem magnitude_nil : magnitude [] = 0 := rfl

@[simp] theorem magnitude_cons (group : Str × SpanUnit) (groups : List (Str × SpanUnit)) :
    magnitude (group :: groups) = number group.1 * group.2.nanos + magnitude groups := by
  rw [magnitude, List.map_cons, List.sum_cons, ← magnitude]

/-- One pass of the loop takes one group off the front and adds it. -/
theorem spans_turn (hmax : python.maxDigits = 0) (text body : Str) (fuel : ℕ) {rest : Str}
    (hne : rest ≠ []) (hascii : ∀ c ∈ rest, c.val < 0x80) (total : ℤ) :
    (Measures.turn python.isdigit SpanUnit.word order rest = none →
      ∃ message, spans python text body (fuel + 1) rest total = .error (.malformed message)) ∧
    (∀ group behind, Measures.turn python.isdigit SpanUnit.word order rest = some (group, behind) →
      spans python text body (fuel + 1) rest total =
        spans python text body fuel behind (total + number group.1 * group.2.nanos)) := by
  rw [spans, if_neg hne, Measures.turn]
  dsimp only
  split
  · exact ⟨fun _ => ⟨_, rfl⟩, fun group behind h => by cases h⟩
  · next hcount =>
    have hint := python.int_digits hcount fun c hc =>
      isDigit_of_isdigit python (hascii c ((List.takeWhile_prefix _).subset hc))
        (List.mem_takeWhile_imp hc)
    rw [hint, if_pos (.inl hmax), units_eq_order, List.find?_map]
    dsimp only [Function.comp_def]
    cases order.find? fun u => u.word.isPrefixOf (rest.dropWhile python.isdigit) with
    | none => exact ⟨fun _ => ⟨_, rfl⟩, fun group behind h => by cases h⟩
    | some u =>
        refine ⟨fun h => (by cases h), fun group behind h => ?_⟩
        obtain ⟨rfl, rfl⟩ := Prod.mk.inj (Option.some.inj h)
        rfl

/-- The loop sums the groups the text is scanned as. -/
theorem spans_eq (hmax : python.maxDigits = 0) (text body : Str) {fuel : ℕ} {rest : Str}
    (hfuel : rest.length ≤ fuel) (hascii : ∀ c ∈ rest, c.val < 0x80) (total : ℤ) :
    (∀ groups, Measures.scan python.isdigit SpanUnit.word order fuel rest = some groups →
      spans python text body fuel rest total = .ok (total + magnitude groups)) ∧
    (Measures.scan python.isdigit SpanUnit.word order fuel rest = none →
      ∃ message, spans python text body fuel rest total = .error (.malformed message)) := by
  induction fuel generalizing rest total with
  | zero =>
      obtain rfl := List.length_eq_zero_iff.mp (Nat.le_zero.mp hfuel)
      rw [Measures.scan, spans]
      refine ⟨?_, fun h => by cases h⟩
      rintro groups ⟨⟩
      simp
  | succ fuel ih =>
      cases rest with
      | nil =>
          rw [Measures.scan, spans, if_pos rfl]
          refine ⟨?_, fun h => by cases h⟩
          rintro groups ⟨⟩
          simp
      | cons c s =>
          obtain ⟨hrefused, htaken⟩ :=
            spans_turn python hmax text body fuel (List.cons_ne_nil c s) hascii total
          rw [Measures.scan]
          cases hturn : Measures.turn python.isdigit SpanUnit.word order (c :: s) with
          | none => exact ⟨fun groups h => (by cases h), fun _ => hrefused hturn⟩
          | some taken =>
              obtain ⟨group, behind⟩ := taken
              obtain ⟨hgroup, hs⟩ := Measures.turn_eq_some hturn
              have hbehind := hgroup.length_lt hs
              have hasciiBehind : ∀ d ∈ behind, d.val < 0x80 := fun d hd =>
                hascii d (hs ▸ List.mem_append_right _ hd)
              obtain ⟨hsum, hstuck⟩ := ih (Nat.le_of_lt_succ (hbehind.trans_le hfuel))
                hasciiBehind (total + number group.1 * group.2.nanos)
              rw [htaken group behind hturn]
              simp only [Option.bind_eq_bind, Option.bind_some]
              cases hscan : Measures.scan python.isdigit SpanUnit.word order fuel behind with
              | none => exact ⟨fun groups h => (by cases h), fun _ => hstuck hscan⟩
              | some groups =>
                  refine ⟨?_, fun h => by cases h⟩
                  rintro _ ⟨⟩
                  rw [hsum groups hscan, magnitude_cons]
                  push_cast
                  rw [add_assoc]

/-! ### The sign -/

/-- The text behind its minus sign. -/
def unsigned (text : Str) : Str :=
  if text.head? = some (codePoint 0x2D) then text.tail else text

theorem sign_append_unsigned (text : Str) :
    (if text.head? = some (codePoint 0x2D) then ofString "-" else []) ++ unsigned text = text := by
  rw [unsigned]
  split
  · next hhead =>
    obtain ⟨rest, rfl⟩ := List.head?_eq_some_iff.mp hhead
    rfl
  · rfl

/-- Which sign a duration has can be seen at its front: what follows begins with a digit. -/
theorem SpanText.sign {text : Str} {negative : Bool} {groups : List (Str × SpanUnit)}
    (h : SpanText text negative groups) :
    negative = decide (text.head? = some (codePoint 0x2D)) ∧
      unsigned text = Measures.text SpanUnit.word groups := by
  obtain ⟨rfl, hne, hgroups⟩ := h
  cases negative with
  | true => exact ⟨rfl, rfl⟩
  | false =>
      cases groups with
      | nil => exact absurd rfl hne
      | cons group groups =>
          obtain ⟨hcount, hdigits⟩ := hgroups group List.mem_cons_self
          obtain ⟨c, count, hc⟩ := List.exists_cons_of_ne_nil hcount
          have hdigit := hdigits c (hc ▸ List.mem_cons_self)
          have hminus : c ≠ codePoint 0x2D := by
            rintro rfl
            exact absurd hdigit (by decide)
          have hhead : ((if false then ofString "-" else []) ++
              (group :: groups).flatMap fun group => group.1 ++ group.2.word).head? ≠
                some (codePoint 0x2D) := by
            simpa [hc] using hminus
          exact ⟨(decide_eq_false hhead).symm, if_neg hhead⟩

/-- The durations are the texts that are scanned behind their sign. -/
theorem spanText_iff {text : Str} (hascii : ∀ c ∈ text, c.val < 0x80) {negative : Bool}
    {groups : List (Str × SpanUnit)} :
    SpanText text negative groups ↔
      negative = decide (text.head? = some (codePoint 0x2D)) ∧ unsigned text ≠ [] ∧
        Measures.scan python.isdigit SpanUnit.word order (unsigned text).length (unsigned text) =
          some groups := by
  rw [(order_table python).scan_eq_some_iff le_rfl]
  constructor
  · intro h
    obtain ⟨hsign, htext⟩ := h.sign
    refine ⟨hsign, ?_, fun group hgroup => ?_, htext⟩
    · rw [htext]
      obtain ⟨group, groups, rfl⟩ := List.exists_cons_of_ne_nil h.groups_ne
      have hcount := (h.group group List.mem_cons_self).count_ne
      simp [Measures.text, Measures.Group.text, hcount]
    · obtain ⟨hcount, hdigits⟩ := h.group group hgroup
      exact ⟨hcount, fun c hc => isdigit_of_isDigit python (hdigits c hc), mem_order _⟩
  · rintro ⟨rfl, hne, hgroups, htext⟩
    have hspelled : text = (if decide (text.head? = some (codePoint 0x2D)) then ofString "-"
        else []) ++ Measures.text SpanUnit.word groups := by
      simpa [htext] using (sign_append_unsigned text).symm
    refine ⟨hspelled, ?_, fun group hgroup => ?_⟩
    · rintro rfl
      exact hne htext
    · obtain ⟨hcount, hdigits, -⟩ := hgroups group hgroup
      refine ⟨hcount, fun c hc => isDigit_of_isdigit python (hascii c ?_) (hdigits c hc)⟩
      rw [hspelled]
      exact List.mem_append_right _ (List.mem_flatMap.mpr ⟨group, hgroup,
        List.mem_append_left _ hc⟩)

/-! ### The reader -/

/-- The reader sums the groups the text is scanned as, and refuses a text that is not. -/
theorem readDuration_eq (hmax : python.maxDigits = 0) {text : Str}
    (hascii : ∀ c ∈ text, c.val < 0x80) :
    (∀ negative groups, SpanText text negative groups →
      readDuration python text = .ok (.duration (signedSum negative groups / 1000000000)
        (signedSum negative groups % 1000000000))) ∧
    ((¬ ∃ negative groups, SpanText text negative groups) →
      ∃ message, readDuration python text = .error (.malformed message)) := by
  have hbody : ∀ c ∈ unsigned text, c.val < 0x80 := fun c hc =>
    hascii c (sign_append_unsigned text ▸ List.mem_append_right _ hc)
  obtain ⟨hsum, hstuck⟩ := spans_eq python hmax text (unsigned text) le_rfl hbody 0
  rw [readDuration, ← unsigned]
  constructor
  · intro negative groups h
    obtain ⟨rfl, hne, hscan⟩ := (spanText_iff python hascii).mp h
    rw [if_neg hne, hsum groups hscan, zero_add, signedSum]
    by_cases hhead : text.head? = some (codePoint 0x2D)
    · simp [hhead]
    · simp [hhead]
  · intro hno
    by_cases hne : unsigned text = []
    · exact ⟨_, by rw [if_pos hne]⟩
    · have hscan : Measures.scan python.isdigit SpanUnit.word order (unsigned text).length
          (unsigned text) = none := by
        refine Option.eq_none_iff_forall_ne_some.mpr fun groups hscan => hno ?_
        exact ⟨_, groups, (spanText_iff python hascii).mpr ⟨rfl, hne, hscan⟩⟩
      obtain ⟨message, hmessage⟩ := hstuck hscan
      exact ⟨message, by rw [if_neg hne, hmessage]; rfl⟩

/-- **Which durations are read.** Where digits are converted however many there are, an ASCII text
is read exactly when it is a duration; what is read is the sum of its counts and units, and every
other text is refused. -/
theorem durations_are_summed (hmax : python.maxDigits = 0) {text : Str}
    (hascii : ∀ c ∈ text, c.val < 0x80) :
    ((∃ value, readDuration python text = .ok value) ↔
      ∃ negative groups, SpanText text negative groups) ∧
    (∀ negative groups, SpanText text negative groups →
      ∃ seconds nanos, readDuration python text = .ok (.duration seconds nanos) ∧
        (0 ≤ nanos ∧ nanos ≤ 999999999) ∧
        seconds * 10 ^ 9 + nanos = signedSum negative groups) ∧
    ((¬ ∃ negative groups, SpanText text negative groups) →
      ∃ message, readDuration python text = .error (.malformed message)) := by
  obtain ⟨hread, hrefused⟩ := readDuration_eq python hmax hascii
  refine ⟨⟨?_, ?_⟩, fun negative groups h => ⟨_, _, hread negative groups h, ?_, ?_⟩, hrefused⟩
  · rintro ⟨value, h⟩
    by_contra hno
    obtain ⟨message, hmessage⟩ := hrefused hno
    rw [h] at hmessage
    cases hmessage
  · rintro ⟨negative, groups, h⟩
    exact ⟨_, hread negative groups h⟩
  · omega
  · omega

/-- Half a second and a minute back. -/
theorem durations_are_summed_negative :
    ((∃ value, readDuration (asciiInterpreter 0 unlimited) "-1m500ms" = .ok value) ↔
      ∃ negative groups, SpanText "-1m500ms" negative groups) ∧
    (∀ negative groups, SpanText "-1m500ms" negative groups →
      ∃ seconds nanos, readDuration (asciiInterpreter 0 unlimited) "-1m500ms" =
          .ok (.duration seconds nanos) ∧ (0 ≤ nanos ∧ nanos ≤ 999999999) ∧
        seconds * 10 ^ 9 + nanos = signedSum negative groups) ∧
    ((¬ ∃ negative groups, SpanText "-1m500ms" negative groups) →
      ∃ message, readDuration (asciiInterpreter 0 unlimited) "-1m500ms" =
        .error (.malformed message)) :=
  durations_are_summed (asciiInterpreter 0 unlimited) rfl (forall_mem_of_all rfl)

end JsonValues

end TessariDB
