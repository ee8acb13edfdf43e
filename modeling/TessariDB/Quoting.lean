import TessariDB.Events

/-!
# Quoted Keys

`unquoted` of `cache.py` takes the quotes and the backslashes of a key away again. It goes over what
stands between the first and the last character, and does not ask where the text ends: `scan` does,
which stops at the first quote that no backslash stands before. What `scan` reads up to the end of
a text is what `unquoted` makes of it, so it undoes the quoting of an event.

## Main results

* `scan_eq_some_iff`: what the scanner reads, and where it stops.
* `unquoted_of_scan`: the reader of keys on a text that is closed at its end.
* `quoting_is_lossless`: quoting is ended where it ends, and undone.
-/

namespace TessariDB

namespace Quoting

open Utf8 Text Literals

/-- The loop of `unquoted`. -/
def collected : Bool → Str → Str
  | _, [] => []
  | escaped, c :: rest =>
      if escaped then c :: collected false rest
      else if c = BACKSLASH then collected true rest
      else c :: collected false rest

/-- `unquoted`. -/
def unquoted (spelled : Str) : Str :=
  if spelled.length < 2 ∨ ¬ (spelled.head? = some QUOTE ∧ spelled.getLast? = some QUOTE) then spelled
  else collected false spelled.tail.dropLast

/-- No quote ends the text, and no backslash is left over at its end. -/
def Inside : Bool → Str → Prop
  | escaped, [] => escaped = false
  | true, _ :: rest => Inside false rest
  | false, c :: rest => c ≠ QUOTE ∧ Inside (decide (c = BACKSLASH)) rest

/-- The scanner goes over what stands inside, and stops behind the quote that follows. -/
theorem scan_of_inside {escaped : Bool} {body : Str} (h : Inside escaped body) (r : Str) :
    scan escaped (body ++ QUOTE :: r) = some (collected escaped body, r) := by
  induction body generalizing escaped with
  | nil =>
      obtain rfl : escaped = false := h
      simp [scan, collected]
  | cons c body ih =>
      cases escaped with
      | true => simp [scan, collected, ih h]
      | false =>
          obtain ⟨hquote, hinside⟩ := h
          by_cases hback : c = BACKSLASH
          · rw [decide_eq_true hback] at hinside
            have hne : BACKSLASH ≠ QUOTE := hback ▸ hquote
            simp [scan, collected, hne, hback, ih hinside]
          · rw [decide_eq_false hback] at hinside
            simp [scan, collected, hquote, hback, ih hinside]

/-- What the scanner stops at is the end of what stands inside. -/
theorem inside_of_scan {escaped : Bool} {t s r : Str} (h : scan escaped t = some (s, r)) :
    ∃ body, t = body ++ QUOTE :: r ∧ Inside escaped body := by
  induction t generalizing escaped s with
  | nil => cases h
  | cons c rest ih =>
      cases escaped with
      | true =>
          obtain ⟨⟨s', r'⟩, hscan, heq⟩ := Option.map_eq_some_iff.mp h
          obtain rfl := (Prod.mk.inj heq).2
          obtain ⟨body, rfl, hinside⟩ := ih hscan
          exact ⟨c :: body, rfl, hinside⟩
      | false =>
          by_cases hquote : c = QUOTE
          · rw [scan, if_neg Bool.false_ne_true, if_pos hquote] at h
            cases h
            exact ⟨[], by rw [hquote]; rfl, rfl⟩
          · rw [scan, if_neg Bool.false_ne_true, if_neg hquote] at h
            by_cases hback : c = BACKSLASH
            · rw [if_pos hback] at h
              obtain ⟨body, rfl, hinside⟩ := ih h
              exact ⟨c :: body, rfl, hquote, by rwa [decide_eq_true hback]⟩
            · rw [if_neg hback] at h
              obtain ⟨⟨s', r'⟩, hscan, heq⟩ := Option.map_eq_some_iff.mp h
              obtain rfl := (Prod.mk.inj heq).2
              obtain ⟨body, rfl, hinside⟩ := ih hscan
              exact ⟨c :: body, rfl, hquote, by rwa [decide_eq_false hback]⟩

/-- **What the scanner reads**: all that stands before the first quote that is not escaped, as
`unquoted` collects it. -/
theorem scan_eq_some_iff {escaped : Bool} {t s r : Str} :
    scan escaped t = some (s, r) ↔
      ∃ body, t = body ++ QUOTE :: r ∧ Inside escaped body ∧ collected escaped body = s := by
  constructor
  · intro h
    obtain ⟨body, rfl, hinside⟩ := inside_of_scan h
    rw [scan_of_inside hinside] at h
    exact ⟨body, rfl, hinside, (Prod.mk.inj (Option.some.inj h)).1⟩
  · rintro ⟨body, rfl, hinside, rfl⟩
    exact scan_of_inside hinside r

/-- The reader of keys makes of a text that is closed at its end what the scanner reads. -/
theorem unquoted_of_scan {t s : Str} (h : scan false t = some (s, [])) :
    unquoted (QUOTE :: t) = s := by
  obtain ⟨body, rfl, -, hcollected⟩ := scan_eq_some_iff.mp h
  have hlong : ¬ (QUOTE :: (body ++ [QUOTE])).length < 2 := by
    rw [List.length_cons, List.length_append, List.length_singleton]
    omega
  have hends : (QUOTE :: (body ++ [QUOTE])).head? = some QUOTE ∧
      (QUOTE :: (body ++ [QUOTE])).getLast? = some QUOTE :=
    ⟨rfl, by rw [← List.cons_append, List.getLast?_concat]⟩
  rw [unquoted, if_neg (not_or.mpr ⟨hlong, not_not.mpr hends⟩), List.tail_cons,
    List.dropLast_concat, hcollected]

/-- **Quoting is lossless and closed.** Behind the opening quote the scanner reads the text and
stops where its quoting ends, whatever follows, and the reader of keys undoes the quoting. -/
theorem quoting_is_lossless (s r : Str) :
    (∃ rest, Events.quoted s = QUOTE :: rest ∧ scan false (rest ++ r) = some (s, r)) ∧
      unquoted (Events.quoted s) = s := by
  rw [Events.quoted_eq, Literals.quoted]
  refine ⟨⟨_, rfl, ?_⟩, unquoted_of_scan (scan_quoted s [])⟩
  rw [List.append_assoc, List.singleton_append, scan_quoted]

end Quoting

end TessariDB
