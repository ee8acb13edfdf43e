import Mathlib.Data.List.Lex

/-!
# Codes that Keep an Order

Words over an ordered alphabet compare from the front. A code writes the symbols of a word one
after another and a stop behind them. It keeps the order, and no code word begins another, when
the codes of two symbols differ before either ends, the way the symbols do, and the stop differs
from every one of them before either ends, and is smaller there.

## Main results

* `Below.append`, `Below.lt`, `Below.not_begins`: words that differ before either ends.
* `IsOrderCode.below_of_lt`: smaller words have codes that differ before either ends.
* `IsOrderCode.code_lt_code_iff`, `IsOrderCode.eq_of_begins`: the order kept, and no code word the
  beginning of another.
-/

namespace OrderCode

variable {α β : Type} [LT α] [LT β]

/-! ### Words that differ -/

/-- The words differ before either ends, and the first has the smaller symbol there. -/
def Below (u v : List β) : Prop :=
  ∃ p a b s t, u = p ++ a :: s ∧ v = p ++ b :: t ∧ a < b

theorem below_cons {a b : β} (h : a < b) (s t : List β) : Below (a :: s) (b :: t) :=
  ⟨[], a, b, s, t, rfl, rfl, h⟩

/-- What follows changes nothing. -/
theorem Below.append {u v : List β} (h : Below u v) (s t : List β) : Below (u ++ s) (v ++ t) := by
  obtain ⟨p, a, b, u, v, rfl, rfl, hlt⟩ := h
  exact ⟨p, a, b, u ++ s, v ++ t, by simp, by simp, hlt⟩

/-- What both begin with changes nothing. -/
theorem Below.append_left {u v : List β} (h : Below u v) (p : List β) :
    Below (p ++ u) (p ++ v) := by
  obtain ⟨q, a, b, s, t, rfl, rfl, hlt⟩ := h
  exact ⟨p ++ q, a, b, s, t, by simp, by simp, hlt⟩

theorem Below.lt {u v : List β} (h : Below u v) : u < v := by
  obtain ⟨p, a, b, s, t, rfl, rfl, hlt⟩ := h
  exact List.append_left_lt (List.cons_lt_cons_iff.mpr (.inl hlt))

/-- Neither word begins the other. -/
theorem Below.not_begins [Std.Irrefl (α := β) (· < ·)] {u v : List β} (h : Below u v) :
    ¬ u <+: v ∧ ¬ v <+: u := by
  obtain ⟨p, a, b, s, t, rfl, rfl, hlt⟩ := h
  have hne : a ≠ b := by
    rintro rfl
    exact Std.Irrefl.irrefl a hlt
  constructor
  · intro hbegins
    exact hne (List.cons_prefix_cons.mp ((List.prefix_append_right_inj p).mp hbegins)).1
  · intro hbegins
    exact hne (List.cons_prefix_cons.mp ((List.prefix_append_right_inj p).mp hbegins)).1.symm

/-! ### Codes -/

/-- The symbols one after another, and the stop. -/
def code (f : α → List β) (stop : List β) (s : List α) : List β := s.flatMap f ++ stop

/-- The codes of two symbols differ as the symbols do, and the stop is below each. -/
structure IsOrderCode (f : α → List β) (stop : List β) : Prop where
  symbol : ∀ a b, a < b → Below (f a) (f b)
  stop : ∀ a, Below stop (f a)

variable {f : α → List β} {stop : List β}

/-- **Smaller words have smaller codes**, whatever follows these. -/
theorem IsOrderCode.below_of_lt (h : IsOrderCode f stop) {s t : List α} (hlt : s < t) :
    Below (code f stop s) (code f stop t) := by
  induction s generalizing t with
  | nil =>
      cases t with
      | nil => exact absurd hlt (List.not_lt_nil [])
      | cons b t =>
          have hbelow := (h.stop b).append [] (t.flatMap f ++ stop)
          simpa [code] using hbelow
  | cons a s ih =>
      cases t with
      | nil => exact absurd hlt (List.not_lt_nil _)
      | cons b t =>
          rcases List.cons_lt_cons_iff.mp hlt with hab | ⟨rfl, hrest⟩
          · have hbelow := (h.symbol a b hab).append (s.flatMap f ++ stop) (t.flatMap f ++ stop)
            simpa [code] using hbelow
          · have hbelow := (ih hrest).append_left (f a)
            simpa [code] using hbelow

variable [Std.Trichotomous (α := List α) (· < ·)]

/-- **The order is kept.** -/
theorem IsOrderCode.code_lt_code_iff [Std.Asymm (α := β) (· < ·)] (h : IsOrderCode f stop)
    {s t : List α} : code f stop s < code f stop t ↔ s < t := by
  refine ⟨fun hcode => ?_, fun hlt => (h.below_of_lt hlt).lt⟩
  rcases Std.Trichotomous.rel_or_eq_or_rel_swap (r := (· < · : List α → List α → Prop))
    (a := s) (b := t) with hlt | rfl | hgt
  · exact hlt
  · exact absurd hcode (List.lt_irrefl _)
  · exact absurd (h.below_of_lt hgt).lt (List.lt_asymm hcode)

/-- **No code word begins another.** -/
theorem IsOrderCode.eq_of_begins [Std.Irrefl (α := β) (· < ·)] (h : IsOrderCode f stop)
    {s t : List α} (hbegins : code f stop s <+: code f stop t) : s = t := by
  rcases Std.Trichotomous.rel_or_eq_or_rel_swap (r := (· < · : List α → List α → Prop))
    (a := s) (b := t) with hlt | heq | hgt
  · exact absurd hbegins (h.below_of_lt hlt).not_begins.1
  · exact heq
  · exact absurd hbegins (h.below_of_lt hgt).not_begins.2

end OrderCode
