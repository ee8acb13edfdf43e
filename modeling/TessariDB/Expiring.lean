import Mathlib.Algebra.Order.Ring.Int

/-!
# A Cell that Expires

A cell holds a value until an instant, or for good. From that instant on it reads as empty. A
conditional write looks at what the cell reads as, stores when its condition holds, and
answers whether it stored.

## Main results

* `write_eq_true`, `write_eq_false`: what a write that stored, or did not, did to the cell.
-/

namespace Expiring

variable {α : Type}

/-- What a cell holds, and the instant it holds it until; `none` is for good. -/
structure Entry (α : Type) where
  value : α
  until_ : Option ℤ
  deriving DecidableEq, Repr

/-- What a cell reads as at an instant. -/
def live (now : ℤ) (cell : Option (Entry α)) : Option (Entry α) :=
  cell.filter fun entry => entry.until_.all (now < ·)

/-- When a conditional write stores. -/
inductive Condition (α : Type) where
  | always
  | absent
  | present
  | holding (p : α → Bool)

def Condition.holds : Condition α → Option (Entry α) → Bool
  | .always, _ => true
  | .absent, entry => entry.isNone
  | .present, entry => entry.isSome
  | .holding p, entry => entry.any fun entry => p entry.value

/-- A conditional write: whether it stored, and the cell after it. -/
def write (now : ℤ) (condition : Condition α) (entry : Entry α) (cell : Option (Entry α)) :
    Bool × Option (Entry α) :=
  if condition.holds (live now cell) then (true, some entry) else (false, cell)

theorem live_eq_some {now : ℤ} {cell : Option (Entry α)} {entry : Entry α} :
    live now cell = some entry ↔ cell = some entry ∧ ∀ u ∈ entry.until_, now < u := by
  rw [live, Option.filter_eq_some_iff]
  simp [Option.all_eq_true]

theorem write_eq_true {now : ℤ} {condition : Condition α} {entry : Entry α}
    {cell after : Option (Entry α)} (h : write now condition entry cell = (true, after)) :
    condition.holds (live now cell) = true ∧ after = some entry := by
  rw [write] at h
  split at h
  · next hholds =>
    cases h
    exact ⟨hholds, rfl⟩
  · cases h

theorem write_eq_false {now : ℤ} {condition : Condition α} {entry : Entry α}
    {cell after : Option (Entry α)} (h : write now condition entry cell = (false, after)) :
    condition.holds (live now cell) = false ∧ after = cell := by
  rw [write] at h
  split at h
  · cases h
  · next hholds =>
    cases h
    exact ⟨Bool.eq_false_iff.mpr hholds, rfl⟩

end Expiring
