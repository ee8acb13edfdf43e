import Mathlib.Data.List.Forall2

/-!
# Positions of a Tree

A tree is given by what stands directly inside a node. A property of a node holds *everywhere*
when it holds of the node and of all that stands inside it, at whatever depth.

## Main results

* `everywhere_iff`: one level at a time.
* `everywhere_and`: two properties hold everywhere when both of them do.
-/

namespace Positions

variable {α β : Type} {inside : α → List α} {P Q : α → Prop} {a : α}

/-- A property of every position. -/
inductive Everywhere (inside : α → List α) (P : α → Prop) : α → Prop where
  | node {a : α} (here : P a) (inner : ∀ b ∈ inside a, Everywhere inside P b) :
      Everywhere inside P a

theorem everywhere_iff :
    Everywhere inside P a ↔ P a ∧ ∀ b ∈ inside a, Everywhere inside P b :=
  ⟨fun ⟨here, inner⟩ => ⟨here, inner⟩, fun h => ⟨h.1, h.2⟩⟩

/-- Where nothing stands inside. -/
theorem everywhere_leaf (h : inside a = []) : Everywhere inside P a ↔ P a := by
  rw [everywhere_iff, h]
  exact and_iff_left nofun

theorem Everywhere.here (h : Everywhere inside P a) : P a := (everywhere_iff.mp h).1

theorem Everywhere.inner (h : Everywhere inside P a) : ∀ b ∈ inside a, Everywhere inside P b :=
  (everywhere_iff.mp h).2

theorem Everywhere.mono (h : Everywhere inside P a) (hPQ : ∀ b, P b → Q b) :
    Everywhere inside Q a := by
  induction h with
  | node here _ ih => exact .node (hPQ _ here) ih

/-- **Two properties hold everywhere when both of them do.** -/
theorem everywhere_and : Everywhere inside (fun b => P b ∧ Q b) a ↔
    Everywhere inside P a ∧ Everywhere inside Q a := by
  constructor
  · intro h
    exact ⟨h.mono fun _ h => h.1, h.mono fun _ h => h.2⟩
  · rintro ⟨hP, hQ⟩
    induction hP with
    | node here _ ih =>
        obtain ⟨hereQ, innerQ⟩ := everywhere_iff.mp hQ
        exact .node ⟨here, hereQ⟩ fun b hb => ih b hb (innerQ b hb)

end Positions
