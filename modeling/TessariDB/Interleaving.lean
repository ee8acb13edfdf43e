import Mathlib.Logic.Function.Basic
import Mathlib.Logic.Relation

/-!
# Interleaved Programs

A `Program` asks the world one thing after another and goes on with the answers. Any number of
them run on one world, one answer at a time and in any order; between two answers something
else may interfere with the world.

The rule for what every order of steps keeps is `Invariant.reached`: an invariant of the world
and an assertion about each thread's remaining program, which the thread's own steps carry on
and which no other step takes away.

## Main results

* `Invariant.reached`: an invariant and its assertions hold in every configuration reached.
-/

namespace Interleaving

/-- What is left of a run: a question and how to go on with its answer, or the result. -/
inductive Program (Q : Type) (A : Q → Type) (R : Type) where
  | result (r : R)
  | ask (q : Q) (next : A q → Program Q A R)

variable {Q : Type} {A : Q → Type} {R S : Type} {W ι : Type}

namespace Program

/-- One program after another. -/
def bind : Program Q A R → (R → Program Q A S) → Program Q A S
  | .result r, f => f r
  | .ask q next, f => .ask q fun a => (next a).bind f

instance : Monad (Program Q A) where
  pure := .result
  bind := bind

/-- Ask one thing and answer with the answer. -/
def once (q : Q) : Program Q A (A q) := .ask q .result

end Program

/-- A world and what is left of each thread's program. -/
structure Configuration (W ι : Type) (Q : Type) (A : Q → Type) (R : Type) where
  world : W
  threads : ι → Program Q A R

section Runs

/- `answers i w q a w'` says that the world `w` may answer `a` to the question `q` of the thread
`i` and be `w'` then, and `interferes` what else may become of a world. -/
variable [DecidableEq ι] (answers : ι → W → (q : Q) → A q → W → Prop) (interferes : W → W → Prop)

/-- One thread's question is answered, or something interferes. -/
inductive Step : Configuration W ι Q A R → Configuration W ι Q A R → Prop
  | own {w w' : W} {threads : ι → Program Q A R} (i : ι) {q : Q} {next : A q → Program Q A R}
      (a : A q) (asks : threads i = .ask q next) (answered : answers i w q a w') :
      Step ⟨w, threads⟩ ⟨w', Function.update threads i (next a)⟩
  | other {w w' : W} {threads : ι → Program Q A R} (interfered : interferes w w') :
      Step ⟨w, threads⟩ ⟨w', threads⟩

/-- Reached by steps in any order. -/
abbrev Reached : Configuration W ι Q A R → Configuration W ι Q A R → Prop :=
  Relation.ReflTransGen (Step answers interferes)

/-- An invariant `I` of the world with an assertion `J` about each thread: a thread's own steps
keep both, and neither they nor any interference takes away what another thread relies on. -/
structure Invariant (I : W → Prop) (J : ι → W → Program Q A R → Prop) : Prop where
  own : ∀ {i : ι} {w w' : W} {q : Q} {next : A q → Program Q A R} {a : A q},
    I w → J i w (.ask q next) → answers i w q a w' → I w' ∧ J i w' (next a)
  kept : ∀ {i j : ι} {w w' : W} {q : Q} {next : A q → Program Q A R} {a : A q}
    {program : Program Q A R}, I w → J i w (.ask q next) → answers i w q a w' → j ≠ i →
    J j w program → J j w' program
  interfered : ∀ {w w' : W}, I w → interferes w w' →
    I w' ∧ ∀ (j : ι) (program : Program Q A R), J j w program → J j w' program

variable {answers interferes}

/-- **What every order of steps keeps.** -/
theorem Invariant.reached {I : W → Prop} {J : ι → W → Program Q A R → Prop}
    (inv : Invariant answers interferes I J) {c c' : Configuration W ι Q A R}
    (h : Reached answers interferes c c') (hI : I c.world)
    (hJ : ∀ i, J i c.world (c.threads i)) :
    I c'.world ∧ ∀ i, J i c'.world (c'.threads i) := by
  induction h with
  | refl => exact ⟨hI, hJ⟩
  | tail _ step ih =>
      obtain ⟨hI, hJ⟩ := ih
      cases step with
      | own i a asks answered =>
          have hi := hJ i
          simp only [asks] at hI hJ hi
          obtain ⟨hI', hi'⟩ := inv.own hI hi answered
          refine ⟨hI', fun j => ?_⟩
          by_cases hji : j = i
          · subst hji
            simpa using hi'
          · simpa [hji] using inv.kept hI hi answered hji (hJ j)
      | other interfered =>
          obtain ⟨hI', hkept⟩ := inv.interfered hI interfered
          exact ⟨hI', fun j => hkept j _ (hJ j)⟩

end Runs

end Interleaving
