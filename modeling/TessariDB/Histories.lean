import Mathlib.Data.Finset.Piecewise
import Mathlib.Data.Fintype.EquivFin
import TessariDB.Interleaving

/-!
# Histories of Programs

What a program was told on its way is a history: the events that its answers came from. Other
answers are silent, and come from nothing that happens in the world.

Where the histories of several programs are put in one order, and a world goes through their events
in that order, the programs ran interleaved on this world. A silent answer may be given at any time.

## Main results

* `reached_of_told`: programs whose histories are one order of a world's events ran interleaved on
  that world.
-/

namespace Interleaving

variable {Q : Type} {A : Q → Type} {R E W ι : Type}
variable (silent : (q : Q) → A q → Prop) (loud : (q : Q) → E → A q → Prop)

/-- How far a program got by a history. -/
inductive Told : List E → Program Q A R → Program Q A R → Prop
  | refl (program : Program Q A R) : Told [] program program
  | silent {es : List E} {q : Q} {a : A q} {next : A q → Program Q A R} {program : Program Q A R}
      (answered : silent q a) (rest : Told es (next a) program) : Told es (.ask q next) program
  | loud {e : E} {es : List E} {q : Q} {a : A q} {next : A q → Program Q A R}
      {program : Program Q A R} (answered : loud q e a) (rest : Told es (next a) program) :
      Told (e :: es) (.ask q next) program

variable [DecidableEq ι]

/-- The events of several histories in one order, in which a world goes through them. -/
inductive Ordered (does : W → E → W → Prop) : W → (ι → List E) → W → Prop
  | done (w : W) {history : ι → List E} (empty : ∀ i, history i = []) : Ordered does w history w
  | next {w w' w'' : W} {history : ι → List E} {e : E} {es : List E} (i : ι)
      (first : history i = e :: es) (happens : does w e w')
      (rest : Ordered does w' (Function.update history i es) w'') : Ordered does w history w''

/-- A world gives a silent answer, or goes through the event that the answer comes from. -/
def Answers (does : W → E → W → Prop) (_ : ι) (w : W) (q : Q) (a : A q) (w' : W) : Prop :=
  (silent q a ∧ w' = w) ∨ ∃ e, loud q e a ∧ does w e w'

/-- Nothing interferes with the world. -/
def Undisturbed (_ _ : W) : Prop := False

variable {silent loud} {does : W → E → W → Prop}

/-- Before its first event a program is told nothing but silent answers. -/
theorem Told.first {e : E} {es : List E} {p p' : Program Q A R}
    (h : Told silent loud (e :: es) p p') :
    ∃ (q : Q) (a : A q) (next : A q → Program Q A R), Told silent loud [] p (.ask q next) ∧
      loud q e a ∧ Told silent loud es (next a) p' := by
  generalize hevents : e :: es = events at h
  induction h with
  | refl p => cases hevents
  | silent answered _ ih =>
      obtain ⟨q, a, next, hsilent, hloud, hrest⟩ := ih hevents
      exact ⟨q, a, next, .silent answered hsilent, hloud, hrest⟩
  | loud answered rest _ =>
      obtain ⟨rfl, rfl⟩ := List.cons.inj hevents
      exact ⟨_, _, _, .refl _, answered, rest⟩

/-- A silent answer may be given at any time. -/
theorem reached_silently {w : W} {threads : ι → Program Q A R} {program : Program Q A R} {i : ι}
    (h : Told silent loud [] (threads i) program) :
    Reached (Answers silent loud does) Undisturbed ⟨w, threads⟩
      ⟨w, Function.update threads i program⟩ := by
  generalize hevents : ([] : List E) = events at h
  generalize hfirst : threads i = first at h
  induction h generalizing threads with
  | refl p =>
      rw [← hfirst, Function.update_eq_self]
  | @silent _ q a next p answered _ ih =>
      have hrest := @ih (Function.update threads i (next a)) hevents (Function.update_self ..)
      rw [Function.update_idem] at hrest
      exact .head (.own i a hfirst (.inl ⟨answered, rfl⟩)) hrest
  | loud answered rest _ => cases hevents

/-- What is left once every event has happened is silent. -/
theorem reached_of_silent [Finite ι] {w : W} {threads finals : ι → Program Q A R}
    (h : ∀ i, Told silent loud [] (threads i) (finals i)) :
    Reached (Answers silent loud does) Undisturbed ⟨w, threads⟩ ⟨w, finals⟩ := by
  cases nonempty_fintype ι
  have hsome : ∀ done : Finset ι, Reached (Answers silent loud does) Undisturbed ⟨w, threads⟩
      ⟨w, done.piecewise finals threads⟩ := by
    intro done
    induction done using Finset.induction with
    | empty => rw [Finset.piecewise_empty]
    | insert i done hi ih =>
        rw [Finset.piecewise_insert]
        refine ih.trans (reached_silently ?_)
        rw [Finset.piecewise_eq_of_notMem _ _ _ hi]
        exact h i
  have hall := hsome Finset.univ
  rwa [Finset.piecewise_univ] at hall

/-- **Programs with ordered histories ran interleaved**, on the world that went through their
events. -/
theorem reached_of_told [Finite ι] {w w' : W} {history : ι → List E}
    {threads finals : ι → Program Q A R} (hordered : Ordered does w history w')
    (h : ∀ i, Told silent loud (history i) (threads i) (finals i)) :
    Reached (Answers silent loud does) Undisturbed ⟨w, threads⟩ ⟨w', finals⟩ := by
  induction hordered generalizing threads with
  | done w empty => exact reached_of_silent fun i => empty i ▸ h i
  | @next w w₁ w' history e es i first happens _ ih =>
      obtain ⟨q, a, next, hsilent, hloud, hrest⟩ := (first ▸ h i).first
      have hasked : Reached (Answers silent loud does) Undisturbed ⟨w, threads⟩
          ⟨w, Function.update threads i (.ask q next)⟩ := reached_silently hsilent
      have hanswered := hasked.tail
        (.own i a (Function.update_self ..) (.inr ⟨e, hloud, happens⟩))
      rw [Function.update_idem] at hanswered
      refine hanswered.trans (ih fun j => ?_)
      by_cases hj : j = i
      · subst hj
        rwa [Function.update_self, Function.update_self]
      · rw [Function.update_of_ne hj, Function.update_of_ne hj]
        exact h j

/-- Fewer steps become more. -/
theorem Reached.mono {answers answers' : ι → W → (q : Q) → A q → W → Prop}
    {interferes : W → W → Prop}
    (h : ∀ {i w q a w'}, answers i w q a w' → answers' i w q a w')
    {c c' : Configuration W ι Q A R} (hreached : Reached answers interferes c c') :
    Reached answers' interferes c c' := by
  have hstep : ∀ c c' : Configuration W ι Q A R, Step answers interferes c c' →
      Step answers' interferes c c' := by
    intro c c' step
    cases step with
    | own i a asks answered => exact .own i a asks (h answered)
    | other interfered => exact .other interfered
  exact Relation.ReflTransGen.mono hstep _ _ hreached

end Interleaving
