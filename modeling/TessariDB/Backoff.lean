import Mathlib.Data.List.Basic
import Mathlib.Algebra.Ring.Nat
import Mathlib.Tactic.Common

/-!
# Doubling Waits

A loop that polls waits after each poll that found nothing, twice as long each time up to a
longest wait, and starts anew with the first wait once it found something. A `Schedule` says which
events of a trace are waits and which renew the waiting.

`At wait trace` is the invariant a loop keeps: every wait so far was the one that was due, and
`wait` is due next.

## Main results

* `At.quiet`, `At.concat`: what an event does to the invariant.
* `At.backsOff`: between two events that renew, the waits are the first one doubled over and over.
-/

namespace Backoff

/-- The waits of a trace, and what renews them. -/
structure Schedule (ε : Type) where
  waitOf : ε → Option ℕ
  renews : ε → Bool
  first : ℕ
  longest : ℕ
  first_le : first ≤ longest

variable {ε : Type} (s : Schedule ε)

namespace Schedule

/-- An event that has nothing to do with waiting. -/
def Quiet (event : ε) : Prop := s.waitOf event = none ∧ s.renews event = false

/-- The wait that is due after an event. -/
def next (wait : ℕ) (event : ε) : ℕ :=
  if s.renews event then s.first
  else if (s.waitOf event).isSome then min (wait * 2) s.longest
  else wait

/-- The wait that is due after a stretch. -/
def due (wait : ℕ) (trace : List ε) : ℕ := trace.foldl s.next wait

/-- Every wait is the one that is due. -/
def Paced : ℕ → List ε → Prop
  | _, [] => True
  | wait, event :: trace =>
      (∀ n, s.waitOf event = some n → n = wait) ∧ Paced (s.next wait event) trace

/-- The waits of a stretch, in order. -/
def waits (trace : List ε) : List ℕ := trace.filterMap s.waitOf

/-- The waits double from the first one up to the longest, and start anew behind an event that
renews them. -/
def BacksOff (trace : List ε) : Prop :=
  ∀ before during rest, trace = before ++ (during ++ rest) →
    (before = [] ∨ ∃ events event, before = events ++ [event] ∧ s.renews event = true) →
    (∀ event ∈ during, s.renews event = false) →
    s.waits during =
      (List.range (s.waits during).length).map fun k => min (s.first * 2 ^ k) s.longest

/-- Every wait so far was due, and this one is due next. -/
structure At (wait : ℕ) (trace : List ε) : Prop where
  paced : s.Paced s.first trace
  due : s.due s.first trace = wait

variable {s}

theorem paced_append {wait : ℕ} {trace events : List ε} :
    s.Paced wait (trace ++ events) ↔ s.Paced wait trace ∧ s.Paced (s.due wait trace) events := by
  induction trace generalizing wait with
  | nil => exact (iff_of_eq (true_and _)).symm
  | cons event trace ih =>
      rw [List.cons_append, Paced, Paced, ih, and_assoc]
      rfl

theorem due_append (wait : ℕ) (trace events : List ε) :
    s.due wait (trace ++ events) = s.due (s.due wait trace) events := List.foldl_append ..

theorem next_of_quiet {event : ε} (h : s.Quiet event) (wait : ℕ) : s.next wait event = wait := by
  rw [next, h.2, h.1]
  rfl

theorem next_of_renews {event : ε} (h : s.renews event = true) (wait : ℕ) :
    s.next wait event = s.first := if_pos h

theorem next_of_wait {event : ε} {n : ℕ} (hwait : s.waitOf event = some n)
    (hrenews : s.renews event = false) (wait : ℕ) :
    s.next wait event = min (wait * 2) s.longest := by
  rw [next, hrenews, hwait]
  rfl

theorem at_nil : s.At s.first [] := ⟨trivial, rfl⟩

namespace At

variable {wait : ℕ} {trace events : List ε}

/-- Before an event that is no wait, or the one that is due. -/
theorem concat (h : s.At wait trace) (event : ε)
    (hevent : ∀ n, s.waitOf event = some n → n = wait) :
    s.At (s.next wait event) (trace ++ [event]) where
  paced := paced_append.mpr ⟨h.paced, by rwa [h.due], trivial⟩
  due := by
    rw [due_append, h.due]
    rfl

/-- Events that have nothing to do with waiting. -/
theorem quiet (h : s.At wait trace) (hquiet : ∀ event ∈ events, s.Quiet event) :
    s.At wait (trace ++ events) := by
  induction events generalizing trace with
  | nil => rwa [List.append_nil]
  | cons event events ih =>
      obtain ⟨hevent, hrest⟩ := List.forall_mem_cons.mp hquiet
      have hnext := h.concat event fun n hn => by rw [hevent.1] at hn; cases hn
      rw [next_of_quiet hevent] at hnext
      rw [List.append_cons]
      exact ih hnext hrest

end At

/-- Doubling under a ceiling. -/
theorem min_double (first longest k : ℕ) :
    min (min (first * 2 ^ k) longest * 2) longest = min (first * 2 ^ (k + 1)) longest := by
  rw [pow_succ, ← Nat.mul_assoc]
  omega

/-- **Where nothing renews them** the waits go on doubling. -/
theorem waits_of_paced {j : ℕ} {during : List ε}
    (hpaced : s.Paced (min (s.first * 2 ^ j) s.longest) during)
    (hnone : ∀ event ∈ during, s.renews event = false) :
    s.waits during = (List.range (s.waits during).length).map
      fun k => min (s.first * 2 ^ (j + k)) s.longest := by
  induction during generalizing j with
  | nil => rfl
  | cons event during ih =>
      obtain ⟨hevent, hrest⟩ := List.forall_mem_cons.mp hnone
      obtain ⟨hdue, hpaced⟩ := hpaced
      cases hwait : s.waitOf event with
      | none =>
          rw [next_of_quiet ⟨hwait, hevent⟩] at hpaced
          rw [waits, List.filterMap_cons_none hwait]
          exact ih hpaced hrest
      | some n =>
          rw [next_of_wait hwait hevent, min_double] at hpaced
          have hwaits : s.waits (event :: during) = n :: s.waits during :=
            List.filterMap_cons_some hwait
          rw [hwaits, List.length_cons, List.range_succ_eq_map, List.map_cons, List.map_map,
            hdue n hwait, Nat.add_zero]
          refine congrArg _ ((ih hpaced hrest).trans (List.map_congr_left fun k _ => ?_))
          rw [Function.comp_apply, Nat.succ_eq_add_one, Nat.add_assoc, Nat.add_comm 1]

/-- **A loop that keeps to its waits backs off.** -/
theorem At.backsOff {wait : ℕ} {trace : List ε} (h : s.At wait trace) : s.BacksOff trace := by
  rintro before during rest rfl hbefore hnone
  have hfirst : s.first = min (s.first * 2 ^ 0) s.longest := by
    rw [pow_zero, Nat.mul_one, Nat.min_eq_left s.first_le]
  have hdue : s.due s.first before = s.first := by
    rcases hbefore with rfl | ⟨events, event, rfl, hrenews⟩
    · rfl
    · rw [due_append]
      exact next_of_renews hrenews _
  have hduring := (paced_append.mp (paced_append.mp h.paced).2).1
  rw [hdue, hfirst] at hduring
  simpa only [Nat.zero_add] using waits_of_paced hduring hnone

end Schedule

end Backoff
