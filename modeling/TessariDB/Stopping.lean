import TessariDB.Queue

/-!
# Stopping a Worker

`stop` is looked at before each claim and after each record, so a run of a queue's worker in which
it is called ends: the claim that was on its way may still be answered, and it leads to one wait or
to one call of the handler and no more. What was claimed and not begun by then is handed back.

## Main results

* `Queue.nextBatchLoop_cases`: what one turn of the loop over claims does.
* `stop_ends_every_run`: a run ends once `stop` is called, however it had gone.
-/

namespace TessariDB

/-! ### Events of a kind -/

namespace WorkerEvent

variable {α : Type}

def isClaim : WorkerEvent α → Bool
  | .claimed _ => true
  | _ => false

/-- What a worker begins after a claim: a wait, or a call of the handler. -/
def isBegun : WorkerEvent α → Bool
  | .waited _ => true
  | .shown _ => true
  | _ => false

/-- A kind of events that are none of ending and settling a record. -/
structure Beside (P : WorkerEvent α → Bool) : Prop where
  stop : P .stop = false
  ended : ∀ job ending, P (.ended job ending) = false
  settled : ∀ job script, P (.settled job script) = false

theorem beside_isClaim : Beside (isClaim : WorkerEvent α → Bool) :=
  ⟨rfl, fun _ _ => rfl, fun _ _ => rfl⟩

theorem beside_isBegun : Beside (isBegun : WorkerEvent α → Bool) :=
  ⟨rfl, fun _ _ => rfl, fun _ _ => rfl⟩

end WorkerEvent

open Utf8 WorkerEvent

section Kinds

variable {α : Type} {P : WorkerEvent α → Bool}

/-- How many events of a kind come after the first call of `stop`. -/
def late (P : WorkerEvent α → Bool) (trace : List (WorkerEvent α)) : ℕ :=
  (trace.dropWhile fun event => !event.isStop).countP P

theorem late_append_le (trace events : List (WorkerEvent α)) :
    late P (trace ++ events) ≤ late P trace + events.countP P := by
  rw [late, List.dropWhile_append]
  split
  · exact (List.Sublist.countP_le (List.dropWhile_sublist _)).trans (Nat.le_add_left ..)
  · rw [List.countP_append]
    exact Nat.le_refl _

theorem late_of_not_stopped {w : Worker α} (h : w.stopped = false) : late P w.trace = 0 := by
  have hnone : (w.trace.dropWhile fun event => !event.isStop) = [] := by
    rw [List.dropWhile_eq_nil_iff]
    intro event hevent
    rw [Worker.stopped, List.any_eq_false] at h
    simpa using h event hevent
  rw [late, hnone]
  rfl

/-- What happens between two moments of a run, with at most `n` events of a kind. -/
def AtMost (P : WorkerEvent α → Bool) (n : ℕ) (w v : Worker α) : Prop :=
  ∃ events, v.trace = w.trace ++ events ∧ events.countP P ≤ n

namespace AtMost

variable {m n : ℕ} {w v u : Worker α}

theorem refl (P : WorkerEvent α → Bool) (w : Worker α) : AtMost P 0 w w :=
  ⟨[], (List.append_nil _).symm, Nat.le_refl _⟩

theorem trans (h : AtMost P m w v) (h' : AtMost P n v u) : AtMost P (m + n) w u := by
  obtain ⟨events, htrace, hle⟩ := h
  obtain ⟨events', htrace', hle'⟩ := h'
  refine ⟨events ++ events', by rw [htrace', htrace, List.append_assoc], ?_⟩
  rw [List.countP_append]
  omega

theorem note (P : WorkerEvent α → Bool) (w : Worker α) (event : WorkerEvent α) :
    AtMost P (if P event then 1 else 0) w (w.note event) :=
  ⟨[event], rfl, Nat.le_of_eq (List.countP_singleton ..)⟩

theorem tick (hP : Beside P) (out : Outside α) (w : Worker α) : AtMost P 0 w (w.tick out) := by
  rw [Worker.tick]
  split
  · exact ⟨[.stop], rfl, by rw [List.countP_singleton, hP.stop]; exact Nat.le_refl _⟩
  · exact refl P w

theorem tick_note (hP : Beside P) (out : Outside α) (w : Worker α) {event : WorkerEvent α}
    (hevent : P event = false) : AtMost P 0 w ((w.tick out).note event) := by
  have hnote := note P (w.tick out) event
  rw [hevent] at hnote
  exact (tick hP out w).trans hnote

theorem late_le (h : AtMost P n w v) : late P v.trace ≤ late P w.trace + n := by
  obtain ⟨events, htrace, hle⟩ := h
  rw [htrace]
  exact (late_append_le w.trace events).trans (Nat.add_le_add_left hle _)

end AtMost

end Kinds

/-! ### What the parts of a run add -/

namespace Queue

variable {α : Type} {P : WorkerEvent α → Bool} (hP : Beside P)
  (millis : Double → Except Rejected ℤ) (out : Outside α) (q : Queue) (deed : HandlerEnd α → Deed)

include hP

theorem settle_atMost (job : Job) (script : Str) (w : Worker α) :
    AtMost P 0 w (settle out job script w).2 := by
  have h := AtMost.tick_note hP out w (hP.settled job script)
  rw [settle]
  split <;> exact h

theorem release_atMost (job : Job) (after : Option Double) (w : Worker α) :
    AtMost P 0 w (q.release millis out job after w).2 := by
  rw [release]
  split
  · exact AtMost.refl P w
  · exact settle_atMost hP out job _ w

theorem handBack_atMost (jobs : List Job) (w : Worker α) :
    AtMost P 0 w (q.handBack millis out jobs w).2 := by
  induction jobs generalizing w with
  | nil => exact AtMost.refl P w
  | cons job jobs ih =>
      have hrelease := release_atMost hP millis out q job none w
      rw [handBack]
      rcases hr : q.release millis out job none w with ⟨why | done, v⟩
      · rw [hr] at hrelease
        exact hrelease
      · rw [hr] at hrelease
        exact hrelease.trans (ih v)

/-- A turn is one call of the handler, and settling. -/
theorem turn_atMost (job : Job) (w : Worker α) :
    AtMost P (if P (.shown job) then 1 else 0) w (q.turn millis out deed job w).2 := by
  have hshown := (AtMost.tick hP out w).trans (AtMost.note P (w.tick out) (.shown job))
  have hcall : AtMost P (if P (.shown job) then 1 else 0) w (call out job w).2 := by
    have hended := AtMost.note P (((w.tick out).note (.shown job)).tick out)
      (.ended job (out.handler (((w.tick out).note (.shown job)).tick out).step job))
    rw [hP.ended] at hended
    have hall := (hshown.trans (AtMost.tick hP out _)).trans hended
    rwa [Nat.zero_add, Nat.add_zero, if_neg Bool.false_ne_true, Nat.add_zero] at hall
  rcases hc : call out job w with ⟨ending, v⟩
  rw [hc] at hcall
  simp only [turn, hc]
  cases deed ending with
  | finish => exact hcall.trans (settle_atMost hP out job _ v)
  | release after => exact hcall.trans (release_atMost hP millis out q job after v)
  | leave => exact hcall
  | raise why => exact hcall

omit hP

/-- A claim takes some records, or raises. -/
theorem claim_cases (w : Worker α) :
    (∃ why, q.claim out w = (.error why, w.tick out)) ∨
      ∃ jobs, q.claim out w = (.ok jobs, (w.tick out).note (.claimed jobs)) := by
  rw [claim]
  split
  · exact .inl ⟨_, rfl⟩
  split
  · exact .inl ⟨_, rfl⟩
  split
  · split
    · exact .inl ⟨_, rfl⟩
    · exact .inr ⟨_, rfl⟩
  · exact .inl ⟨_, rfl⟩

/-- **One turn of the loop over claims.** It ends where `stop` was called, where a claim raises
something that is no race, and where a claim took something; otherwise it waits, and goes on with
twice the wait. -/
theorem nextBatchLoop_cases (wait : ℕ) (w : Worker α) :
    ((w.tick out).stopped = true ∧
      ∀ fuel, q.nextBatchLoop out (fuel + 1) wait w = some (.ok none, w.tick out)) ∨
    (w.tick out).stopped = false ∧
      ((∃ why, ∀ fuel, q.nextBatchLoop out (fuel + 1) wait w =
          some (.error why, (w.tick out).tick out)) ∨
        (∃ job jobs, ∀ fuel, q.nextBatchLoop out (fuel + 1) wait w =
          some (.ok (some (job :: jobs)),
            ((w.tick out).tick out).note (.claimed (job :: jobs)))) ∨
        ∃ u, (u = (w.tick out).tick out ∨ u = ((w.tick out).tick out).note (.claimed [])) ∧
          ∀ fuel, q.nextBatchLoop out (fuel + 1) wait w = q.nextBatchLoop out fuel
            (min (wait * 2) LONGEST_WAIT) ((u.tick out).note (.waited wait))) := by
  cases hstopped : (w.tick out).stopped with
  | true => exact .inl ⟨rfl, fun fuel => by rw [nextBatchLoop]; exact if_pos hstopped⟩
  | false =>
      have hrunning : ¬ (w.tick out).stopped = true := by rw [hstopped]; decide
      refine .inr ⟨rfl, ?_⟩
      rcases claim_cases out q (w.tick out) with ⟨why, hclaim⟩ | ⟨jobs, hclaim⟩
      · cases why with
        | raised why =>
            cases why with
            | refused message refusalClass =>
                by_cases hretry : refusalClass = some .retry
                · refine .inr (.inr ⟨_, .inl rfl, fun fuel => ?_⟩)
                  simp only [nextBatchLoop, if_neg hrunning, hclaim, hretry, ne_eq, not_true,
                    if_false]
                · refine .inl ⟨.raised (.refused message refusalClass), fun fuel => ?_⟩
                  simp only [nextBatchLoop, if_neg hrunning, hclaim]
                  exact if_pos hretry
            | _ =>
                exact .inl ⟨_, fun fuel => by
                  simp only [nextBatchLoop, if_neg hrunning, hclaim]
                  rfl⟩
        | _ =>
            exact .inl ⟨_, fun fuel => by
              simp only [nextBatchLoop, if_neg hrunning, hclaim]
              rfl⟩
      · cases jobs with
        | nil =>
            refine .inr (.inr ⟨_, .inr rfl, fun fuel => ?_⟩)
            simp only [nextBatchLoop, if_neg hrunning, hclaim]
        | cons job jobs =>
            refine .inr (.inl ⟨job, jobs, fun fuel => ?_⟩)
            simp only [nextBatchLoop, if_neg hrunning, hclaim]

/-- A loop that ended ends the same with more fuel. -/
theorem nextBatchLoop_mono {fuel fuel' wait : ℕ} {w : Worker α}
    {r : Except QueueError (Option (List Job)) × Worker α} (hle : fuel ≤ fuel')
    (h : q.nextBatchLoop out fuel wait w = some r) :
    q.nextBatchLoop out fuel' wait w = some r := by
  induction fuel generalizing fuel' wait w with
  | zero => cases h
  | succ fuel ih =>
      obtain ⟨fuel', rfl⟩ := Nat.exists_eq_succ_of_ne_zero (show fuel' ≠ 0 by omega)
      rcases nextBatchLoop_cases out q wait w with ⟨-, hloop⟩ | ⟨-, ⟨why, hloop⟩ |
        ⟨job, jobs, hloop⟩ | ⟨u, -, hloop⟩⟩
      · rw [hloop] at h ⊢
        exact h
      · rw [hloop] at h ⊢
        exact h
      · rw [hloop] at h ⊢
        exact h
      · rw [hloop] at h ⊢
        exact ih (by omega) h

/-- Nor does a run that ended depend on the fuel. -/
theorem runLoop_mono {fuel fuel' : ℕ} {w : Worker α} {r : Except QueueError Unit × Worker α}
    (hle : fuel ≤ fuel') (h : q.runLoop millis out deed fuel w = some r) :
    q.runLoop millis out deed fuel' w = some r := by
  induction fuel generalizing fuel' w with
  | zero => cases h
  | succ fuel ih =>
      obtain ⟨fuel', rfl⟩ := Nat.exists_eq_succ_of_ne_zero (show fuel' ≠ 0 by omega)
      rw [runLoop] at h ⊢
      rcases hb : q.nextBatch out fuel w with - | ⟨claimed, u⟩
      · rw [hb] at h
        cases h
      rw [hb] at h
      have hmore : q.nextBatch out fuel' w = some (claimed, u) :=
        nextBatchLoop_mono out q (by omega) hb
      rw [hmore]
      rcases claimed with why | _ | jobs
      · exact h
      · exact h
      · rcases hl : q.batchLoop millis out deed jobs u with ⟨why | _ | _, v⟩
        · simp only [hl] at h ⊢
          exact h
        · simp only [hl] at h ⊢
          exact ih (by omega) h
        · simp only [hl] at h ⊢
          exact h

/-! ### Ending -/

/-- `stop` was called, or its step is still to come. -/
def Due (k : ℕ) (w : Worker α) : Prop := w.stopped = true ∨ w.step ≤ k

theorem stopped_note {w : Worker α} (h : w.stopped = true) (event : WorkerEvent α) :
    (w.note event).stopped = true := by
  rw [Worker.stopped, Worker.note, List.any_append, ← Worker.stopped, h, Bool.true_or]

theorem stopped_tick {w : Worker α} (h : w.stopped = true) : (w.tick out).stopped = true := by
  rw [Worker.tick]
  split
  · exact stopped_note h .stop
  · exact h

variable {out}

/-- The step of `stop` is not passed over. -/
theorem Due.tick {k : ℕ} (hstop : out.stops k = true) {w : Worker α} (h : Due k w) :
    Due k (w.tick out) := by
  rcases h with h | h
  · exact .inl (stopped_tick out h)
  rcases Nat.eq_or_lt_of_le h with rfl | hlt
  · left
    rw [Worker.tick, if_pos hstop, Worker.stopped, List.any_append]
    simp [WorkerEvent.isStop]
  · exact .inr hlt

theorem Due.note {k : ℕ} {w : Worker α} (h : Due k w) (event : WorkerEvent α) :
    Due k (w.note event) := h.imp (fun h => stopped_note h event) id

/-- A computation that goes on to a later step, and not past that of `stop`. -/
structure Proceeds (k : ℕ) (w v : Worker α) : Prop where
  due : Due k v
  step : w.step ≤ v.step

namespace Proceeds

variable {k : ℕ} {w v u : Worker α}

theorem refl (h : Due k w) : Proceeds k w w := ⟨h, Nat.le_refl _⟩

theorem trans (h : Proceeds k w v) (h' : Proceeds k v u) : Proceeds k w u :=
  ⟨h'.due, h.step.trans h'.step⟩

theorem tick (hstop : out.stops k = true) (h : Proceeds k w v) : Proceeds k w (v.tick out) :=
  ⟨h.due.tick hstop, h.step.trans (Nat.le_succ _)⟩

theorem note (h : Proceeds k w v) (event : WorkerEvent α) : Proceeds k w (v.note event) :=
  ⟨h.due.note event, h.step⟩

end Proceeds

section Ending

variable {k : ℕ} (hstop : out.stops k = true)

include hstop

theorem settle_proceeds (job : Job) (script : Str) {w : Worker α} (h : Due k w) :
    Proceeds k w (settle out job script w).2 := by
  have hsent := ((Proceeds.refl h).tick hstop).note (.settled job script)
  rw [settle]
  split <;> exact hsent

theorem release_proceeds (job : Job) (after : Option Double) {w : Worker α} (h : Due k w) :
    Proceeds k w (q.release millis out job after w).2 := by
  rw [release]
  split
  · exact .refl h
  · exact settle_proceeds hstop job _ h

theorem handBack_proceeds (jobs : List Job) {w : Worker α} (h : Due k w) :
    Proceeds k w (q.handBack millis out jobs w).2 := by
  induction jobs generalizing w with
  | nil => exact .refl h
  | cons job jobs ih =>
      have hrelease := release_proceeds millis q hstop job none h
      rw [handBack]
      rcases hr : q.release millis out job none w with ⟨why | done, v⟩
      · rw [hr] at hrelease
        exact hrelease
      · rw [hr] at hrelease
        exact hrelease.trans (ih hrelease.due)

theorem turn_proceeds (job : Job) {w : Worker α} (h : Due k w) :
    Proceeds k w (q.turn millis out deed job w).2 := by
  have hcall : Proceeds k w (call out job w).2 :=
    ((((Proceeds.refl h).tick hstop).note (.shown job)).tick hstop).note _
  rcases hc : call out job w with ⟨ending, v⟩
  rw [hc] at hcall
  simp only [turn, hc]
  cases deed ending with
  | finish => exact hcall.trans (settle_proceeds hstop job _ hcall.due)
  | release after => exact hcall.trans (release_proceeds millis q hstop job after hcall.due)
  | leave => exact hcall
  | raise why => exact hcall

theorem batchLoop_proceeds (jobs : List Job) {w : Worker α} (h : Due k w) :
    Proceeds k w (q.batchLoop millis out deed jobs w).2 := by
  induction jobs generalizing w with
  | nil => exact .refl h
  | cons job jobs ih =>
      have hturn := turn_proceeds millis q deed hstop job h
      rw [batchLoop]
      rcases ht : q.turn millis out deed job w with ⟨why | done, v⟩
      · rw [ht] at hturn
        exact hturn
      rw [ht] at hturn
      have hchecked : Proceeds k w (v.tick out) := hturn.tick hstop
      cases hstopped : (v.tick out).stopped with
      | true =>
          have hback := handBack_proceeds millis q hstop jobs hchecked.due
          simp only [hstopped, if_true]
          rcases hb : q.handBack millis out jobs (v.tick out) with ⟨why | done, u⟩ <;>
          · rw [hb] at hback
            exact hchecked.trans hback
      | false =>
          simp only [hstopped, Bool.false_eq_true, if_false]
          exact hchecked.trans (ih hchecked.due)

omit hstop in
/-- The loop over a batch leaves off only where `stop` had not been called yet. -/
theorem batchLoop_running {jobs : List Job} {w u : Worker α} (hw : jobs = [] → w.stopped = false)
    (h : q.batchLoop millis out deed jobs w = (.ok false, u)) : u.stopped = false := by
  induction jobs generalizing w with
  | nil =>
      obtain ⟨-, rfl⟩ := Prod.mk.inj h
      exact hw rfl
  | cons job jobs ih =>
      rw [batchLoop] at h
      rcases ht : q.turn millis out deed job w with ⟨why | done, v⟩
      · rw [ht] at h
        cases h
      rw [ht] at h
      cases hstopped : (v.tick out).stopped with
      | true =>
          simp only [hstopped, if_true] at h
          rcases hb : q.handBack millis out jobs (v.tick out) with ⟨why | done, u'⟩ <;>
          · rw [hb] at h
            cases h
      | false =>
          simp only [hstopped, Bool.false_eq_true, if_false] at h
          exact ih (fun _ => hstopped) h

/-- **The loop over claims ends**, with a step made, once it has the fuel for the steps that are
left before that of `stop`. -/
theorem nextBatchLoop_ends {fuel wait : ℕ} {w : Worker α} (h : Due k w) (hpos : 0 < fuel)
    (hfuel : k + 2 ≤ fuel + w.step) :
    ∃ result v, q.nextBatchLoop out fuel wait w = some (result, v) ∧ Due k v ∧
      w.step < v.step ∧ ∀ jobs, result = .ok (some jobs) → jobs ≠ [] := by
  induction fuel generalizing wait w with
  | zero => omega
  | succ fuel ih =>
      have hfirst : Due k (w.tick out) := h.tick hstop
      have hsecond : Due k ((w.tick out).tick out) := hfirst.tick hstop
      have hstep : ((w.tick out).tick out).step = w.step + 2 := rfl
      rcases nextBatchLoop_cases out q wait w with ⟨-, hloop⟩ | ⟨hrunning, ⟨why, hloop⟩ |
        ⟨job, jobs, hloop⟩ | ⟨u, hu, hloop⟩⟩
      · exact ⟨_, _, hloop fuel, hfirst, Nat.lt_succ_self _, fun _ h => by cases h⟩
      · exact ⟨_, _, hloop fuel, hsecond, by omega, fun _ h => by cases h⟩
      · refine ⟨_, _, hloop fuel, hsecond.note _, Nat.lt_of_lt_of_le (Nat.lt_succ_self _)
          (Nat.le_succ _), fun taken h => ?_⟩
        obtain rfl := Option.some.inj (Except.ok.inj h)
        exact List.cons_ne_nil _ _
      · have hdue : Due k u := by
          rcases hu with rfl | rfl
          · exact hsecond
          · exact hsecond.note _
        have hustep : u.step = w.step + 2 := by
          rcases hu with rfl | rfl <;> rfl
        have hwaited : ((u.tick out).note (.waited wait)).step = w.step + 3 := by
          exact congrArg (· + 1) hustep
        -- `stop` had not been called at the check, so its step was still to come then.
        have hbefore : (w.tick out).step ≤ k := hfirst.resolve_left (by rw [hrunning]; decide)
        have hlt : w.step + 1 ≤ k := hbefore
        obtain ⟨result, v, hrest, hv, hlater, hjobs⟩ :=
          @ih (min (wait * 2) LONGEST_WAIT) _ ((hdue.tick hstop).note (.waited wait)) (by omega)
            (by omega)
        exact ⟨result, v, (hloop fuel).trans hrest, hv, by omega, hjobs⟩

/-- **A run ends.** -/
theorem runLoop_ends {fuel : ℕ} {w : Worker α} (h : Due k w) (hpos : 2 ≤ fuel)
    (hfuel : k + 3 ≤ fuel + w.step) :
    ∃ result v, q.runLoop millis out deed fuel w = some (result, v) := by
  induction fuel generalizing w with
  | zero => omega
  | succ fuel ih =>
      obtain ⟨result, v, hnext, hdue, hstep, hjobs⟩ :=
        @nextBatchLoop_ends _ _ q k hstop fuel FIRST_WAIT w h (by omega) (by omega)
      rw [runLoop, nextBatch, hnext]
      rcases result with why | _ | jobs
      · exact ⟨_, _, rfl⟩
      · exact ⟨_, _, rfl⟩
      · have hbatch := batchLoop_proceeds millis q deed hstop jobs hdue
        rcases hb : q.batchLoop millis out deed jobs v with ⟨why | _ | _, u⟩
        · simp only [hb]
          exact ⟨_, _, rfl⟩
        · -- `stop` had not been called, so there is fuel for another batch.
          rw [hb] at hbatch
          have hlater : v.step ≤ u.step := hbatch.step
          have hrunning := batchLoop_running millis q deed
            (fun hnil => absurd hnil (hjobs jobs rfl)) hb
          have hbefore : u.step ≤ k := hbatch.due.resolve_left (by rw [hrunning]; decide)
          simp only [hb]
          exact ih hbatch.due (by omega) (by omega)
        · simp only [hb]
          exact ⟨_, _, rfl⟩

end Ending

/-! ### What comes after `stop` -/

variable {q}

/-- After `stop` the loop over claims is answered once more and waits once more, at most; where it
hands on some records, it did not wait. -/
theorem nextBatchLoop_late {fuel wait : ℕ} {w v : Worker α}
    {result : Except QueueError (Option (List Job))}
    (h : q.nextBatchLoop out fuel wait w = some (result, v)) (hclaim : late isClaim w.trace ≤ 1)
    (hbegun : late isBegun w.trace ≤ 1) :
    late isClaim v.trace ≤ 1 ∧ late isBegun v.trace ≤ 1 ∧
      ∀ jobs, result = .ok (some jobs) → late isBegun v.trace = 0 := by
  induction fuel generalizing wait w with
  | zero => cases h
  | succ fuel ih =>
      have hfirst := fun (P : WorkerEvent α → Bool) (hP : Beside P) =>
        (AtMost.tick hP out w).late_le
      rcases nextBatchLoop_cases out q wait w with ⟨-, hloop⟩ | ⟨hrunning, hloop⟩
      · rw [hloop] at h
        cases h
        exact ⟨(hfirst _ beside_isClaim).trans hclaim, (hfirst _ beside_isBegun).trans hbegun,
          fun _ h => by cases h⟩
      -- `stop` had not been called at the check.
      have hzero : ∀ P : WorkerEvent α → Bool, late P (w.tick out).trace = 0 :=
        fun P => late_of_not_stopped hrunning
      have hsecond : ∀ P : WorkerEvent α → Bool, Beside P →
          late P ((w.tick out).tick out).trace = 0 := fun P hP =>
        Nat.le_zero.mp ((hzero P) ▸ (AtMost.tick hP out (w.tick out)).late_le)
      have hclaimed : ∀ jobs, late isClaim (((w.tick out).tick out).note
          (.claimed jobs)).trace ≤ 1 ∧ late isBegun (((w.tick out).tick out).note
          (.claimed jobs)).trace = 0 := fun jobs => by
        have hclaims := (AtMost.note isClaim ((w.tick out).tick out) (.claimed jobs)).late_le
        have hbegins := (AtMost.note isBegun ((w.tick out).tick out) (.claimed jobs)).late_le
        rw [hsecond _ beside_isClaim] at hclaims
        rw [hsecond _ beside_isBegun] at hbegins
        exact ⟨hclaims, Nat.le_zero.mp hbegins⟩
      rcases hloop with ⟨why, hloop⟩ | ⟨job, jobs, hloop⟩ | ⟨u, hu, hloop⟩
      · rw [hloop] at h
        cases h
        rw [hsecond _ beside_isClaim, hsecond _ beside_isBegun]
        exact ⟨Nat.zero_le _, Nat.zero_le _, fun _ h => by cases h⟩
      · rw [hloop] at h
        cases h
        obtain ⟨hone, hnone⟩ := hclaimed (job :: jobs)
        exact ⟨hone, hnone ▸ Nat.zero_le _, fun _ _ => hnone⟩
      · rw [hloop] at h
        have hlate : late isClaim u.trace ≤ 1 ∧ late isBegun u.trace = 0 := by
          rcases hu with rfl | rfl
          · exact ⟨hsecond _ beside_isClaim ▸ Nat.zero_le _, hsecond _ beside_isBegun⟩
          · exact hclaimed []
        have hwaited := fun (P : WorkerEvent α → Bool) (hP : Beside P) =>
          ((AtMost.tick hP out u).trans (AtMost.note P (u.tick out) (.waited wait))).late_le
        exact ih h ((hwaited _ beside_isClaim).trans hlate.1)
          ((hwaited _ beside_isBegun).trans (by rw [hlate.2]; exact Nat.le_refl _))

variable {millis} {deed}

/-- After `stop` the loop over a batch calls the handler once more, at most. -/
theorem batchLoop_late {jobs : List Job} {w v : Worker α} {result : Except QueueError Bool}
    (h : q.batchLoop millis out deed jobs w = (result, v)) (hclaim : late isClaim w.trace ≤ 1)
    (hbegun : late isBegun w.trace = 0) :
    late isClaim v.trace ≤ 1 ∧ late isBegun v.trace ≤ 1 ∧
      (result = .ok false → late isBegun v.trace = 0) := by
  induction jobs generalizing w with
  | nil =>
      cases h
      exact ⟨hclaim, hbegun ▸ Nat.zero_le _, fun _ => hbegun⟩
  | cons job jobs ih =>
      have hclaims := (turn_atMost beside_isClaim millis out q deed job w).late_le
      have hbegins := (turn_atMost beside_isBegun millis out q deed job w).late_le
      rw [hbegun] at hbegins
      rw [batchLoop] at h
      rcases ht : q.turn millis out deed job w with ⟨why | done, u⟩
      · rw [ht] at h hclaims hbegins
        cases h
        exact ⟨hclaims.trans hclaim, hbegins, fun h => by cases h⟩
      rw [ht] at h hclaims hbegins
      have hclaim' : late isClaim (u.tick out).trace ≤ 1 :=
        ((AtMost.tick beside_isClaim out u).late_le.trans hclaims).trans hclaim
      have hbegun' : late isBegun (u.tick out).trace ≤ 1 :=
        (AtMost.tick beside_isBegun out u).late_le.trans hbegins
      cases hstopped : (u.tick out).stopped with
      | true =>
          have hback := fun (P : WorkerEvent α → Bool) (hP : Beside P) =>
            (handBack_atMost hP millis out q jobs (u.tick out)).late_le
          simp only [hstopped, if_true] at h
          rcases hb : q.handBack millis out jobs (u.tick out) with ⟨why | done, u'⟩ <;>
          · rw [hb] at h hback
            cases h
            exact ⟨(hback _ beside_isClaim).trans hclaim', (hback _ beside_isBegun).trans hbegun',
              fun h => by cases h⟩
      | false =>
          simp only [hstopped, Bool.false_eq_true, if_false] at h
          exact ih h hclaim' (late_of_not_stopped hstopped)

/-- **After `stop`** a run is answered one more claim, and begins one more wait or one more call of
the handler, at most. -/
theorem runLoop_late {fuel : ℕ} {w v : Worker α} {result : Except QueueError Unit}
    (h : q.runLoop millis out deed fuel w = some (result, v)) (hclaim : late isClaim w.trace ≤ 1)
    (hbegun : late isBegun w.trace ≤ 1) :
    late isClaim v.trace ≤ 1 ∧ late isBegun v.trace ≤ 1 := by
  induction fuel generalizing w with
  | zero => cases h
  | succ fuel ih =>
      rw [runLoop] at h
      rcases hb : q.nextBatch out fuel w with - | ⟨claimed, u⟩
      · rw [hb] at h
        cases h
      obtain ⟨hclaim', hbegun', hnone⟩ := nextBatchLoop_late hb hclaim hbegun
      rw [hb] at h
      rcases claimed with why | _ | jobs
      · cases h
        exact ⟨hclaim', hbegun'⟩
      · cases h
        exact ⟨hclaim', hbegun'⟩
      · rcases hl : q.batchLoop millis out deed jobs u with ⟨why | _ | _, u'⟩
        all_goals
          obtain ⟨hclaim'', hbegun'', hnone'⟩ := batchLoop_late hl hclaim' (hnone jobs rfl)
          simp only [hl] at h
        · cases h
          exact ⟨hclaim'', hbegun''⟩
        · exact ih h hclaim'' hbegun''
        · cases h
          exact ⟨hclaim'', hbegun''⟩

end Queue

/-- Every record claimed had its turn, in the order of the claims: the handler was called on it and
the statements were sent that the end of the call leads to, or it was never called on it and the
record was handed back. -/
def EachHadItsTurn {α : Type} (millis : Double → Except Rejected ℤ) (s : QueueStatements)
    (deed : HandlerEnd α → Deed) (trace : List (WorkerEvent α)) : Prop :=
  ∃ turns : List (Turn α), claimedJobs trace = turns.map Turn.job ∧
    handling trace = turns.flatMap (Turn.events millis s deed) ∧
    ∀ turn ∈ turns, ∃ scripts, turn.scripts millis s deed = .ok scripts

theorem Queue.eachHadItsTurn {α : Type} {millis : Double → Except Rejected ℤ} {out : Outside α}
    {q : Queue} {deed : HandlerEnd α → Deed} {fuel : ℕ} {w : Worker α}
    (h : q.runLoop millis out deed fuel .start = some (.ok (), w)) :
    EachHadItsTurn millis q.statements deed w.trace := by
  obtain ⟨claimed, turns, tail, left, hrun, -⟩ := runLoop_progress h rfl
  obtain ⟨rfl, rfl⟩ := hrun.ended rfl
  have hclaimed : claimedJobs w.trace = claimed := hrun.went.claimed
  refine ⟨turns, ?_, ?_, hrun.taken⟩
  · rw [hclaimed, hrun.jobs_eq, List.append_nil]
  · exact hrun.went.handled.trans (List.append_nil _)

/-- **`stop` ends every run.** Whatever the node answers and the handler does, a run in which `stop`
is called at some step ends, and as it does however much fuel it is given beyond that. After `stop`
it is answered one more claim at most, and begins one more wait or one more call of the handler.
Where nothing raised, what it claimed and did not begin was handed back. -/
theorem stop_ends_every_run (millis : Double → Except Rejected ℤ) (q : Queue) (k : ℕ) :
    (∀ (α : Type) (out : Outside α), out.stops k = true → ∃ result w,
      (∀ fuel, k + 3 ≤ fuel → q.runAuto millis out fuel = some (result, w)) ∧
        late isClaim w.trace ≤ 1 ∧ late isBegun w.trace ≤ 1 ∧
        (result = .ok () → EachHadItsTurn millis q.statements Queue.autoDeed w.trace)) ∧
    ∀ out : Outside Handled, out.stops k = true → ∃ result w,
      (∀ fuel, k + 3 ≤ fuel → q.runManual millis out fuel = some (result, w)) ∧
        late isClaim w.trace ≤ 1 ∧ late isBegun w.trace ≤ 1 ∧
        (result = .ok () → EachHadItsTurn millis q.statements Queue.manualDeed w.trace) := by
  have hends : ∀ {α : Type} (out : Outside α) (deed : HandlerEnd α → Deed), out.stops k = true →
      ∃ result w, (∀ fuel, k + 3 ≤ fuel →
        q.runLoop millis out deed fuel .start = some (result, w)) ∧
        late isClaim w.trace ≤ 1 ∧ late isBegun w.trace ≤ 1 ∧
        (result = .ok () → EachHadItsTurn millis q.statements deed w.trace) := by
    intro α out deed hstop
    obtain ⟨result, w, hrun⟩ := @Queue.runLoop_ends _ millis out q deed k hstop (k + 3) .start
      (.inr (Nat.zero_le _)) (by omega) (Nat.le_add_right ..)
    obtain ⟨hclaims, hbegins⟩ := Queue.runLoop_late hrun (Nat.zero_le _) (Nat.zero_le _)
    refine ⟨result, w, fun fuel hfuel => Queue.runLoop_mono millis out q deed hfuel hrun,
      hclaims, hbegins, ?_⟩
    rintro rfl
    exact Queue.eachHadItsTurn hrun
  exact ⟨fun α out hstop => hends out Queue.autoDeed hstop,
    fun out hstop => hends out Queue.manualDeed hstop⟩

/-- A node that has two records for the third claim and none for another, and `stop` called while
the handler has the first. -/
def thirdClaim : Outside Unit where
  stops := fun step => step == 9
  execute := fun step r =>
    if step = 8 then (twoClaimed (.returned ())).execute 2 r
    else .ok [.records { path := .scan, names := [], rows := [] }]
  handler := fun _ _ => .returned ()

/-- The run of `thirdClaim` returns, and hands the second record back. -/
theorem stop_ends_the_third_claim : ∃ w,
    (∀ fuel, 12 ≤ fuel → queueA.runAuto (fun _ => .error .notFinite) thirdClaim fuel =
      some (.ok (), w)) ∧ late isClaim w.trace ≤ 1 ∧ late isBegun w.trace ≤ 1 ∧
      EachHadItsTurn (fun _ => .error .notFinite) queueA.statements Queue.autoDeed w.trace := by
  obtain ⟨result, w, hrun, hclaims, hbegins, hturns⟩ :=
    (stop_ends_every_run (fun _ => .error .notFinite) queueA 9).1 Unit thirdClaim rfl
  have hreturns : queueA.runAuto (fun _ => .error .notFinite) thirdClaim 12 =
      some (.ok (), _) := rfl
  obtain ⟨rfl, -⟩ := Prod.mk.inj (Option.some.inj ((hrun 12 le_rfl).symm.trans hreturns))
  exact ⟨w, hrun, hclaims, hbegins, hturns rfl⟩

end TessariDB
