import TessariDB.Backoff
import TessariDB.Consumer
import TessariDB.Stopping

/-!
# Workers Back Off

The two workers of the client poll: `Queue._next_batch` claims and `Consumer._next_batch` reads
until there is something to do, and waits in between. The queue's worker also waits where a claim
was refused because it raced another. Both waits are a `Backoff.Schedule` over the events of a run.

A run of the queue's worker that was given too little fuel has no result. `runSoFar` is the worker
that it stands with then.

## Main results

* `Queue.runSoFar_keeps`, `Consumer.consume_due`: a run keeps to its waits.
* `workers_back_off`: so do all four loops, at every moment and however a run ends.
-/

namespace TessariDB

open Utf8 WorkerEvent

/-! ### The queue's worker -/

namespace Queue

variable {α : Type}

/-- A claim that takes something renews the waits. -/
def schedule (α : Type) : Backoff.Schedule (WorkerEvent α) where
  waitOf
    | .waited millis => some millis
    | _ => none
  renews
    | .claimed (_ :: _) => true
    | _ => false
  first := FIRST_WAIT
  longest := LONGEST_WAIT
  first_le := by decide

/-- What waiting for work is made of. -/
def isWaiting : WorkerEvent α → Bool
  | .claimed _ => true
  | .waited _ => true
  | _ => false

theorem beside_isWaiting : Beside (isWaiting : WorkerEvent α → Bool) :=
  ⟨rfl, fun _ _ => rfl, fun _ _ => rfl⟩

theorem quiet_of_not_waiting {event : WorkerEvent α} (h : isWaiting event = false) :
    (schedule α).Quiet event := by
  cases event with
  | claimed jobs => cases h
  | waited millis => cases h
  | _ => exact ⟨rfl, rfl⟩

/-- A run so far kept to its waits, and this one is due next. -/
def Keeps (wait : ℕ) (w : Worker α) : Prop := (schedule α).At wait w.trace

theorem Keeps.quiet {wait : ℕ} {w v : Worker α} (h : Keeps wait w)
    (hquiet : AtMost isWaiting 0 w v) : Keeps wait v := by
  obtain ⟨events, htrace, hcount⟩ := hquiet
  rw [Keeps, htrace]
  refine Backoff.Schedule.At.quiet h fun event hevent => quiet_of_not_waiting ?_
  simpa using List.countP_eq_zero.mp (Nat.le_zero.mp hcount) event hevent

theorem Keeps.tick {wait : ℕ} {w : Worker α} (h : Keeps wait w) (out : Outside α) :
    Keeps wait (w.tick out) := h.quiet (AtMost.tick beside_isWaiting out w)

variable {millis : Double → Except Rejected ℤ} {out : Outside α} {q : Queue}
  {deed : HandlerEnd α → Deed}

/-- The loop over claims keeps to the waits, and a claim that takes something starts them anew. -/
theorem nextBatchLoop_keeps {fuel wait : ℕ} {w v : Worker α}
    {result : Except QueueError (Option (List Job))}
    (h : q.nextBatchLoop out fuel wait w = some (result, v)) (hw : Keeps wait w) :
    (∃ n, Keeps n v) ∧ ∀ jobs, result = .ok (some jobs) → Keeps FIRST_WAIT v := by
  induction fuel generalizing wait w with
  | zero => cases h
  | succ fuel ih =>
      have hsecond := (hw.tick out).tick out
      rcases nextBatchLoop_cases out q wait w with ⟨-, hloop⟩ | ⟨-, ⟨why, hloop⟩ |
        ⟨job, jobs, hloop⟩ | ⟨u, hu, hloop⟩⟩
      · rw [hloop] at h
        cases h
        exact ⟨⟨wait, hw.tick out⟩, fun _ h => by cases h⟩
      · rw [hloop] at h
        cases h
        exact ⟨⟨wait, hsecond⟩, fun _ h => by cases h⟩
      · rw [hloop] at h
        cases h
        have htaken : Keeps FIRST_WAIT
            (((w.tick out).tick out).note (.claimed (job :: jobs))) :=
          Backoff.Schedule.At.concat hsecond (.claimed (job :: jobs)) fun _ h => by cases h
        exact ⟨⟨_, htaken⟩, fun _ _ => htaken⟩
      · rw [hloop] at h
        have hkept : Keeps wait u := by
          rcases hu with rfl | rfl
          · exact hsecond
          · exact Backoff.Schedule.At.concat hsecond (.claimed []) fun _ h => by cases h
        refine ih h (Backoff.Schedule.At.concat (hkept.tick out) (.waited wait) fun n hn => ?_)
        exact (Option.some.inj hn).symm

/-- Nothing waits while a batch is handled. -/
theorem batchLoop_quiet (jobs : List Job) (w : Worker α) :
    AtMost isWaiting 0 w (q.batchLoop millis out deed jobs w).2 := by
  induction jobs generalizing w with
  | nil => exact AtMost.refl _ w
  | cons job jobs ih =>
      have hturn : AtMost isWaiting 0 w _ :=
        turn_atMost beside_isWaiting millis out q deed job w
      rw [batchLoop]
      rcases ht : q.turn millis out deed job w with ⟨why | done, u⟩
      · rw [ht] at hturn
        exact hturn
      rw [ht] at hturn
      have hchecked := hturn.trans (AtMost.tick beside_isWaiting out u)
      cases hstopped : (u.tick out).stopped with
      | true =>
          have hback := handBack_atMost beside_isWaiting millis out q jobs (u.tick out)
          simp only [hstopped, if_true]
          rcases hb : q.handBack millis out jobs (u.tick out) with ⟨why | done, u'⟩ <;>
          · rw [hb] at hback
            exact hchecked.trans hback
      | false =>
          simp only [hstopped, Bool.false_eq_true, if_false]
          exact hchecked.trans (ih _)

/-! ### A run that has not ended -/

section SoFar

variable (millis out q deed)

/-- The worker after so many turns of the loop over claims, or where it ended before. -/
def nextBatchSoFar : ℕ → ℕ → Worker α → Worker α
  | 0, _, w => w
  | fuel + 1, wait, w =>
      match q.nextBatchLoop out 1 wait w with
      | some (_, w) => w
      -- Nothing was taken, and the worker waited.
      | none => nextBatchSoFar fuel (min (wait * 2) LONGEST_WAIT)
          (((q.claim out (w.tick out)).2.tick out).note (.waited wait))

/-- The worker of a run with so much fuel, whether or not the run ended with it. -/
def runSoFar : ℕ → Worker α → Worker α
  | 0, w => w
  | fuel + 1, w =>
      match q.nextBatch out fuel w with
      | none => q.nextBatchSoFar out fuel FIRST_WAIT w
      | some (.ok (some jobs), w) =>
          match q.batchLoop millis out deed jobs w with
          | (.ok false, w) => runSoFar fuel w
          | (_, w) => w
      | some (_, w) => w

end SoFar

/-- It is the worker that a run which ended has ended with. -/
theorem runSoFar_of_runLoop {fuel : ℕ} {w v : Worker α} {result : Except QueueError Unit}
    (h : q.runLoop millis out deed fuel w = some (result, v)) :
    q.runSoFar millis out deed fuel w = v := by
  induction fuel generalizing w with
  | zero => cases h
  | succ fuel ih =>
      rw [runLoop] at h
      rw [runSoFar]
      rcases hb : q.nextBatch out fuel w with - | ⟨why | _ | jobs, u⟩
      · rw [hb] at h
        cases h
      · rw [hb] at h
        cases h
        rfl
      · rw [hb] at h
        cases h
        rfl
      · rw [hb] at h
        dsimp only at h ⊢
        rcases hl : q.batchLoop millis out deed jobs u with ⟨why | _ | _, u'⟩
        all_goals rw [hl] at h
        · cases h
          rfl
        · exact ih h
        · cases h
          rfl

theorem nextBatchSoFar_keeps (fuel : ℕ) {wait : ℕ} {w : Worker α} (hw : Keeps wait w) :
    ∃ n, Keeps n (q.nextBatchSoFar out fuel wait w) := by
  induction fuel generalizing wait w with
  | zero => exact ⟨wait, hw⟩
  | succ fuel ih =>
      rw [nextBatchSoFar]
      rcases hturn : q.nextBatchLoop out 1 wait w with - | ⟨result, v⟩
      · have hsecond := (hw.tick out).tick out
        have hrunning : ¬ (w.tick out).stopped = true := fun hstopped => by
          rw [nextBatchLoop] at hturn
          simp only [if_pos hstopped] at hturn
          cases hturn
        have hkept : Keeps wait (q.claim out (w.tick out)).2 := by
          rcases claim_cases out q (w.tick out) with ⟨why, hclaim⟩ | ⟨_ | ⟨job, jobs⟩, hclaim⟩
          · rw [hclaim]
            exact hsecond
          · rw [hclaim]
            exact Backoff.Schedule.At.concat hsecond (.claimed []) fun _ h => by cases h
          · simp only [nextBatchLoop, if_neg hrunning, hclaim] at hturn
            cases hturn
        refine ih (Backoff.Schedule.At.concat (hkept.tick out) (.waited wait) fun n hn => ?_)
        exact (Option.some.inj hn).symm
      · exact (nextBatchLoop_keeps hturn hw).1

theorem runSoFar_keeps (fuel : ℕ) {w : Worker α} (hw : Keeps FIRST_WAIT w) :
    ∃ n, Keeps n (q.runSoFar millis out deed fuel w) := by
  induction fuel generalizing w with
  | zero => exact ⟨FIRST_WAIT, hw⟩
  | succ fuel ih =>
      rw [runSoFar]
      rcases hb : q.nextBatch out fuel w with - | ⟨claimed, u⟩
      · exact nextBatchSoFar_keeps fuel hw
      obtain ⟨hkept, hfirst⟩ := nextBatchLoop_keeps hb hw
      rcases claimed with why | _ | jobs
      · exact hkept
      · exact hkept
      · have hquiet := @batchLoop_quiet _ millis out q deed jobs u
        dsimp only
        rcases hl : q.batchLoop millis out deed jobs u with ⟨why | _ | _, u'⟩
        all_goals
          rw [hl] at hquiet
          have hbatch := (hfirst jobs rfl).quiet hquiet
        · exact ⟨_, hbatch⟩
        · exact ih hbatch
        · exact ⟨_, hbatch⟩

end Queue

/-! ### The consumer -/

namespace Consumer

open Interleaving

variable {D : Type}

/-- A read that answers some messages renews the waits. -/
def schedule (D : Type) : Backoff.Schedule (Event D) where
  waitOf
    | .wait millis => some millis
    | _ => none
  renews
    | .read _ (.ok outcomes) => decide (((messages outcomes).toOption.getD []).length ≠ 0)
    | _ => false
  first := FIRST_WAIT
  longest := LONGEST_WAIT
  first_le := by decide

/-- At every moment of a run. -/
abbrev Kept (D : Type) (w : Shift D) : Prop := ∃ wait, (schedule D).At wait w.trace

theorem stop_quiet : (schedule D).Quiet .stop := ⟨rfl, rfl⟩

/-- A run kept to its waits, and this one is due next. -/
def due (wait : ℕ) : Assertion Stops (Kept D) where
  holds w := (schedule D).At wait w.trace
  stable h hw := by
    cases hw
    exact h.quiet (List.forall_mem_singleton.mpr stop_quiet)
  safe h := ⟨wait, h⟩

/-- The run is over. -/
def kept : Assertion Stops (Kept D) where
  holds w := Kept D w
  stable := fun ⟨wait, h⟩ hw => ⟨wait, (due wait).stable h hw⟩
  safe h := h

section Parts

variable {wait : ℕ} {millis : Double → Except Rejected ℤ} {s : ConsumerStatements} {batch : ℤ}

/-- A question whose answer is noted as one event that has nothing to do with waiting. -/
theorem quiet_ask {q : Ask} (event : q.Answer D → Event D)
    (hquiet : ∀ a, (schedule D).Quiet (event a))
    (hnotes : ∀ (w w' : Shift D) a, Answers w q a w' → w'.trace = w.trace ++ [event a]) :
    Triple Answers (due wait) (ExceptT.lift (Program.once q) : Run D (q.Answer D))
      fun _ => due wait := by
  refine Triple.ask fun w a w' hw ha => ?_
  change (schedule D).At wait w'.trace
  rw [hnotes w w' a ha]
  exact hw.quiet (List.forall_mem_singleton.mpr (hquiet a))

theorem settle_due (r : Rendered Value) :
    Triple Answers (due wait) (settle (D := D) r) fun _ => due wait := by
  refine Triple.bind (fun _ => due wait) ?_ fun outcomes => ?_
  · refine Triple.bind (fun _ => due wait) ?_ fun reply => Triple.ofExcept fun _ _ _ hw => hw
    refine quiet_ask (.settle r) (fun _ => ⟨rfl, rfl⟩) fun w w' a ha => ?_
    cases ha
    rfl
  · split
    · exact Triple.ofExcept fun _ _ _ hw => hw
    · exact Triple.throw

theorem ack_due (positions : List ℤ) :
    Triple Answers (due wait) (discard (ack (D := D) s positions)) fun _ => due wait := by
  refine Triple.bind (fun _ => due wait) ?_ fun _ => Triple.pure fun _ hw => hw
  rw [ack]
  split
  · exact Triple.pure fun _ hw => hw
  · exact settle_due _

theorem nack_due (positions : List ℤ) (delay : Option Double) :
    Triple Answers (due wait) (discard (nack (D := D) millis s positions delay))
      fun _ => due wait := by
  refine Triple.bind (fun _ => due wait) ?_ fun _ => Triple.pure fun _ hw => hw
  rw [nack]
  split
  · exact Triple.pure fun _ hw => hw
  · exact Triple.bind (fun _ => due wait) (Triple.ofExcept fun _ _ _ hw => hw) fun r => settle_due r

/-- Handling a message waits for nothing. -/
def Idle (each : Message → Run D Unit) : Prop :=
  ∀ m wait, Triple Answers (due wait) (each m) fun _ => due wait

theorem idle_of_ends {m : Message} {f : Handled D → Run D Unit}
    (hf : ∀ how, Triple Answers (due wait) (f how) fun _ => due wait) :
    Triple Answers (due wait) (begins m >>= fun _ => ends m >>= f) fun _ => due wait := by
  refine Triple.bind (fun _ => due wait) ?_ fun _ => Triple.bind (fun _ => due wait) ?_ hf
  · refine quiet_ask (fun _ => .begins m) (fun _ => ⟨rfl, rfl⟩) fun w w' a ha => ?_
    cases ha
    rfl
  · refine quiet_ask (.ends m) (fun _ => ⟨rfl, rfl⟩) fun w w' a ha => ?_
    cases ha
    rfl

variable (millis s) in
theorem auto_idle : Idle (auto (D := D) millis s) := by
  intro m wait
  refine idle_of_ends fun how => ?_
  cases how with
  | returned decided => exact ack_due _
  | failed => exact nack_due _ _
  | escaped => exact Triple.throw

variable (millis s) in
theorem manual_idle : Idle (manual millis s) := by
  intro m wait
  refine idle_of_ends fun how => ?_
  cases how with
  | returned decided =>
      cases decided with
      | ack => exact ack_due _
      | nack delay => exact nack_due _ delay
      | leave => exact Triple.pure fun _ hw => hw
  | failed => exact Triple.throw
  | escaped => exact Triple.throw

/-- **One batch**: where some messages were read, the waits start anew. -/
theorem nextBatch_due (turns wait : ℕ) :
    Triple Answers (due wait) (nextBatch (D := D) s batch turns wait) fun found =>
      found.elim kept fun _ => due FIRST_WAIT := by
  induction turns generalizing wait with
  | zero => exact Triple.throw
  | succ turns ih =>
      refine Triple.bind (fun _ => due wait) ?_ fun stopped => ?_
      · refine Triple.ask fun w a w' hw ha => ?_
        cases ha
        exact hw
      cases stopped with
      | true => exact Triple.pure fun w hw => ⟨wait, hw⟩
      | false =>
          refine Triple.bind (fun outcomes =>
            due ((schedule D).next wait (.read (s.read (max 1 batch)) (.ok outcomes)))) ?_
            fun outcomes => ?_
          · refine Triple.bind (fun reply =>
              due ((schedule D).next wait (.read (s.read (max 1 batch)) reply))) ?_ fun reply =>
                Triple.ofExcept fun outcomes hreply w hw => ?_
            · refine Triple.ask fun w a w' hw ha => ?_
              cases ha
              exact Backoff.Schedule.At.concat hw _ fun _ h => by cases h
            · cases reply with
              | error e => cases hreply
              | ok outcomes =>
                  cases hreply
                  exact hw
          · refine Triple.bind (fun found => due (if found ≠ [] then FIRST_WAIT else wait))
              (Triple.ofExcept fun found hfound w hw => ?_) fun found => ?_
            · have hrenews : (schedule D).renews (.read (s.read (max 1 batch)) (.ok outcomes)) =
                  decide (found.length ≠ 0) := by
                simp only [schedule, hfound, Except.toOption, Option.getD_some]
              rw [Backoff.Schedule.next, hrenews] at hw
              cases found with
              | nil => exact hw
              | cons m found => exact hw
            · split
              · exact Triple.pure fun _ hw => hw
              · refine Triple.bind (fun _ => due (min (wait * 2) LONGEST_WAIT)) ?_ fun _ => ih _
                refine Triple.ask fun w a w' hw ha => ?_
                cases ha
                refine Backoff.Schedule.At.concat hw (.wait wait) fun n hn => ?_
                exact (Option.some.inj hn).symm

theorem handOut_due {each : Message → Run D Unit} (heach : Idle each) (found : List Message) :
    Triple Answers (due wait) (handOut each found) fun _ => due wait := by
  induction found with
  | nil => exact Triple.pure fun _ hw => hw
  | cons m rest ih =>
      refine Triple.bind (fun _ => due wait) (heach m wait) fun _ => ?_
      refine Triple.bind (fun _ => due wait) (Triple.ask fun w a w' hw ha => ?_) fun stopped => ?_
      · cases ha
        exact hw
      · cases stopped with
        | true => exact Triple.pure fun _ hw => hw
        | false => exact ih

/-- **The loop keeps to its waits.** -/
theorem consume_due {each : Message → Run D Unit} (heach : Idle each) (turns : ℕ) :
    Triple Answers (due FIRST_WAIT) (consume s batch each turns) fun _ => kept := by
  induction turns with
  | zero => exact Triple.throw
  | succ turns ih =>
      refine Triple.bind _ (nextBatch_due turns FIRST_WAIT) fun found => ?_
      cases found with
      | none => exact Triple.pure fun _ hw => hw
      | some found =>
          refine Triple.bind (fun _ => due FIRST_WAIT) (handOut_due heach found) fun stopped => ?_
          cases stopped with
          | true => exact Triple.pure fun w hw => ⟨_, hw⟩
          | false => exact ih

theorem backsOff {each : Message → Run D Unit} (heach : Idle each) {turns : ℕ} {w : Shift D}
    (h : UnderWay (consume s batch each turns) w) : (schedule D).BacksOff w.trace := by
  obtain ⟨threads, hreached⟩ := h
  have hstart : (due FIRST_WAIT).holds (⟨false, []⟩ : Shift D) := Backoff.Schedule.at_nil
  obtain ⟨wait, hkept⟩ := (consume_due heach turns).reached hstart hreached
  exact hkept.backsOff

end Parts

end Consumer

/-- **Workers back off.** Whatever the node answers and the handler does and whenever `stop` is
called, in a run that ended and in one that has not: between two claims of a queue's worker that
took something, and between two reads of a consumer that answered something, the waits are the first
wait doubled over and over, up to the longest. -/
theorem workers_back_off (millis : Double → Except Rejected ℤ) :
    (∀ (q : Queue) (α : Type) (out : Outside α) (fuel : ℕ) (result : Except QueueError Unit)
      (w : Worker α), q.runAuto millis out fuel = some (result, w) →
        (Queue.schedule α).BacksOff w.trace) ∧
    (∀ (q : Queue) (α : Type) (out : Outside α) (fuel : ℕ), (Queue.schedule α).BacksOff
      (q.runSoFar millis out Queue.autoDeed fuel .start).trace) ∧
    (∀ (q : Queue) (out : Outside Handled) (fuel : ℕ) (result : Except QueueError Unit)
      (w : Worker Handled), q.runManual millis out fuel = some (result, w) →
        (Queue.schedule Handled).BacksOff w.trace) ∧
    (∀ (q : Queue) (out : Outside Handled) (fuel : ℕ), (Queue.schedule Handled).BacksOff
      (q.runSoFar millis out Queue.manualDeed fuel .start).trace) ∧
    (∀ (s : ConsumerStatements) (batch : ℤ) (turns : ℕ) (D : Type) (w : Consumer.Shift D),
      Consumer.UnderWay (Consumer.runAuto millis s batch turns) w →
        (Consumer.schedule D).BacksOff w.trace) ∧
    ∀ (s : ConsumerStatements) (batch : ℤ) (turns : ℕ) (w : Consumer.Shift Consumer.Settle),
      Consumer.UnderWay (Consumer.runManual millis s batch turns) w →
        (Consumer.schedule Consumer.Settle).BacksOff w.trace := by
  have hsoFar : ∀ (q : Queue) {α : Type} (out : Outside α) (deed : HandlerEnd α → Deed)
      (fuel : ℕ), (Queue.schedule α).BacksOff (q.runSoFar millis out deed fuel .start).trace := by
    intro q α out deed fuel
    have hstart : Queue.Keeps FIRST_WAIT (Worker.start : Worker α) := Backoff.Schedule.at_nil
    obtain ⟨wait, hkept⟩ := @Queue.runSoFar_keeps _ millis out q deed fuel _ hstart
    exact hkept.backsOff
  refine ⟨fun q α out fuel result w h => ?_, fun q α out => hsoFar q out _,
    fun q out fuel result w h => ?_, fun q out => hsoFar q out _,
    fun s batch turns D w h => Consumer.backsOff (Consumer.auto_idle millis s) h,
    fun s batch turns w h => Consumer.backsOff (Consumer.manual_idle millis s) h⟩
  · exact Queue.runSoFar_of_runLoop h ▸ hsoFar q out Queue.autoDeed fuel
  · exact Queue.runSoFar_of_runLoop h ▸ hsoFar q out Queue.manualDeed fuel

/-- Two claims that take nothing are waited for, and a third one takes two records. -/
theorem two_waits_double : ∃ w : Worker Unit,
    queueA.runAuto (fun _ => .error .notFinite) thirdClaim 5 = some (.ok (), w) ∧
      (Queue.schedule Unit).waits w.trace = [50, 100] ∧
      (Queue.schedule Unit).BacksOff w.trace := by
  have hrun : queueA.runAuto (fun _ => .error .notFinite) thirdClaim 5 = some (.ok (), _) := rfl
  exact ⟨_, hrun, rfl, (workers_back_off _).1 queueA Unit thirdClaim 5 (.ok ()) _ hrun⟩

end TessariDB
