import TessariDB.Answer
import TessariDB.Handles

/-!
# A Queue's Worker

`Queue` of `queue.py`: the two loops that claim records, call a handler for each and settle
it. What goes on outside the loop is `Outside`: at each of its steps somebody may have called
`stop`, the node answers a statement as it likes, and the handler ends as it likes. What the
worker does is kept as a trace of events, every call of `stop` among them.

The two loops differ in what the end of a handler's call leads to, which is their `Deed`.

## Main results

* `batchLoop_progress`, `runLoop_progress`: what one batch, and a whole run, leaves in the trace.
* `worker_settles_each_claim_once`: a worker settles every record it claimed exactly once, in
  the order of the claims, and calls the handler at most once more after `stop`.
-/

namespace TessariDB

open ByteCodec Utf8 Text

/-! ### Jobs -/

/-- One record a claim took. -/
structure Job where
  identity : Str
  value : Value
  attempts : ℤ

/-- What a handler of `run_manual` decides. -/
inductive Handled where
  | finish
  | release (after : Option Double)
  | leave
  deriving DecidableEq, Repr

/-- How a call of the handler ends: it returns, it raises an `Exception`, or it raises what is
none. -/
inductive HandlerEnd (α : Type) where
  | returned (value : α)
  | raised
  | interrupted
  deriving DecidableEq, Repr

/-- What a call of the queue raises: a statement that was not rendered, what `execute` raised,
an answer or a record that is none of a claim, or what the handler raised. -/
inductive QueueError where
  | rejected (why : Rejected)
  | raised (why : Raised)
  | claimAnswered (answered : Option Outcome)
  | notAnObject (body : Value)
  | noAttemptCount (body : Value)
  | handlerRaised
  | handlerInterrupted

/-- The fields the engine keeps on a held record. -/
def ENGINE : List Str := ["attempts", "claimed_until", "claimed_by"].map ofString

/-- `_job`. -/
def jobOf (identity : Str) (body : Value) : Except QueueError Job :=
  match body with
  | .object fields =>
      match Dict.get? fields (ofString "attempts") with
      | some (.integer attempts) =>
          .ok ⟨identity, .object (fields.filter fun field => decide (field.1 ∉ ENGINE)), attempts⟩
      | _ => .error (.noAttemptCount body)
  | _ => .error (.notAnObject body)

/-! ### The worker -/

/-- What a worker does, and when `stop` is called. -/
inductive WorkerEvent (α : Type) where
  | stop
  | claimed (jobs : List Job)
  | waited (millis : ℕ)
  | shown (job : Job)
  | ended (job : Job) (ending : HandlerEnd α)
  | settled (job : Job) (script : Str)

/-- What happens outside the loop at each of its steps: whether `stop` is called right before
it, what a statement is answered, and how a call of the handler ends. -/
structure Outside (α : Type) where
  stops : ℕ → Bool
  execute : ℕ → Rendered Value → Except Raised (List Outcome)
  handler : ℕ → Job → HandlerEnd α

/-- How many steps a worker has made, and what it has done. -/
structure Worker (α : Type) where
  step : ℕ
  trace : List (WorkerEvent α)

namespace WorkerEvent

variable {α : Type}

def isStop : WorkerEvent α → Bool
  | .stop => true
  | _ => false

def isShown : WorkerEvent α → Bool
  | .shown _ => true
  | _ => false

end WorkerEvent

namespace Worker

variable {α : Type}

def start : Worker α := ⟨0, []⟩

/-- `_stopped.is_set()`. -/
def stopped (w : Worker α) : Bool := w.trace.any WorkerEvent.isStop

def note (w : Worker α) (event : WorkerEvent α) : Worker α :=
  { w with trace := w.trace ++ [event] }

/-- Go on to the next step, before which `stop` may be called. -/
def tick (out : Outside α) (w : Worker α) : Worker α :=
  ⟨w.step + 1, if out.stops w.step then w.trace ++ [.stop] else w.trace⟩

end Worker

/-- What a worker claims with. -/
structure Queue where
  statements : QueueStatements
  batch : ℤ
  narrowing : Option (Filter Value)

/-- The first and the longest wait after a claim that took nothing, in milliseconds. -/
def FIRST_WAIT : ℕ := 50

def LONGEST_WAIT : ℕ := 1000

/-- What a loop does after a call of the handler. -/
inductive Deed where
  | finish
  | release (after : Option Double)
  | leave
  | raise (why : QueueError)

namespace Queue

/- `millis` is `int(delay * 1000)`. -/
variable {α : Type} (millis : Double → Except Rejected ℤ) (out : Outside α) (q : Queue)

/-- `Queue.claim`, as the loops call it. -/
def claim (w : Worker α) : Except QueueError (List Job) × Worker α :=
  let w := w.tick out
  match q.statements.claim q.batch q.narrowing with
  | .error why => (.error (.rejected why), w)
  | .ok rendered =>
      match out.execute w.step rendered with
      | .error why => (.error (.raised why), w)
      | .ok outcomes =>
          match outcomes.getLast? with
          | some (.records records) =>
              match records.rows.mapM fun row => jobOf row.identity row.value with
              | .error why => (.error why, w)
              | .ok jobs => (.ok jobs, w.note (.claimed jobs))
          | answered => (.error (.claimAnswered answered), w)

/-- Send a settlement. -/
def settle (job : Job) (script : Str) (w : Worker α) : Except QueueError Unit × Worker α :=
  let w := (w.tick out).note (.settled job script)
  match out.execute w.step ⟨script, []⟩ with
  | .error why => (.error (.raised why), w)
  | .ok _ => (.ok (), w)

/-- `Queue.done`. -/
def done (job : Job) (w : Worker α) : Except QueueError Unit × Worker α :=
  settle out job (q.statements.done job.identity) w

/-- `Queue.release`. -/
def release (job : Job) (after : Option Double) (w : Worker α) :
    Except QueueError Unit × Worker α :=
  match q.statements.release millis job.identity after with
  | .error why => (.error (.rejected why), w)
  | .ok script => settle out job script w

/-- `_hand_back`. -/
def handBack : List Job → Worker α → Except QueueError Unit × Worker α
  | [], w => (.ok (), w)
  | job :: unseen, w =>
      match q.release millis out job none w with
      | (.error why, w) => (.error why, w)
      | (.ok (), w) => handBack unseen w

/-- The loop of `_next_batch`, which waits this long next. -/
def nextBatchLoop : ℕ → ℕ → Worker α → Option (Except QueueError (Option (List Job)) × Worker α)
  | 0, _, _ => none
  | fuel + 1, wait, w =>
      let w := w.tick out
      if w.stopped then some (.ok none, w)
      else
        match q.claim out w with
        | (.error (.raised (.refused message refusalClass)), w) =>
            if refusalClass ≠ some .retry then
              some (.error (.raised (.refused message refusalClass)), w)
            else nextBatchLoop fuel (min (wait * 2) LONGEST_WAIT) ((w.tick out).note (.waited wait))
        | (.error why, w) => some (.error why, w)
        | (.ok (job :: jobs), w) => some (.ok (some (job :: jobs)), w)
        | (.ok [], w) =>
            nextBatchLoop fuel (min (wait * 2) LONGEST_WAIT) ((w.tick out).note (.waited wait))

/-- `_next_batch`. -/
def nextBatch (fuel : ℕ) (w : Worker α) :
    Option (Except QueueError (Option (List Job)) × Worker α) :=
  q.nextBatchLoop out fuel FIRST_WAIT w

/-- Call the handler, which may have `stop` called while it runs. -/
def call (job : Job) (w : Worker α) : HandlerEnd α × Worker α :=
  let w := ((w.tick out).note (.shown job)).tick out
  (out.handler w.step job, w.note (.ended job (out.handler w.step job)))

section Loop

variable (deed : HandlerEnd α → Deed)

/-- One turn of a loop: call the handler, and do what its end leads to. -/
def turn (job : Job) (w : Worker α) : Except QueueError Unit × Worker α :=
  let (ending, w) := call out job w
  match deed ending with
  | .finish => q.done out job w
  | .release after => q.release millis out job after w
  | .leave => (.ok (), w)
  | .raise why => (.error why, w)

/-- The loop over a batch, and whether it returned from the whole run. -/
def batchLoop : List Job → Worker α → Except QueueError Bool × Worker α
  | [], w => (.ok false, w)
  | job :: jobs, w =>
      match q.turn millis out deed job w with
      | (.error why, w) => (.error why, w)
      | (.ok (), w) =>
          let w := w.tick out
          if w.stopped then
            match q.handBack millis out jobs w with
            | (.error why, w) => (.error why, w)
            | (.ok (), w) => (.ok true, w)
          else batchLoop jobs w

/-- The loop over batches. -/
def runLoop : ℕ → Worker α → Option (Except QueueError Unit × Worker α)
  | 0, _ => none
  | fuel + 1, w =>
      match q.nextBatch out fuel w with
      | none => none
      | some (.error why, w) => some (.error why, w)
      | some (.ok none, w) => some (.ok (), w)
      | some (.ok (some jobs), w) =>
          match q.batchLoop millis out deed jobs w with
          | (.error why, w) => some (.error why, w)
          | (.ok true, w) => some (.ok (), w)
          | (.ok false, w) => runLoop fuel w

end Loop

/-- After a call in `run_auto`: returning marks the record done, raising hands it back. -/
def autoDeed : HandlerEnd α → Deed
  | .returned _ => .finish
  | .raised => .release none
  | .interrupted => .raise .handlerInterrupted

/-- After a call in `run_manual`: what it returned is done. -/
def manualDeed : HandlerEnd Handled → Deed
  | .returned .finish => .finish
  | .returned (.release after) => .release after
  | .returned .leave => .leave
  | .raised => .raise .handlerRaised
  | .interrupted => .raise .handlerInterrupted

/-- `Queue.run_auto`. -/
def runAuto (fuel : ℕ) : Option (Except QueueError Unit × Worker α) :=
  q.runLoop millis out autoDeed fuel .start

/-- `Queue.run_manual`. -/
def runManual (out : Outside Handled) (fuel : ℕ) :
    Option (Except QueueError Unit × Worker Handled) :=
  q.runLoop millis out manualDeed fuel .start

end Queue

/-! ### What a trace says -/

section Traces

variable {α : Type}

/-- The events of handling records: calls of the handler, and settlements. -/
def WorkerEvent.isHandling : WorkerEvent α → Bool
  | .shown _ => true
  | .ended _ _ => true
  | .settled _ _ => true
  | _ => false

def handling (trace : List (WorkerEvent α)) : List (WorkerEvent α) :=
  trace.filter WorkerEvent.isHandling

/-- The records claimed, in the order of the claims. -/
def claimedJobs (trace : List (WorkerEvent α)) : List Job :=
  trace.flatMap fun
    | .claimed jobs => jobs
    | _ => []

/-- The settlements, in order. -/
def settlements (trace : List (WorkerEvent α)) : List (Job × Str) :=
  trace.filterMap fun
    | .settled job script => some (job, script)
    | _ => none

/-- The calls of the handler that begin after `stop` was called. -/
def lateCalls (trace : List (WorkerEvent α)) : ℕ :=
  (trace.dropWhile fun event => !event.isStop).countP WorkerEvent.isShown

theorem handling_append (trace events : List (WorkerEvent α)) :
    handling (trace ++ events) = handling trace ++ handling events := List.filter_append ..

theorem claimedJobs_append (trace events : List (WorkerEvent α)) :
    claimedJobs (trace ++ events) = claimedJobs trace ++ claimedJobs events :=
  List.flatMap_append ..

theorem settlements_append (trace events : List (WorkerEvent α)) :
    settlements (trace ++ events) = settlements trace ++ settlements events :=
  List.filterMap_append ..

/-- The settlements are events of handling records. -/
theorem settlements_handling (trace : List (WorkerEvent α)) :
    settlements (handling trace) = settlements trace := by
  induction trace with
  | nil => rfl
  | cons event trace ih =>
      cases event with
      | settled job script => exact congrArg ((job, script) :: ·) ih
      | _ => exact ih

theorem lateCalls_concat (trace : List (WorkerEvent α)) (event : WorkerEvent α) :
    lateCalls (trace ++ [event]) ≤ lateCalls trace + if event.isShown then 1 else 0 := by
  rw [lateCalls, List.dropWhile_append]
  split
  · refine (List.Sublist.countP_le (List.dropWhile_sublist _)).trans ?_
    rw [List.countP_singleton]
    omega
  · rw [List.countP_append, List.countP_singleton]
    exact le_rfl

theorem lateCalls_of_not_stopped {w : Worker α} (h : w.stopped = false) :
    lateCalls w.trace = 0 := by
  have hnone : (w.trace.dropWhile fun event => !event.isStop) = [] := by
    rw [List.dropWhile_eq_nil_iff]
    intro event hevent
    rw [Worker.stopped, List.any_eq_false] at h
    simpa using h event hevent
  rw [lateCalls, hnone]
  rfl

/-- What a stretch of a run adds to the trace: the records it claims, how it handles records,
and no more calls of the handler after `stop` than there are calls. -/
structure Went (w after : Worker α) (jobs : List Job) (events : List (WorkerEvent α)) : Prop where
  claimed : claimedJobs after.trace = claimedJobs w.trace ++ jobs
  handled : handling after.trace = handling w.trace ++ events
  late : lateCalls after.trace ≤ lateCalls w.trace + events.countP WorkerEvent.isShown

namespace Went

variable {w v u : Worker α}

theorem refl (w : Worker α) : Went w w [] [] := by
  constructor <;> simp

theorem trans {jobs jobs' : List Job} {events events' : List (WorkerEvent α)}
    (h : Went w v jobs events) (h' : Went v u jobs' events') :
    Went w u (jobs ++ jobs') (events ++ events') where
  claimed := by rw [h'.claimed, h.claimed, List.append_assoc]
  handled := by rw [h'.handled, h.handled, List.append_assoc]
  late := by
    have hlate := h.late
    have hlate' := h'.late
    rw [List.countP_append]
    omega

/-- A step that adds one event. -/
theorem note (w : Worker α) (event : WorkerEvent α) :
    Went w (w.note event) (claimedJobs [event]) (handling [event]) where
  claimed := claimedJobs_append ..
  handled := handling_append ..
  late := by
    refine (lateCalls_concat w.trace event).trans ?_
    cases event <;> simp [handling, WorkerEvent.isShown, WorkerEvent.isHandling]

theorem tick (out : Outside α) (w : Worker α) : Went w (w.tick out) [] [] := by
  have hnote : Went w (w.note .stop) [] [] := Went.note w .stop
  by_cases hstop : out.stops w.step = true
  · have htrace : (w.tick out).trace = (w.note .stop).trace := by
      rw [Worker.tick, if_pos hstop]
      rfl
    exact ⟨htrace ▸ hnote.claimed, htrace ▸ hnote.handled, htrace ▸ hnote.late⟩
  · have htrace : (w.tick out).trace = w.trace := by
      rw [Worker.tick, if_neg hstop]
    have hrefl := refl w
    exact ⟨htrace ▸ hrefl.claimed, htrace ▸ hrefl.handled, htrace ▸ hrefl.late⟩

/-- A step, and an event. -/
theorem tick_note (out : Outside α) (w : Worker α) (event : WorkerEvent α) :
    Went w ((w.tick out).note event) (claimedJobs [event]) (handling [event]) := by
  simpa using (tick out w).trans (note (w.tick out) event)

end Went

end Traces

/-! ### Turns -/

/-- A record a worker claimed, and how the handler's call on it ended; `none` when the handler
was never called on it. -/
structure Turn (α : Type) where
  job : Job
  ending : Option (HandlerEnd α)

/-- `release` without a delay. -/
def QueueStatements.releaseNow (s : QueueStatements) (identity : Str) : Str :=
  s.tenancy ++ "RELEASE " ++ s.queue.text ++ ":" ++ identity ++ " FOR CONSUMER '" ++
    s.worker.text ++ "'" ++ ofString ";"

section Turns

variable {α : Type} (millis : Double → Except Rejected ℤ) (s : QueueStatements)

theorem release_none (identity : Str) :
    s.release millis identity none = .ok (s.releaseNow identity) := by
  have hrelease : s.release millis identity none = .ok (s.tenancy ++ "RELEASE " ++ s.queue.text ++
      ":" ++ identity ++ " FOR CONSUMER '" ++ s.worker.text ++ "'" ++ ([] : Str) ++ ";") := rfl
  rw [hrelease, List.append_nil, QueueStatements.releaseNow]

/-- The statements a deed sends, if it does not raise before that. -/
def Deed.scripts (job : Job) : Deed → Except QueueError (List Str)
  | .finish => .ok [s.done job.identity]
  | .release after =>
      match s.release millis job.identity after with
      | .error why => .error (.rejected why)
      | .ok script => .ok [script]
  | .leave => .ok []
  | .raise why => .error why

namespace Turn

variable (deed : HandlerEnd α → Deed)

/-- The statements of a turn: what the end of the call leads to, and a release of a record the
handler never saw. -/
def scripts (turn : Turn α) : Except QueueError (List Str) :=
  match turn.ending with
  | none => .ok [s.releaseNow turn.job.identity]
  | some ending => (deed ending).scripts millis s turn.job

/-- The call of the handler. -/
def calls (turn : Turn α) : List (WorkerEvent α) :=
  match turn.ending with
  | none => []
  | some ending => [.shown turn.job, .ended turn.job ending]

/-- The statement `run_auto` settles a record with. -/
def settlement (turn : Turn α) : Str :=
  match turn.ending with
  | some (.returned _) => s.done turn.job.identity
  | _ => s.releaseNow turn.job.identity

/-- How a record is handled: the call, and then the statements. -/
def events (turn : Turn α) : List (WorkerEvent α) :=
  turn.calls ++ ((turn.scripts millis s deed).toOption.getD []).map (.settled turn.job)

end Turn

/-- What a stretch of a run does with records that were claimed: some turns were taken to their
end, one more may have been broken off, and some records are left. -/
structure Accounted (deed : HandlerEnd α → Deed) (w after : Worker α) (claimed jobs left : List Job)
    (turns : List (Turn α)) (tail : List (WorkerEvent α)) (whole : Prop) : Prop where
  jobs_eq : jobs = turns.map Turn.job ++ left
  taken : ∀ turn ∈ turns, ∃ scripts, turn.scripts millis s deed = .ok scripts
  cut : tail = [] ∨ ∃ turn, tail = Turn.events millis s deed turn
  went : Went w after claimed (turns.flatMap (Turn.events millis s deed) ++ tail)
  ended : whole → tail = [] ∧ left = []

end Turns

namespace Queue

variable {α : Type} {millis : Double → Except Rejected ℤ} {out : Outside α} {q : Queue}
  {deed : HandlerEnd α → Deed}

variable (out) in
theorem settle_went (job : Job) (script : Str) (w : Worker α) :
    Went w (settle out job script w).2 [] [.settled job script] := by
  have h := Went.tick_note out w (.settled job script)
  rw [settle]
  split <;> exact h

/-- A release without a delay is sent. -/
theorem release_none_eq (job : Job) (w : Worker α) :
    q.release millis out job none w =
      settle out job (q.statements.releaseNow job.identity) w := by
  rw [release, release_none]

variable (millis out q deed) in
/-- Handing back sends one release for each record, in order, unless one fails. -/
theorem handBack_progress (jobs : List Job) (w : Worker α) :
    ∃ turns tail left, Accounted millis q.statements deed w (q.handBack millis out jobs w).2 [] jobs
        left turns tail ((q.handBack millis out jobs w).1 = .ok ()) ∧
      lateCalls (q.handBack millis out jobs w).2.trace ≤ lateCalls w.trace := by
  induction jobs generalizing w with
  | nil =>
      refine ⟨[], [], [], ⟨rfl, List.forall_mem_nil _, .inl rfl, Went.refl w, fun _ => ⟨rfl, rfl⟩⟩,
        le_rfl⟩
  | cons job jobs ih =>
      have hsettle := settle_went out job (q.statements.releaseNow job.identity) w
      rcases hs : settle out job (q.statements.releaseNow job.identity) w with ⟨result, v⟩
      rw [hs] at hsettle
      cases result with
      | error why =>
          simp only [handBack, release_none_eq, hs]
          exact ⟨[], _, job :: jobs, ⟨rfl, List.forall_mem_nil _, .inr ⟨⟨job, none⟩, rfl⟩, hsettle,
            fun h => by cases h⟩, hsettle.late⟩
      | ok done =>
          obtain ⟨turns, tail, left, hprogress, hlate⟩ := ih v
          simp only [handBack, release_none_eq, hs]
          refine ⟨⟨job, none⟩ :: turns, tail, left, ⟨by rw [hprogress.jobs_eq]; rfl, ?_,
            hprogress.cut, hsettle.trans hprogress.went, hprogress.ended⟩,
            hlate.trans hsettle.late⟩
          exact List.forall_mem_cons.mpr ⟨⟨_, rfl⟩, hprogress.taken⟩

variable (out) in
theorem call_went (job : Job) (w : Worker α) :
    Went w (call out job w).2 [] (Turn.calls ⟨job, some (call out job w).1⟩) :=
  ((Went.tick_note out w (.shown job)).trans (Went.tick out _)).trans (Went.note _ _)

variable (millis out q deed) in
/-- A turn is taken as the end of the handler's call says, whether or not it fails at last. -/
theorem turn_went (job : Job) (w : Worker α) : ∃ ending,
    Went w (q.turn millis out deed job w).2 []
        (Turn.events millis q.statements deed ⟨job, some ending⟩) ∧
      ((q.turn millis out deed job w).1 = .ok () →
        ∃ scripts, Turn.scripts millis q.statements deed ⟨job, some ending⟩ = .ok scripts) := by
  have hcall := call_went out job w
  rcases hc : call out job w with ⟨ending, v⟩
  rw [hc] at hcall
  refine ⟨ending, ?_⟩
  have hsent : ∀ script, Went w (settle out job script v).2 []
      (Turn.calls ⟨job, some ending⟩ ++ [.settled job script]) := fun script =>
    hcall.trans (settle_went out job script v)
  simp only [turn, hc, Turn.events, Turn.scripts]
  cases hdeed : deed ending with
  | finish => exact ⟨hsent _, fun _ => ⟨_, rfl⟩⟩
  | release after =>
      cases hscript : q.statements.release millis job.identity after with
      | error why =>
          simp only [release, hscript, Deed.scripts]
          exact ⟨hcall, fun h => by cases h⟩
      | ok script =>
          simp only [release, hscript, Deed.scripts]
          exact ⟨hsent script, fun _ => ⟨_, rfl⟩⟩
  | leave => exact ⟨hcall, fun _ => ⟨_, rfl⟩⟩
  | raise why => exact ⟨hcall, fun h => by cases h⟩

variable (millis deed) in
/-- A turn calls the handler once at most. -/
theorem shown_in_turn (s : QueueStatements) (turn : Turn α) :
    (turn.events millis s deed).countP WorkerEvent.isShown ≤ 1 := by
  have hsettled : ∀ scripts : List Str, (scripts.map (WorkerEvent.settled turn.job : Str → WorkerEvent α)).countP
      WorkerEvent.isShown = 0 := by
    intro scripts
    rw [List.countP_eq_zero]
    rintro _ hevent
    obtain ⟨script, -, rfl⟩ := List.mem_map.mp hevent
    exact Bool.false_ne_true
  rw [Turn.events, List.countP_append, hsettled]
  rcases turn with ⟨job, _ | ending⟩
  · exact Nat.zero_le 1
  · exact le_rfl

/-- The first turn before the others. -/
theorem progress_cons {w v after : Worker α} {job : Job} {ending : HandlerEnd α}
    {jobs left : List Job} {turns : List (Turn α)} {tail : List (WorkerEvent α)} {whole : Prop}
    (hturn : Went w v [] (Turn.events millis q.statements deed ⟨job, some ending⟩))
    (hscripts : ∃ scripts, Turn.scripts millis q.statements deed ⟨job, some ending⟩ = .ok scripts)
    (h : Accounted millis q.statements deed v after [] jobs left turns tail whole) :
    Accounted millis q.statements deed w after [] (job :: jobs) left (⟨job, some ending⟩ :: turns)
      tail whole where
  jobs_eq := by rw [h.jobs_eq]; rfl
  taken := List.forall_mem_cons.mpr ⟨hscripts, h.taken⟩
  cut := h.cut
  went := by
    rw [List.flatMap_cons, List.append_assoc]
    exact hturn.trans h.went
  ended := h.ended

variable (millis out q deed) in
/-- **The loop over a batch.** It takes the turns of the records in order. Once `stop` was
called no record is shown any more, and the rest of the batch is handed back. -/
theorem batchLoop_progress (jobs : List Job) (w : Worker α) (hlate : lateCalls w.trace = 0) :
    ∃ turns tail left, Accounted millis q.statements deed w (q.batchLoop millis out deed jobs w).2 []
        jobs left turns tail (∃ stopped, (q.batchLoop millis out deed jobs w).1 = .ok stopped) ∧
      lateCalls (q.batchLoop millis out deed jobs w).2.trace ≤ 1 ∧
      ((q.batchLoop millis out deed jobs w).1 = .ok false →
        lateCalls (q.batchLoop millis out deed jobs w).2.trace = 0) := by
  induction jobs generalizing w with
  | nil =>
      have hle : lateCalls w.trace ≤ 1 := by omega
      exact ⟨[], [], [], ⟨rfl, List.forall_mem_nil _, .inl rfl, Went.refl w, fun _ => ⟨rfl, rfl⟩⟩,
        hle, fun _ => hlate⟩
  | cons job jobs ih =>
      obtain ⟨ending, hturn, hscripts⟩ :=
        turn_went millis out q deed job w
      have hshown := shown_in_turn millis deed q.statements
        ⟨job, some ending⟩
      rcases ht : q.turn millis out deed job w with ⟨result, v⟩
      rw [ht] at hturn hscripts
      cases result with
      | error why =>
          simp only [batchLoop, ht]
          change Went w v [] _ at hturn
          have hle : lateCalls v.trace ≤ 1 := by
            have := hturn.late
            omega
          exact ⟨[], Turn.events millis q.statements deed ⟨job, some ending⟩, job :: jobs, ⟨rfl, List.forall_mem_nil _, .inr ⟨_, rfl⟩, hturn,
            fun ⟨_, h⟩ => by cases h⟩, hle, fun h => by cases h⟩
      | ok done =>
          have hchecked : Went w (v.tick out) []
              (Turn.events millis q.statements deed ⟨job, some ending⟩) := by
            simpa using hturn.trans (Went.tick out v)
          cases hstopped : (v.tick out).stopped with
          | true =>
              obtain ⟨turns, tail, left, hprogress, hback⟩ := handBack_progress millis
                out q deed jobs (v.tick out)
              have hle : lateCalls (q.handBack millis out jobs (v.tick out)).2.trace ≤ 1 := by
                have := hchecked.late
                omega
              have hall := progress_cons hchecked (hscripts rfl) hprogress
              rcases hb : q.handBack millis out jobs (v.tick out) with ⟨result, u⟩
              rw [hb] at hall hle
              cases result with
              | error why =>
                  simp only [batchLoop, ht, hstopped, if_true, hb]
                  exact ⟨_, tail, left, { hall with ended := fun ⟨_, h⟩ => by cases h }, hle,
                    fun h => by cases h⟩
              | ok done =>
                  simp only [batchLoop, ht, hstopped, if_true, hb]
                  exact ⟨_, tail, left, { hall with ended := fun _ => hall.ended rfl }, hle,
                    fun h => by cases h⟩
          | false =>
              obtain ⟨turns, tail, left, hprogress, hle, hchecks⟩ :=
                ih (v.tick out) (lateCalls_of_not_stopped hstopped)
              simp only [batchLoop, ht, hstopped]
              exact ⟨_, tail, left, progress_cons hchecked (hscripts rfl) hprogress, hle, hchecks⟩

/-! ### Runs -/

/-- The records a claim took. -/
def taken (result : Except QueueError (Option (List Job))) : List Job :=
  match result with
  | .ok (some jobs) => jobs
  | _ => []

variable (out q) in
theorem claim_went (w : Worker α) :
    Went w (q.claim out w).2 (taken ((q.claim out w).1.map some)) [] := by
  have htick := Went.tick out w
  rw [claim]
  split
  · exact htick
  split
  · exact htick
  split
  · split
    · exact htick
    · next jobs _ =>
      have hclaimed := htick.trans (Went.note (w.tick out) (.claimed jobs))
      simpa [taken, claimedJobs, handling, WorkerEvent.isHandling, Except.map] using hclaimed
  · exact htick

/-- **Claiming until there is something to do.** Nothing is handled meanwhile. -/
theorem nextBatchLoop_went {fuel wait : ℕ} {w v : Worker α}
    {result : Except QueueError (Option (List Job))}
    (h : q.nextBatchLoop out fuel wait w = some (result, v)) : Went w v (taken result) [] := by
  induction fuel generalizing wait w with
  | zero => cases h
  | succ fuel ih =>
      have htick := Went.tick out w
      have hclaim := claim_went out q (w.tick out)
      rw [nextBatchLoop] at h
      split at h
      · cases h
        exact htick
      rcases hc : q.claim out (w.tick out) with ⟨claimed, u⟩
      rw [hc] at hclaim h
      have hwaited : ∀ n : ℕ, Went u ((u.tick out).note (.waited n)) [] [] := fun n =>
        Went.tick_note out u (.waited n)
      have hagain : taken (claimed.map some) = [] → q.nextBatchLoop out fuel
          (min (wait * 2) LONGEST_WAIT) ((u.tick out).note (.waited wait)) = some (result, v) →
          Went w v (taken result) [] := fun hnone hrest => by
        rw [hnone] at hclaim
        exact (htick.trans hclaim).trans ((hwaited wait).trans (ih hrest))
      have hended : ∀ why, claimed = .error why → some (Except.error why, u) = some (result, v) →
          Went w v (taken result) [] := by
        rintro why rfl heq
        cases heq
        exact htick.trans hclaim
      rcases claimed with why | _ | ⟨job, jobs⟩
      · cases why with
        | raised why =>
            cases why with
            | refused message refusalClass =>
                dsimp only at h
                split at h
                · exact hended _ rfl h
                · exact hagain rfl h
            | _ => exact hended _ rfl h
        | _ => exact hended _ rfl h
      · exact hagain rfl h
      · cases h
        exact htick.trans hclaim

/-- The turns of a batch, before those of the rest of the run. -/
theorem accounted_append {w u v after : Worker α} {jobs claimed left : List Job}
    {turns turns' : List (Turn α)} {tail : List (WorkerEvent α)} {whole whole' : Prop}
    (hclaimed : Went w u jobs [])
    (h : Accounted millis q.statements deed u v [] jobs [] turns [] whole)
    (h' : Accounted millis q.statements deed v after claimed claimed left turns' tail whole') :
    Accounted millis q.statements deed w after (jobs ++ claimed) (jobs ++ claimed) left
      (turns ++ turns') tail whole' where
  jobs_eq := by rw [h.jobs_eq, h'.jobs_eq, List.map_append, List.append_nil, List.append_assoc]
  taken := List.forall_mem_append.mpr ⟨h.taken, h'.taken⟩
  cut := h'.cut
  went := by simpa using (hclaimed.trans h.went).trans h'.went
  ended := h'.ended

/-- **A whole run.** It takes the turns of the records it claims, in the order of the claims. -/
theorem runLoop_progress {fuel : ℕ} {w v : Worker α} {result : Except QueueError Unit}
    (h : q.runLoop millis out deed fuel w = some (result, v)) (hlate : lateCalls w.trace = 0) :
    ∃ claimed turns tail left, Accounted millis q.statements deed w v claimed claimed left turns
      tail (result = .ok ()) ∧ lateCalls v.trace ≤ 1 := by
  induction fuel generalizing w with
  | zero => cases h
  | succ fuel ih =>
      rw [runLoop] at h
      rcases hb : q.nextBatch out fuel w with _ | ⟨claimed, u⟩
      · rw [hb] at h
        cases h
      have hclaimed := nextBatchLoop_went hb
      rw [hb] at h
      have hzero : lateCalls u.trace = 0 := by
        have := hclaimed.late
        simpa [hlate] using this
      have hle : lateCalls u.trace ≤ 1 := by omega
      rcases claimed with why | _ | jobs
      · cases h
        exact ⟨[], [], [], [], ⟨rfl, List.forall_mem_nil _, .inl rfl, hclaimed, fun _ => ⟨rfl, rfl⟩⟩,
          hle⟩
      · cases h
        exact ⟨[], [], [], [], ⟨rfl, List.forall_mem_nil _, .inl rfl, hclaimed, fun _ => ⟨rfl, rfl⟩⟩,
          hle⟩
      · change Went w u jobs [] at hclaimed
        obtain ⟨turns, tail, left, hbatch, hone, hchecked⟩ := batchLoop_progress
          millis out q deed jobs u hzero
        rcases hl : q.batchLoop millis out deed jobs u with ⟨ended, v'⟩
        dsimp only at h
        rw [hl] at h hbatch hone hchecked
        rcases ended with why | _ | _
        · cases h
          exact ⟨jobs, turns, tail, left, { hbatch with
            went := by simpa using hclaimed.trans hbatch.went
            ended := fun h => by cases h }, hone⟩
        · obtain ⟨rfl, rfl⟩ := hbatch.ended ⟨_, rfl⟩
          obtain ⟨claimed, turns', tail', left', hrest, hlast⟩ := ih h (hchecked rfl)
          exact ⟨_, _, tail', left', accounted_append hclaimed hbatch hrest, hlast⟩
        · cases h
          exact ⟨jobs, turns, tail, left, { hbatch with
            went := by simpa using hclaimed.trans hbatch.went
            ended := fun _ => hbatch.ended ⟨_, rfl⟩ }, hone⟩

end Queue

/-- Every record claimed was settled once, in the order of the claims and before the handler was
called on the next: deleted when the handler returned, handed back when it raised or was never
called on it. The handler was called at most once more after `stop`. -/
structure SettledOnce {α : Type} (s : QueueStatements) (trace : List (WorkerEvent α))
    (turns : List (Turn α)) : Prop where
  claimed : claimedJobs trace = turns.map Turn.job
  settled : settlements trace = turns.map fun turn => (turn.job, turn.settlement s)
  ordered : handling trace =
    turns.flatMap fun turn => turn.calls ++ [.settled turn.job (turn.settlement s)]
  late : lateCalls trace ≤ 1

/-- Every record claimed was handled in its turn: what the handler returned for it was done, and
a record it was never called on was handed back. Only a run that was broken off leaves records,
one of them perhaps in the middle of its turn. -/
structure DoneAsDecided (millis : Double → Except Rejected ℤ) (s : QueueStatements)
    (trace : List (WorkerEvent Handled)) (returned : Prop) (turns : List (Turn Handled))
    (tail : List (WorkerEvent Handled)) (left : List Job) : Prop where
  claimed : claimedJobs trace = turns.map Turn.job ++ left
  ordered : handling trace = turns.flatMap (Turn.events millis s Queue.manualDeed) ++ tail
  done : ∀ turn ∈ turns, ∃ scripts, turn.scripts millis s Queue.manualDeed = .ok scripts
  cut : tail = [] ∨ ∃ turn, tail = Turn.events millis s Queue.manualDeed turn
  whole : returned → tail = [] ∧ left = []

/-- What a turn of `run_auto` that was taken to its end adds. -/
theorem Turn.events_auto {α : Type} {millis : Double → Except Rejected ℤ} {s : QueueStatements}
    {turn : Turn α} (h : ∃ scripts, turn.scripts millis s Queue.autoDeed = .ok scripts) :
    turn.events millis s Queue.autoDeed =
      turn.calls ++ [.settled turn.job (turn.settlement s)] := by
  obtain ⟨scripts, h⟩ := h
  rcases turn with ⟨job, _ | _ | _ | _⟩
  · rfl
  · rfl
  · simp only [events, Turn.scripts, Queue.autoDeed, Deed.scripts, release_none]
    rfl
  · cases h

theorem settlements_turns {α : Type} (s : QueueStatements) (turns : List (Turn α)) :
    settlements (turns.flatMap fun turn => turn.calls ++ [.settled turn.job (turn.settlement s)]) =
      turns.map fun turn => (turn.job, turn.settlement s) := by
  induction turns with
  | nil => rfl
  | cons turn turns ih =>
      rw [List.flatMap_cons, settlements_append, settlements_append, ih]
      rcases turn with ⟨job, _ | ending⟩ <;> rfl

/-- **A queue's worker settles every record it claimed exactly once.** -/
theorem worker_settles_each_claim_once (millis : Double → Except Rejected ℤ) (q : Queue) :
    (∀ (α : Type) (out : Outside α) (fuel : ℕ) (w : Worker α),
      q.runAuto millis out fuel = some (.ok (), w) →
        ∃ turns, SettledOnce q.statements w.trace turns) ∧
    ∀ (out : Outside Handled) (fuel : ℕ) (result : Except QueueError Unit) (w : Worker Handled),
      q.runManual millis out fuel = some (result, w) →
        ∃ turns tail left,
          DoneAsDecided millis q.statements w.trace (result = .ok ()) turns tail left := by
  constructor
  · intro α out fuel w h
    obtain ⟨claimed, turns, tail, left, hrun, hlate⟩ := Queue.runLoop_progress h rfl
    obtain ⟨rfl, rfl⟩ := hrun.ended rfl
    have hordered : handling w.trace = turns.flatMap fun turn =>
        turn.calls ++ [.settled turn.job (turn.settlement q.statements)] := by
      have hflat := List.flatMap_congr fun turn hturn => Turn.events_auto (hrun.taken turn hturn)
      have hhandled := hrun.went.handled
      rw [List.append_nil] at hhandled
      exact hhandled.trans hflat
    refine ⟨turns, ?_, ?_, hordered, hlate⟩
    · have hclaimed : claimedJobs w.trace = claimed := hrun.went.claimed
      rw [hclaimed, hrun.jobs_eq, List.append_nil]
    · rw [← settlements_handling, hordered, settlements_turns]
  · intro out fuel result w h
    obtain ⟨claimed, turns, tail, left, hrun, -⟩ := Queue.runLoop_progress h rfl
    refine ⟨turns, tail, left, ?_, hrun.went.handled, hrun.taken, hrun.cut, hrun.ended⟩
    have hclaimed : claimedJobs w.trace = claimed := hrun.went.claimed
    rw [hclaimed, hrun.jobs_eq]

/-- A claim of two records, with `stop` called while the handler has the first. -/
def twoClaimed {α : Type} (ending : HandlerEnd α) : Outside α where
  stops := fun step => step == 3
  execute := fun step _ =>
    if step = 2 then
      .ok [.done, .done, .done, .records { path := .scan, names := [], rows :=
        [⟨"1", .object [(ofString "attempts", .integer 1)]⟩,
          ⟨"2", .object [(ofString "attempts", .integer 1)]⟩] }]
    else .ok []
  handler := fun _ _ => ending

/-- The queue `a` of a namespace and a database `a`, and the worker `a`. -/
def queueA : Queue where
  statements :=
    have hname : IsName (ofString "a") := by decide +kernel
    ⟨⟨"a", hname⟩, ⟨"a", hname⟩, ⟨"a", hname⟩, ⟨"a", by decide +kernel⟩⟩
  batch := 10
  narrowing := none

/-- The first record is deleted, the second handed back unseen. -/
theorem two_claimed_are_settled :
    (∃ w turns, queueA.runAuto (fun _ => .error .notFinite) (twoClaimed (.returned ())) 2 =
      some (.ok (), w) ∧ SettledOnce queueA.statements w.trace turns) ∧
    ∃ w turns tail left, queueA.runManual (fun _ => .error .notFinite)
      (twoClaimed (.returned .leave)) 2 = some (.ok (), w) ∧
      DoneAsDecided (fun _ => .error .notFinite) queueA.statements w.trace
        ((.ok () : Except QueueError Unit) = .ok ()) turns tail left := by
  obtain ⟨hauto, hmanual⟩ :=
    worker_settles_each_claim_once (fun _ => .error .notFinite) queueA
  constructor
  · obtain ⟨turns, h⟩ := hauto Unit (twoClaimed (.returned ())) 2 _ rfl
    exact ⟨_, turns, rfl, h⟩
  · obtain ⟨turns, tail, left, h⟩ := hmanual (twoClaimed (.returned .leave)) 2 (.ok ()) _ rfl
    exact ⟨_, turns, tail, left, rfl, h⟩

end TessariDB
