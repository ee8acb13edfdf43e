import TessariDB.Connection
import TessariDB.FrameLayer
import TessariDB.LogReplay

/-!
# Subscriptions

`connection.py`: `Connection.subscribe`, and the iteration over a `Subscription`. The position
to resume from is kept for each frame; what it names is a commit, which may take several
frames. `Resumed` is a series of subscriptions to one log, each of them resumed where the one
before ended.

## Main results

* `Subscription.iterate_of_serves`: iterating over what a node sends hands over exactly that.
* `Resumed.positions`: a resumed feed hands over the positions of `LogReplay.replay`.
* `resumed_feed_is_lossless_iff`: when a resumed feed is complete.
-/

namespace TessariDB

open ByteCodec ByteStream Utf8

/-! ### Changes and progress -/

/-- One change (§3.8). The sequence is shared by every change of one commit. -/
structure Change where
  sequence : ℕ
  table : Str
  identity : Str
  removed : Bool
  value : Option Value
  /-- Where to resume after this change, on a feed over a split table. -/
  cursor : Option Str

/-- The place of a change among others. -/
def Change.key (c : Change) : ℤ := c.sequence

/-- How far a feed with a condition read past changes it did not send (§3.15). -/
structure Progress where
  sequence : ℕ
  cursor : Option Str

/-- What is left of a body as a text, or nothing where nothing is left. -/
def cursorOf (what : String) : Get Raised (Option Str) := do
  if ← Get.exhausted then
    return none
  else
    return some (← (Reader.text what).mapError .protocolError)

/-- `_change`. -/
def change : Get Raised Change := do
  let sequence ← (Reader.u64 "a change sequence").mapError .protocolError
  let table ← (Reader.text "a change's table").mapError .protocolError
  let identity ← (Reader.text "a change's identity").mapError .protocolError
  let fate ← (Reader.u8 "what became of a record").mapError .protocolError
  if fate = 0 then do
    let raw ← (Reader.lenbytes "a change's value").mapError .protocolError
    let value ← Get.mapError .protocolError (Get.ofExcept (decode raw))
    return ⟨sequence, table, identity, false, some value, ← cursorOf "a change's cursor"⟩
  else if fate = 1 then
    return ⟨sequence, table, identity, true, none, ← cursorOf "a change's cursor"⟩
  else
    Get.fail (.malformed s!"a change is written (0) or removed (1), not {fate}")

def readChange (body : Bytes) : Except Raised Change := (change body).map Prod.fst

/-- `_progress`. -/
def progress : Get Raised Progress := do
  let sequence ← (Reader.u64 "a progress sequence").mapError .protocolError
  return ⟨sequence, ← cursorOf "a progress cursor"⟩

def readProgress (body : Bytes) : Except Raised Progress := (progress body).map Prod.fst

/-! ### Subscribing -/

/-- The changes of a connection that subscribed. -/
structure Subscription where
  conn : Connection
  /-- The last sequence handled, plus one. -/
  resumeFrom : ℤ
  /-- Where to resume instead, on a feed over a split table. -/
  resumeCursor : Option Str

/-- `subscribe`. -/
def Connection.subscribe (from_ : ℤ) (table cursor condition : Option Str)
    (parameters : Option (List (Str × Value))) : Client Subscription := do
  let (c, _) ← get
  if c.subscribed then
    throw (.tessariError "this connection is already a subscription")
  else if condition.isSome ∧ c.minor < Frames.CONDITION_MINOR then
    throw (.nodeTooOld c.minor Frames.CONDITION_MINOR "a feed's condition")
  else do
    let body ← Connection.attempt (subscribeBody from_ table cursor condition parameters)
    Connection.onSocket (Frames.send Frames.SUBSCRIBE body)
    modify fun (c, w) => ({ c with subscribed := true }, w)
    let (c, _) ← get
    return ⟨c, from_, cursor⟩

/-! ### Iterating -/

/-- What an iteration hands over. -/
inductive Event where
  | change (c : Change)
  | progress (p : Progress)

/-- What the iterator of a subscription does. -/
abbrev Feed := EStateM Raised (Subscription × World)

namespace Subscription

/-- A computation on the connection of a subscription. -/
def onConnection {α : Type} (m : Client α) : Feed α := fun (sub, w) =>
  match m (sub.conn, w) with
  | .ok a (conn, w) => .ok a ({ sub with conn }, w)
  | .error e (conn, w) => .error e ({ sub with conn }, w)

/-- The subscription once a frame of this position is handled. -/
def handled (sub : Subscription) (sequence : ℕ) (cursor : Option Str) : Subscription :=
  { sub with resumeFrom := sequence + 1, resumeCursor := cursor <|> sub.resumeCursor }

/-- What the iterator does with one frame. -/
def handle (kind : ℕ) (body : Bytes) : Feed Event :=
  if kind = Frames.REFUSAL then do
    -- A subscription the node declined: it reads the frame before it can judge it.
    onConnection Connection.close
    let (refusalClass, message) := Frames.readRefusal body
    throw (.refused message refusalClass)
  else if kind = Frames.PROGRESS then do
    let reached ← onConnection (Connection.attempt (readProgress body))
    modify fun (sub, w) => (sub.handled reached.sequence reached.cursor, w)
    return .progress reached
  else if kind ≠ Frames.CHANGE then do
    onConnection Connection.close
    throw (.unknownFrame kind)
  else do
    let change ← onConnection (Connection.attempt (readChange body))
    modify fun (sub, w) => (sub.handled change.sequence change.cursor, w)
    return .change change

/-- One step of `__iter__`: what it yields next, or nothing where it returns. -/
def next : Feed (Option Event) := do
  let frame ← tryCatch (onConnection (Connection.onSocket Frames.read)) fun e => do
    if e.isTessari then onConnection Connection.close
    throw e
  match frame with
  | none => do
      onConnection Connection.close
      return none
  | some (kind, body) => do
      let event ← handle kind body
      return some event

/-- A whole iteration: what it yielded, and how it ended. It has not ended within `n` steps
where this is `none`. -/
def iterate : ℕ → Subscription × World →
    Option (List Event × EStateM.Result Raised (Subscription × World) Unit)
  | 0, _ => none
  | n + 1, state =>
      match next state with
      | .error e state => some ([], .error e state)
      | .ok none state => some ([], .ok () state)
      | .ok (some event) state => (iterate n state).map fun (events, r) => (event :: events, r)

/-! ### What an iteration comes to -/

theorem onConnection_of_ok {α : Type} {m : Client α} {sub : Subscription} {w w' : World}
    {a : α} {c : Connection} (h : m (sub.conn, w) = .ok a (c, w')) :
    onConnection m (sub, w) = .ok a ({ sub with conn := c }, w') := by
  simp only [onConnection, h]

theorem close_run (sub : Subscription) (w : World) :
    onConnection Connection.close (sub, w) = .ok () (sub, w.close sub.conn.sock) := rfl

/-- The socket that a subscription reads from. -/
def socket (sub : Subscription) (w : World) : Socket := w.sockets sub.conn.sock

/-- A frame that is there is taken and handled. -/
theorem next_of_frame {sub : Subscription} {w : World} {kind n : ℕ} {body : Bytes}
    (hopen : (sub.socket w).closed = false)
    (hframe : Frames.frameOf (sub.socket w).flat (sub.socket w).source.ending =
      (.ok (some (kind, body)), n)) :
    ∃ s', (sub.socket w).Advanced s' (Frames.frame kind body) ∧
      next (sub, w) = (handle kind body >>= fun event => pure (some event) : Feed _)
        (sub, w.put sub.conn.sock s') := by
  obtain ⟨s', hadv, hread⟩ := Frames.read_spec hopen
  rw [hframe] at hread hadv
  refine ⟨s', (Frames.frameOf_eq_some hframe).2.2 ▸ hadv, ?_⟩
  rw [next, bind_of_ok (tryCatch_of_ok (onConnection_of_ok (Connection.onSocket_of_ok hread)) _)]

/-- Where the stream ends between two frames, the iteration does. -/
theorem next_of_end {sub : Subscription} {w : World} {n : ℕ}
    (hopen : (sub.socket w).closed = false)
    (hframe : Frames.frameOf (sub.socket w).flat (sub.socket w).source.ending = (.ok none, n)) :
    ∃ s' : Socket, next (sub, w) = .ok none (sub, w.put sub.conn.sock s'.close) := by
  obtain ⟨s', hadv, hread⟩ := Frames.read_spec hopen
  rw [hframe] at hread
  refine ⟨s', ?_⟩
  rw [next, bind_of_ok (tryCatch_of_ok (onConnection_of_ok (Connection.onSocket_of_ok hread)) _)]
  dsimp only
  rw [bind_of_ok (close_run ..), World.close, World.put_sockets_self, World.put_put]
  rfl

theorem handle_change {body : Bytes} {change : Change} (h : readChange body = .ok change)
    (sub : Subscription) (w : World) :
    handle Frames.CHANGE body (sub, w) =
      .ok (.change change) (sub.handled change.sequence change.cursor, w) := by
  have hrun : onConnection (Connection.attempt (readChange body)) (sub, w) =
      .ok change (sub, w) := by
    rw [h]
    rfl
  rw [handle, if_neg (by decide), if_neg (by decide), if_neg (by decide), bind_of_ok hrun]
  rfl

/-- The frames of some changes, and a clean end after them: what a node sends that is cut off
cleanly, in whatever pieces. -/
structure Serves (changes : List Change) (s : Socket) : Prop where
  opened : s.closed = false
  ending : s.source.ending = .eof
  frames : ∃ bodies : List Bytes,
    s.flat = Frames.wire (bodies.map fun body => (Frames.CHANGE, body)) ∧
    List.Forall₂ (fun body change => body.length ≤ Frames.CEILING ∧ readChange body = .ok change)
      bodies changes

/-- The subscription once a change is handled. -/
def took (sub : Subscription) (change : Change) : Subscription :=
  sub.handled change.sequence change.cursor

@[simp] theorem took_conn (sub : Subscription) (change : Change) :
    (sub.took change).conn = sub.conn := rfl

theorem next_of_serves_nil {sub : Subscription} {w : World} (h : Serves [] (sub.socket w)) :
    ∃ s' : Socket, next (sub, w) = .ok none (sub, w.put sub.conn.sock s'.close) := by
  obtain ⟨bodies, hflat, hbodies⟩ := h.frames
  obtain rfl := List.forall₂_nil_right_iff.mp hbodies
  refine next_of_end h.opened (n := 0) ?_
  rw [hflat, h.ending]
  rfl

/-- The first change is handed over, and the others are still to come. -/
theorem next_of_serves_cons {sub : Subscription} {w : World} {change : Change}
    {changes : List Change} (h : Serves (change :: changes) (sub.socket w)) :
    ∃ s', next (sub, w) = .ok (some (.change change)) (sub.took change, w.put sub.conn.sock s') ∧
      Serves changes s' := by
  obtain ⟨bodies, hflat, hbodies⟩ := h.frames
  obtain ⟨body, bodies, ⟨hbody, hread⟩, hrest, rfl⟩ := List.forall₂_cons_right_iff.mp hbodies
  have hwire : (sub.socket w).flat = Frames.frame Frames.CHANGE body ++
      Frames.wire (bodies.map fun body => (Frames.CHANGE, body)) := hflat
  have hkind : Frames.CHANGE ∈ Frames.FROM_NODE := by decide
  have hframe := Frames.frameOf_frame hkind hbody
    (Frames.wire (bodies.map fun body => (Frames.CHANGE, body))) (sub.socket w).source.ending
  rw [← hwire] at hframe
  obtain ⟨s', hadv, hnext⟩ := next_of_frame h.opened hframe
  refine ⟨s', ?_, hadv.closed.trans h.opened, hadv.ending.trans h.ending, bodies,
    List.append_cancel_left (hadv.flat.symm.trans hwire), hrest⟩
  rw [hnext, bind_of_ok (handle_change hread ..)]
  rfl

/-- Iterating over what a node sends hands over exactly that, and ends. -/
theorem iterate_of_serves {changes : List Change} {sub : Subscription} {w : World}
    (h : Serves changes (sub.socket w)) (n : ℕ) :
    ∃ s', iterate n (sub, w) =
      if changes.length < n then
        some (changes.map .change, .ok () (changes.foldl took sub, w.put sub.conn.sock s'))
      else none := by
  induction changes generalizing sub w n with
  | nil =>
      obtain ⟨s', hnext⟩ := next_of_serves_nil h
      refine ⟨s'.close, ?_⟩
      cases n with
      | zero => rfl
      | succ n =>
          rw [iterate, hnext]
          rfl
  | cons change changes ih =>
      obtain ⟨s₁, hnext, hserves⟩ := next_of_serves_cons h
      have hserves' : Serves changes ((sub.took change).socket (w.put sub.conn.sock s₁)) := by
        rwa [socket, took_conn, World.put_sockets_self]
      cases n with
      | zero => exact ⟨s₁, rfl⟩
      | succ n =>
          obtain ⟨s', hrest⟩ := ih hserves' n
          refine ⟨s', ?_⟩
          rw [iterate, hnext]
          dsimp only
          rw [hrest, List.length_cons]
          by_cases hn : changes.length < n
          · rw [if_pos hn, if_pos (Nat.succ_lt_succ hn), took_conn, World.put_put]
            rfl
          · rw [if_neg hn, if_neg (fun hlt => hn (Nat.lt_of_succ_lt_succ hlt))]
            rfl

theorem resumeFrom_foldl (changes : List Change) (sub : Subscription) :
    (changes.foldl took sub).resumeFrom =
      LogReplay.resume Change.key sub.resumeFrom changes := by
  induction changes generalizing sub with
  | nil => rfl
  | cons change changes ih =>
      rw [List.foldl_cons, ih, LogReplay.resume_cons]
      rfl

end Subscription

theorem Connection.subscribe_run (from_ : ℤ) (table cursor condition : Option Str)
    (parameters : Option (List (Str × Value))) (c : Connection) (w : World) :
    subscribe from_ table cursor condition parameters (c, w) =
      (if c.subscribed then throw (.tessariError "this connection is already a subscription")
        else if condition.isSome ∧ c.minor < Frames.CONDITION_MINOR then
          throw (.nodeTooOld c.minor Frames.CONDITION_MINOR "a feed's condition")
        else attempt (subscribeBody from_ table cursor condition parameters) >>= fun body =>
          onSocket (Frames.send Frames.SUBSCRIBE body) >>= fun _ =>
            modify (fun (c, w) => ({ c with subscribed := true }, w)) >>= fun _ =>
              get >>= fun (c, _) => pure ⟨c, from_, cursor⟩ : Client Subscription) (c, w) := rfl

/-- A subscription that was accepted starts where it was asked to. -/
theorem Connection.subscribe_eq_ok {from_ : ℤ} {table cursor condition : Option Str}
    {parameters : Option (List (Str × Value))} {c : Connection} {w : World} {sub : Subscription}
    {cw : Connection × World}
    (h : subscribe from_ table cursor condition parameters (c, w) = .ok sub cw) :
    ∃ body, subscribeBody from_ table cursor condition parameters = .ok body ∧
      sub = ⟨{ c with subscribed := true }, from_, cursor⟩ ∧
      cw = (sub.conn, w.put c.sock
        ((w.sockets c.sock).wrote (Frames.frame Frames.SUBSCRIBE body))) := by
  rw [subscribe_run] at h
  split at h
  · cases h
  split at h
  · cases h
  rcases hbody : subscribeBody from_ table cursor condition parameters with e | body
  · rw [hbody] at h
    cases h
  rw [hbody, attempt_bind] at h
  rcases hsend : Frames.send Frames.SUBSCRIBE body (w.sockets c.sock) with ⟨⟨⟩, s⟩ | ⟨e, s⟩
  · obtain ⟨-, rfl⟩ := Frames.send_eq_ok hsend
    rw [bind_of_ok (onSocket_of_ok hsend)] at h
    obtain ⟨rfl, rfl⟩ := EStateM.Result.ok.inj h
    exact ⟨body, rfl, rfl, rfl⟩
  · rw [bind_of_error (onSocket_of_error hsend)] at h
    cases h

/-! ### Logs -/

/-- The changes of one commit. -/
structure Commit where
  sequence : ℕ
  changes : List Change
  nonempty : changes ≠ []
  shared : ∀ c ∈ changes, c.sequence = sequence

/-- What a node holds of its log. -/
structure Log where
  commits : List Commit
  increasing : commits.Pairwise (·.sequence < ·.sequence)

namespace Log

def changes (log : Log) : List Change := log.commits.flatMap Commit.changes

/-- The changes from a position on, which is what a subscriber is sent. -/
def since (log : Log) (from_ : ℤ) : List Change := LogReplay.since Change.key log.changes from_

/-- How many changes come before a position. -/
def start (log : Log) (from_ : ℤ) : ℕ := LogReplay.start Change.key log.changes from_

/-- Every cut after which something is asked for falls between two commits, or within the last
commit of the log. -/
def Whole (log : Log) (from_ : ℤ) (cuts : List ℕ) : Prop :=
  LogReplay.Whole Change.key (log.since from_) cuts

instance (log : Log) (from_ : ℤ) (cuts : List ℕ) : Decidable (log.Whole from_ cuts) :=
  inferInstanceAs (Decidable (LogReplay.Whole ..))

theorem sorted (log : Log) : log.changes.Pairwise (·.key ≤ ·.key) := by
  rw [changes, List.pairwise_flatMap]
  refine ⟨fun commit _ => ?_, log.increasing.imp fun {x y} hlt a ha b hb => ?_⟩
  · refine List.pairwise_of_forall_mem_list fun a ha b hb => ?_
    rw [Change.key, Change.key, commit.shared a ha, commit.shared b hb]
  · rw [Change.key, Change.key, x.shared a ha, y.shared b hb]
    exact_mod_cast hlt.le

end Log

/-! ### Resuming -/

/-- A series of subscriptions to a log, the first at `from_` and each other one where the one
before it left off. A cut is the number of changes that the node sends before it ends a
connection. `yielded` is everything the iterators handed over; the `i`-th change of a connection
is the one at the `i`-th position from where it started. -/
inductive Resumed (log : Log) : ℤ → List ℕ → List (ℕ × Event) → Prop
  | ended (from_ : ℤ) : Resumed log from_ [] []
  | again {from_ : ℤ} {table cursor condition : Option Str}
      {parameters : Option (List (Str × Value))} {c c' : Connection} {w w' w'' : World}
      {sub sub' : Subscription} {k n : ℕ} {events : List Event} {ks : List ℕ}
      {rest : List (ℕ × Event)}
      (hsubscribe : Connection.subscribe from_ table cursor condition parameters (c, w) =
        .ok sub (c', w'))
      (hserves : Subscription.Serves ((log.since from_).take k) (sub.socket w'))
      (hiterate : Subscription.iterate n (sub, w') = some (events, .ok () (sub', w'')))
      (hrest : Resumed log sub'.resumeFrom ks rest) :
      Resumed log from_ (k :: ks)
        ((List.range' (log.start from_) events.length).zip events ++ rest)

theorem Log.getElem?_since (log : Log) (from_ : ℤ) (i : ℕ) :
    log.changes[log.start from_ + i]? = (log.since from_)[i]? := by
  rw [since, LogReplay.since_eq_drop log.sorted, List.getElem?_drop]
  rfl

/-- One connection of a resumed feed: what it hands over, and where the next one resumes. -/
theorem iterated {sub sub' : Subscription} {w w' : World} {given : List Change} {n : ℕ}
    {events : List Event} (hserves : Subscription.Serves given (sub.socket w))
    (hiterate : Subscription.iterate n (sub, w) = some (events, .ok () (sub', w'))) :
    events = given.map .change ∧
      sub'.resumeFrom = LogReplay.resume Change.key sub.resumeFrom given := by
  obtain ⟨s', hrun⟩ := Subscription.iterate_of_serves hserves n
  rw [hiterate] at hrun
  by_cases hn : given.length < n
  · rw [if_pos hn] at hrun
    obtain ⟨rfl, hend⟩ := Prod.mk.inj (Option.some.inj hrun)
    obtain ⟨rfl, -⟩ := Prod.mk.inj (EStateM.Result.ok.inj hend).2
    exact ⟨rfl, Subscription.resumeFrom_foldl given sub⟩
  · rw [if_neg hn] at hrun
    cases hrun

/-- Such a connection runs to its end. -/
theorem Resumed.again_of_serves {log : Log} {from_ : ℤ} {table cursor condition : Option Str}
    {parameters : Option (List (Str × Value))} {c c' : Connection} {w w' : World}
    {sub : Subscription} {k : ℕ} {ks : List ℕ} {rest : List (ℕ × Event)}
    (hsubscribe : Connection.subscribe from_ table cursor condition parameters (c, w) =
      .ok sub (c', w'))
    (hserves : Subscription.Serves ((log.since from_).take k) (sub.socket w'))
    (hrest : Resumed log (LogReplay.resume Change.key from_ ((log.since from_).take k)) ks rest) :
    Resumed log from_ (k :: ks)
      ((List.range' (log.start from_) ((log.since from_).take k).length).zip
        (((log.since from_).take k).map .change) ++ rest) := by
  obtain ⟨s', hrun⟩ := Subscription.iterate_of_serves hserves
    (((log.since from_).take k).length + 1)
  rw [if_pos (Nat.lt_succ_self _)] at hrun
  obtain ⟨body, -, rfl, -⟩ := Connection.subscribe_eq_ok hsubscribe
  have hresume := (iterated hserves hrun).2
  have hagain := Resumed.again hsubscribe hserves hrun (hresume ▸ hrest)
  rwa [List.length_map] at hagain

namespace Resumed

variable {log : Log} {from_ : ℤ} {cuts : List ℕ} {yielded : List (ℕ × Event)}

/-- The positions handed over. -/
theorem positions (h : Resumed log from_ cuts yielded) :
    yielded.map Prod.fst = LogReplay.replay Change.key log.changes from_ cuts := by
  induction h with
  | ended => rfl
  | again hsubscribe hserves hiterate _ ih =>
      obtain ⟨body, -, rfl, -⟩ := Connection.subscribe_eq_ok hsubscribe
      obtain ⟨rfl, hresume⟩ := iterated hserves hiterate
      rw [List.map_append, ih, hresume, LogReplay.replay, List.length_map,
        List.map_fst_zip (by simp)]
      rfl

/-- Each change handed over is the one at its position. -/
theorem truthful (h : Resumed log from_ cuts yielded) :
    ∀ x ∈ yielded, ∃ change, log.changes[x.1]? = some change ∧ x.2 = .change change := by
  induction h with
  | ended => exact fun x hx => nomatch hx
  | again _ hserves hiterate _ ih =>
      obtain ⟨rfl, -⟩ := iterated hserves hiterate
      intro x hx
      rcases List.mem_append.mp hx with hx | hx
      · obtain ⟨i, hi, rfl⟩ := List.mem_iff_getElem.mp hx
        simp only [List.length_zip, List.length_range', List.length_map, Nat.min_self] at hi
        refine ⟨((log.since _).take _)[i], ?_, by simp⟩
        simp only [List.getElem_zip, List.getElem_range', Nat.one_mul]
        rw [log.getElem?_since, List.getElem_take]
        exact List.getElem?_eq_getElem _
      · exact ih x hx

end Resumed

/-- What a feed from a position handed over, as positions of the log: everything up to the last
of them, and of no commit anything once all of it had been handed over. -/
structure Lossless (log : Log) (from_ : ℤ) (yielded : List ℕ) : Prop where
  complete : ∀ i ∈ yielded, ∀ j, log.start from_ ≤ j → j ≤ i → j ∈ yielded
  once : ∀ before i after, yielded = before ++ i :: after → ∀ c, log.changes[i]? = some c →
    ∃ j d, log.changes[j]? = some d ∧ d.sequence = c.sequence ∧ j ∉ before

/-- **A resumed feed is lossless exactly when its cuts respect the commits.** Whatever the log,
the position it starts from and the cuts, a series of subscriptions, each of them started from
the `resumeFrom` of the one before, hands over changes of the log; it leaves none out and
repeats none of a commit handed over whole if and only if every connection cut off before a
further change was asked for was cut between two commits, or in the last commit of the log. -/
theorem resumed_feed_is_lossless_iff {log : Log} {from_ : ℤ} {cuts : List ℕ}
    {yielded : List (ℕ × Event)} (h : Resumed log from_ cuts yielded) :
    (∀ x ∈ yielded, ∃ change, log.changes[x.1]? = some change ∧ x.2 = .change change) ∧
    (Lossless log from_ (yielded.map Prod.fst) ↔ log.Whole from_ cuts) := by
  refine ⟨h.truthful, ?_⟩
  have hcomplete := LogReplay.complete_replay_iff log.sorted from_ cuts
  rw [← h.positions] at hcomplete
  refine ⟨fun hlossless => hcomplete.mp hlossless.complete, fun hwhole =>
    ⟨hcomplete.mpr hwhole, fun before i after hsplit c hc => ⟨i, c, hc, rfl, fun hi => ?_⟩⟩⟩
  have hpairwise := LogReplay.replay_pairwise log.sorted from_ cuts
  rw [← h.positions, hsplit] at hpairwise
  exact absurd ((List.pairwise_append.mp hpairwise).2.2 i hi i List.mem_cons_self)
    (Nat.lt_irrefl i)

/-! ### A feed with two connections -/

/-- A connection to a node that will send these bodies. -/
def sending (bodies : List Bytes) : Connection × World :=
  (⟨0, none, none, false, false, 4⟩,
    { sockets := fun _ =>
        .opened (.whole (Frames.wire (bodies.map fun body => (Frames.CHANGE, body))) .eof) 1
      opened := 1
      dials := []
      isDigit := fun _ => false
      repr := fun _ => "" })

/-- Any changes that have bodies may be sent after any position that has a body. -/
theorem Resumed.sent {log : Log} {from_ : ℤ} {k : ℕ} {bodies : List Bytes}
    (hfrom : 0 ≤ from_ ∧ from_ ≤ UINT64_MAX)
    (hbodies : List.Forall₂ (fun body change =>
      body.length ≤ Frames.CEILING ∧ readChange body = .ok change) bodies
        ((log.since from_).take k)) {ks : List ℕ} {rest : List (ℕ × Event)}
    (hrest : Resumed log (LogReplay.resume Change.key from_ ((log.since from_).take k)) ks rest) :
    Resumed log from_ (k :: ks)
      ((List.range' (log.start from_) ((log.since from_).take k).length).zip
        (((log.since from_).take k).map .change) ++ rest) := by
  have hbody : subscribeBody from_ none none none none =
      .ok (BigEndian.toBytes 8 from_.toNat ++ [0]) := by
    rw [subscribeBody, Writer.u64_eq_ok.mpr ⟨hfrom, rfl⟩]
    rfl
  have hsend : Frames.send Frames.SUBSCRIBE (BigEndian.toBytes 8 from_.toNat ++ [0])
      ((sending bodies).2.sockets 0) = .ok () _ :=
    Frames.send_of_le rfl Nat.one_ne_zero (by simp [Frames.CEILING])
  have hsubscribe : Connection.subscribe from_ none none none none (sending bodies) =
      .ok ⟨⟨0, none, none, false, true, 4⟩, from_, none⟩ (⟨0, none, none, false, true, 4⟩,
        (sending bodies).2.put 0 (((sending bodies).2.sockets 0).wrote
          (Frames.frame Frames.SUBSCRIBE (BigEndian.toBytes 8 from_.toNat ++ [0])))) := by
    rw [sending, Connection.subscribe_run, if_neg (by decide), if_neg (by decide), hbody,
      Connection.attempt_bind, bind_of_ok (Connection.onSocket_of_ok hsend)]
    rfl
  refine Resumed.again_of_serves hsubscribe ⟨rfl, rfl, bodies, ?_, hbodies⟩ hrest
  exact Source.flat_whole ..

/-- A record that is gone. -/
def removal (sequence : ℕ) (identity : String) : Change :=
  ⟨sequence, ofString "t", ofString identity, true, none, none⟩

/-- The body of its frame. -/
def removalBody (sequence identity : UInt8) : Bytes :=
  [0, 0, 0, 0, 0, 0, 0, sequence, 0, 0, 0, 1, 0x74, 0, 0, 0, 1, identity, 1]

/-- A commit of two changes, and a commit of one. -/
def twoCommits : Log where
  commits := [⟨1, [removal 1 "a", removal 1 "b"], by decide, by simp [removal]⟩,
    ⟨2, [removal 2 "c"], by decide, by simp [removal]⟩]
  increasing := by simp

set_option maxRecDepth 4096 in
theorem twoCommits_bodies : List.Forall₂ (fun body change =>
    body.length ≤ Frames.CEILING ∧ readChange body = .ok change)
    [removalBody 1 0x61, removalBody 1 0x62, removalBody 2 0x63] twoCommits.changes :=
  .cons ⟨by decide, rfl⟩ (.cons ⟨by decide, rfl⟩ (.cons ⟨by decide, rfl⟩ .nil))

/-- Cut between the commits. -/
theorem resumed_between : Resumed twoCommits 0 [2, 1]
    [(0, .change (removal 1 "a")), (1, .change (removal 1 "b")),
      (2, .change (removal 2 "c"))] :=
  .sent (by decide +kernel) (List.forall₂_take 2 twoCommits_bodies)
    (.sent (by decide +kernel) (List.forall₂_drop 2 twoCommits_bodies) (.ended _))

/-- Cut inside the first commit. -/
theorem resumed_inside : Resumed twoCommits 0 [1, 1]
    [(0, .change (removal 1 "a")), (2, .change (removal 2 "c"))] :=
  .sent (by decide +kernel) (List.forall₂_take 1 twoCommits_bodies)
    (.sent (by decide +kernel) (List.forall₂_drop 2 twoCommits_bodies) (.ended _))

/-- The feed that was cut between the commits is lossless. -/
theorem resumed_feed_is_lossless_between : Lossless twoCommits 0 [0, 1, 2] :=
  (resumed_feed_is_lossless_iff resumed_between).2.mpr (by decide +kernel)

/-- After a cut inside a commit the next connection starts past the rest of it. -/
theorem resumed_feed_loses_a_change :
    Resumed twoCommits 0 [1, 1]
      [(0, .change (removal 1 "a")), (2, .change (removal 2 "c"))] ∧
    twoCommits.changes[1]? = some (removal 1 "b") ∧ twoCommits.start 0 = 0 ∧
    ¬ Lossless twoCommits 0 [0, 2] :=
  ⟨resumed_inside, rfl, rfl, fun h =>
    absurd (h.complete 2 (by decide) 1 (by decide) (by decide)) (by decide)⟩

end TessariDB
