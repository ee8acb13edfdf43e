import TessariDB.Subscription

/-!
# Feeds That Failed

Iterating over a `Subscription` again after it raised. An iterator keeps nothing of its own between
two steps, so what a caller does with any number of iterators, begun anew or left half way, is a
series of steps on the one subscription.

Every exit of the loop closes the connection but one: a change or a progress whose body does not
read is raised with the connection left open, and the next step reads on behind it.

## Main results

* `feed_that_failed_is_over_iff`: the streams on which a feed that failed is over.
* `feed_reads_on_behind_a_torn_change`: a feed that failed hands over a change.
-/

namespace TessariDB

open ByteCodec ByteStream Utf8

theorem Frames.read_of_closed {s : Socket} (h : s.closed = true) :
    ∃ e, Frames.read s = .error e s ∧ e.isTessari = true := by
  have hrecv : Socket.recv 1 s = .error ⟨"the socket is closed"⟩ s := if_pos h
  refine ⟨_, bind_of_error (Frames.recv_of_error hrecv) _, rfl⟩

/-- The position of what an iteration hands over. -/
def Event.sequence : Event → ℕ
  | .change c => c.sequence
  | .progress p => p.sequence

def Event.cursor : Event → Option Str
  | .change c => c.cursor
  | .progress p => p.cursor

/-- What one frame is read as on a feed, where it is one of the two that a feed carries. -/
def Event.ofFrame (kind : ℕ) (body : Bytes) : Option (Except Raised Event) :=
  if kind = Frames.PROGRESS then some ((readProgress body).map .progress)
  else if kind = Frames.CHANGE then some ((readChange body).map .change)
  else none

namespace Subscription

/-! ### Any number of steps -/

/-- The state after `n` steps of any iterators. -/
def stepped (n : ℕ) : Subscription × World → Subscription × World :=
  (fun state => after (next state))^[n]

theorem stepped_succ (n : ℕ) (state : Subscription × World) :
    stepped (n + 1) state = stepped n (after (next state)) := rfl

/-- Where a later subscription would resume. -/
def position (sub : Subscription) : ℤ × Option Str := (sub.resumeFrom, sub.resumeCursor)

/-- Whether the connection has been closed. -/
def Closed (state : Subscription × World) : Prop := (state.1.socket state.2).closed = true

/-- The connection is closed, and whatever steps are taken from here on, none of them hands
anything over or moves the position. -/
structure Over (state : Subscription × World) : Prop where
  closed : Closed state
  silent : ∀ n event, outcome (next (stepped n state)) ≠ .ok (some event)
  still : ∀ n, (stepped n state).1.position = state.1.position

/-- Whichever step raises, the feed is over after it, at the position it had before. -/
def FailsForGood (state : Subscription × World) : Prop :=
  ∀ n e failed, next (stepped n state) = .error e failed →
    Over failed ∧ failed.1.position = (stepped n state).1.position

/-- A whole frame that the feed hands over. -/
def Readable (f : ℕ × Bytes) : Prop :=
  f.2.length ≤ Frames.CEILING ∧ ∃ event, Event.ofFrame f.1 f.2 = some (.ok event)

/-- A whole frame of a change or a progress whose body does not read. -/
def Torn (f : ℕ × Bytes) : Prop :=
  f.2.length ≤ Frames.CEILING ∧ ∃ e, Event.ofFrame f.1 f.2 = some (.error e)

/-- No torn frame stands behind readable ones alone. -/
def Sound (flat : Bytes) : Prop :=
  ∀ frames f rest, flat = Frames.wire frames ++ (Frames.frame f.1 f.2 ++ rest) →
    (∀ g ∈ frames, Readable g) → ¬ Torn f

/-! ### One frame -/

theorem kind_of_ofFrame {kind : ℕ} {body : Bytes} {r : Except Raised Event}
    (h : Event.ofFrame kind body = some r) : kind ∈ Frames.FROM_NODE := by
  rw [Event.ofFrame] at h
  split at h
  · next hkind => simp [hkind, Frames.FROM_NODE]
  split at h
  · next hkind => simp [hkind, Frames.FROM_NODE]
  · cases h

/-- The error of a frame that no feed carries. -/
def declined (kind : ℕ) (body : Bytes) : Raised :=
  if kind = Frames.REFUSAL then
    .refused (Frames.readRefusal body).2 (Frames.readRefusal body).1
  else .unknownFrame kind

/-- **One frame.** What reads moves the position; what does not read is raised with the connection
left as it is; any other frame closes the connection. -/
theorem handle_eq (kind : ℕ) (body : Bytes) (sub : Subscription) (w : World) :
    handle kind body (sub, w) =
      match Event.ofFrame kind body with
      | some (.ok event) => .ok event (sub.handled event.sequence event.cursor, w)
      | some (.error e) => .error e (sub, w)
      | none => .error (declined kind body) (sub, w.close sub.conn.sock) := by
  by_cases hrefusal : kind = Frames.REFUSAL
  · obtain rfl := hrefusal
    rfl
  by_cases hprogress : kind = Frames.PROGRESS
  · obtain rfl := hprogress
    rw [handle, if_neg hrefusal, if_pos rfl, Event.ofFrame, if_pos rfl]
    cases readProgress body with
    | error e => rfl
    | ok reached => rfl
  by_cases hchange : kind = Frames.CHANGE
  · obtain rfl := hchange
    rw [handle, if_neg hrefusal, if_neg hprogress, if_neg (not_not.mpr rfl), Event.ofFrame,
      if_neg hprogress, if_pos rfl]
    cases readChange body with
    | error e => rfl
    | ok change => rfl
  · rw [handle, if_neg hrefusal, if_neg hprogress, if_pos hchange, Event.ofFrame,
      if_neg hprogress, if_neg hchange, declined, if_neg hrefusal]
    rfl

/-! ### One step -/

theorem next_of_error {sub : Subscription} {w : World} {e : Raised} {s' : Socket}
    (hread : Frames.read (sub.socket w) = .error e s') (htessari : e.isTessari = true) :
    next (sub, w) = .error e (sub, w.put sub.conn.sock s'.close) := by
  have hrun : onConnection (Connection.onSocket Frames.read) (sub, w) =
      .error e (sub, w.put sub.conn.sock s') := by
    rw [onConnection, Connection.onSocket_of_error hread]
  rw [next, bind_of_error]
  rw [tryCatch_of_error hrun, if_pos htessari, bind_of_ok (close_run ..), World.close,
    World.put_sockets_self, World.put_put]
  rfl

theorem socket_handled (sub : Subscription) (w : World) (s : Socket) (sequence : ℕ)
    (cursor : Option Str) :
    (sub.handled sequence cursor).socket (w.put sub.conn.sock s) = s :=
  World.put_sockets_self ..

theorem closed_put (sub : Subscription) (w : World) (s : Socket) :
    Closed (sub, w.put sub.conn.sock s.close) := by
  rw [Closed, socket, World.put_sockets_self]
  rfl

/-- A step on a closed connection raises, and the subscription stays what it is. -/
theorem next_of_closed {sub : Subscription} {w : World} (h : Closed (sub, w)) :
    ∃ e w', next (sub, w) = .error e (sub, w') ∧ Closed (sub, w') := by
  obtain ⟨e, hread, htessari⟩ := Frames.read_of_closed h
  exact ⟨e, _, next_of_error hread htessari, closed_put ..⟩

/-- A step on an open connection ends the feed and closes the connection, or takes a readable
frame, or raises over a torn one. -/
theorem next_of_open {sub : Subscription} {w : World} (hopen : (sub.socket w).closed = false) :
    (∃ r w', next (sub, w) = settle r (sub, w') ∧ (∀ event, r ≠ .ok (some event)) ∧
      Closed (sub, w')) ∨
    ∃ f s', (sub.socket w).Advanced s' (Frames.frame f.1 f.2) ∧
      ((∃ event, Readable f ∧ next (sub, w) = .ok (some event)
        (sub.handled event.sequence event.cursor, w.put sub.conn.sock s')) ∨
      ∃ e, Torn f ∧ next (sub, w) = .error e (sub, w.put sub.conn.sock s')) := by
  rcases hframe : Frames.frameOf (sub.socket w).flat (sub.socket w).source.ending with
    ⟨e | (- | ⟨kind, body⟩), n⟩
  · obtain ⟨s', -, hread⟩ := Frames.read_spec hopen
    rw [hframe] at hread
    exact .inl ⟨.error e, _, next_of_error hread (Frames.frameOf_isTessari hframe), nofun,
      closed_put ..⟩
  · obtain ⟨s', hnext⟩ := next_of_end hopen hframe
    exact .inl ⟨.ok none, _, hnext, nofun, closed_put ..⟩
  · obtain ⟨s', hadv, hnext⟩ := next_of_frame hopen hframe
    have hbody : body.length ≤ Frames.CEILING := (Frames.frameOf_eq_some hframe).2.1
    have hrun := handle_eq kind body sub (w.put sub.conn.sock s')
    rcases hread : Event.ofFrame kind body with - | e | event
    · rw [hread] at hrun
      refine .inl ⟨.error (declined kind body), _, ?_, nofun, closed_put sub w s'⟩
      rw [hnext, bind_of_error hrun, World.close, World.put_sockets_self, World.put_put]
      rfl
    · rw [hread] at hrun
      exact .inr ⟨(kind, body), s', hadv, .inr ⟨e, ⟨hbody, e, hread⟩,
        hnext.trans (bind_of_error hrun _)⟩⟩
    · rw [hread] at hrun
      exact .inr ⟨(kind, body), s', hadv, .inl ⟨event, ⟨hbody, event, hread⟩,
        hnext.trans (bind_of_ok hrun _)⟩⟩

/-! ### A closed connection -/

theorem stepped_of_closed {sub : Subscription} {w : World} (h : Closed (sub, w)) (n : ℕ) :
    ∃ w', stepped n (sub, w) = (sub, w') ∧ Closed (sub, w') := by
  induction n generalizing w with
  | zero => exact ⟨w, rfl, h⟩
  | succ n ih =>
      obtain ⟨e, w', hnext, hclosed⟩ := next_of_closed h
      rw [stepped_succ, hnext]
      exact ih hclosed

/-- **A closed connection stays silent.** -/
theorem over_of_closed {sub : Subscription} {w : World} (h : Closed (sub, w)) :
    Over (sub, w) where
  closed := h
  silent n event := by
    obtain ⟨w', hstepped, hclosed⟩ := stepped_of_closed h n
    obtain ⟨e, w'', hnext, -⟩ := next_of_closed hclosed
    rw [hstepped, hnext]
    exact nofun
  still n := by
    obtain ⟨w', hstepped, -⟩ := stepped_of_closed h n
    rw [hstepped]

/-! ### Sound streams -/

theorem Sound.tail {f : ℕ × Bytes} {flat : Bytes} (h : Sound (Frames.frame f.1 f.2 ++ flat))
    (hf : Readable f) : Sound flat := by
  intro frames g rest hflat hall
  refine h (f :: frames) g rest ?_ (List.forall_mem_cons.mpr ⟨hf, hall⟩)
  rw [hflat]
  exact (List.append_assoc ..).symm

/-- What every step keeps. -/
def Fit (state : Subscription × World) : Prop :=
  Closed state ∨ Sound (state.1.socket state.2).flat

/-- One step of a fit feed: the feed stays fit, and where it raises it is over. -/
theorem next_of_fit {sub : Subscription} {w : World} (h : Fit (sub, w)) :
    Fit (after (next (sub, w))) ∧ ∀ e failed, next (sub, w) = .error e failed →
      Over failed ∧ failed.1.position = sub.position := by
  rcases hclosed : (sub.socket w).closed with - | -
  · rcases next_of_open hclosed with ⟨r, w', hnext, -, hclosed'⟩ |
      ⟨f, s', hadv, ⟨event, hf, hnext⟩ | ⟨e, hf, -⟩⟩
    · rw [hnext, after_settle]
      refine ⟨.inl hclosed', fun e failed hfailed => ?_⟩
      cases r with
      | ok item => cases hfailed
      | error e =>
          obtain ⟨-, rfl⟩ := EStateM.Result.error.inj hfailed
          exact ⟨over_of_closed hclosed', rfl⟩
    · have hsound : Sound (sub.socket w).flat := h.resolve_left (by simp [Closed, hclosed])
      rw [hnext]
      refine ⟨.inr ?_, fun e failed hfailed => (by cases hfailed)⟩
      rw [hadv.flat] at hsound
      rw [after, socket_handled]
      exact hsound.tail hf
    · have hsound : Sound (sub.socket w).flat := h.resolve_left (by simp [Closed, hclosed])
      exact absurd hf (hsound [] f s'.flat hadv.flat nofun)
  · obtain ⟨e, w', hnext, hclosed'⟩ := next_of_closed hclosed
    rw [hnext]
    refine ⟨.inl hclosed', fun e failed hfailed => ?_⟩
    obtain ⟨-, rfl⟩ := EStateM.Result.error.inj hfailed
    exact ⟨over_of_closed hclosed', rfl⟩

theorem fit_stepped {state : Subscription × World} (h : Fit state) (n : ℕ) :
    Fit (stepped n state) := by
  induction n generalizing state with
  | zero => exact h
  | succ n ih => exact ih (next_of_fit h).1

/-- A whole frame at the front of the stream is the one that is taken. -/
theorem next_of_whole {sub : Subscription} {w : World} {f : ℕ × Bytes} {rest : Bytes}
    {r : Except Raised Event} (hopen : (sub.socket w).closed = false)
    (hbody : f.2.length ≤ Frames.CEILING) (hread : Event.ofFrame f.1 f.2 = some r)
    (hflat : (sub.socket w).flat = Frames.frame f.1 f.2 ++ rest) :
    ∃ s', s'.closed = false ∧ s'.flat = rest ∧
      next (sub, w) = (handle f.1 f.2 >>= fun event => pure (some event) : Feed _)
        (sub, w.put sub.conn.sock s') := by
  have hframe := Frames.frameOf_frame (kind_of_ofFrame hread) hbody rest
    (sub.socket w).source.ending
  rw [← hflat] at hframe
  obtain ⟨s', hadv, hnext⟩ := next_of_frame hopen hframe
  exact ⟨s', hadv.closed.trans hopen, List.append_cancel_left (hadv.flat.symm.trans hflat), hnext⟩

/-- Readable frames are taken one after another, and the connection stays open. -/
theorem stepped_of_readable {frames : List (ℕ × Bytes)} {sub : Subscription} {w : World}
    {rest : Bytes} (hall : ∀ f ∈ frames, Readable f) (hopen : (sub.socket w).closed = false)
    (hflat : (sub.socket w).flat = Frames.wire frames ++ rest) :
    ∃ sub' w', stepped frames.length (sub, w) = (sub', w') ∧
      (sub'.socket w').closed = false ∧ (sub'.socket w').flat = rest := by
  induction frames generalizing sub w with
  | nil => exact ⟨sub, w, rfl, hopen, hflat⟩
  | cons f frames ih =>
      obtain ⟨⟨hbody, event, hread⟩, hrest⟩ := List.forall_mem_cons.mp hall
      obtain ⟨s', hopen', hflat', hnext⟩ := next_of_whole hopen hbody hread
        (hflat.trans (List.append_assoc ..))
      have hrun := handle_eq f.1 f.2 sub (w.put sub.conn.sock s')
      rw [hread] at hrun
      rw [bind_of_ok hrun] at hnext
      rw [List.length_cons, stepped_succ, hnext]
      exact ih hrest (by rwa [socket_handled]) (by rwa [socket_handled])

/-- Where a feed that failed is over, no torn frame stands behind readable ones. -/
theorem FailsForGood.sound {sub : Subscription} {w : World} (h : FailsForGood (sub, w))
    (hopen : (sub.socket w).closed = false) : Sound (sub.socket w).flat := by
  rintro frames f rest hflat hall ⟨hbody, e, hread⟩
  obtain ⟨sub', w', hstepped, hopen', hflat'⟩ := stepped_of_readable hall hopen hflat
  obtain ⟨s', hopen'', -, hnext⟩ := next_of_whole hopen' hbody hread hflat'
  have hrun := handle_eq f.1 f.2 sub' (w'.put sub'.conn.sock s')
  rw [hread] at hrun
  rw [bind_of_error hrun, ← hstepped] at hnext
  have hclosed : Closed (sub', w'.put sub'.conn.sock s') := (h frames.length e _ hnext).1.closed
  rw [Closed, socket, World.put_sockets_self, hopen''] at hclosed
  cases hclosed

end Subscription

open Subscription

/-- **A feed that failed is over exactly when no torn frame is reached.** Whatever a node sends and
however often a caller iterates: every step that raises leaves the connection closed, the position
where it was and nothing more to be handed over, if and only if the connection was closed already
or the stream has no change and no progress, behind whole ones that read, whose body does not. -/
theorem feed_that_failed_is_over_iff (sub : Subscription) (w : World) :
    FailsForGood (sub, w) ↔ (sub.socket w).closed = true ∨ Sound (sub.socket w).flat := by
  constructor
  · intro h
    cases hclosed : (sub.socket w).closed with
    | true => exact .inl rfl
    | false => exact .inr (h.sound hclosed)
  · intro h n e failed hfailed
    have h' : Fit (sub, w) := h
    exact (next_of_fit (fit_stepped h' n)).2 e failed hfailed

/-! ### A feed that reads on -/

/-- The body of a change whose fate is neither of the two. -/
def tornBody : Bytes := [0, 0, 0, 0, 0, 0, 0, 1, 0, 0, 0, 1, 0x74, 0, 0, 0, 1, 0x61, 2]

/-- A subscription to a node that will send these bodies. -/
def subscribedTo (bodies : List Bytes) : Subscription × World :=
  (⟨{ (sending bodies).1 with subscribed := true }, 0, none⟩, (sending bodies).2)

/-- The first step raises over the first change; the second hands over the change behind it and
moves the position past both. -/
theorem feed_reads_on_behind_a_torn_change :
    (∃ failed, next (subscribedTo [tornBody, removalBody 2 0x62]) =
      .error (.malformed "a change is written (0) or removed (1), not 2") failed ∧
      ¬ Closed failed ∧ ∃ later, next failed = .ok (some (.change (removal 2 "b"))) later ∧
        later.1.position = (3, none)) ∧
    ¬ FailsForGood (subscribedTo [tornBody, removalBody 2 0x62]) := by
  have hfirst : next (subscribedTo [tornBody, removalBody 2 0x62]) =
      .error (.malformed "a change is written (0) or removed (1), not 2") _ := rfl
  have hopen : ¬ Closed (after (next (subscribedTo [tornBody, removalBody 2 0x62]))) := by
    rw [hfirst]
    exact nofun
  refine ⟨⟨_, hfirst, hopen, _, rfl, rfl⟩, fun h => ?_⟩
  exact hopen (h 0 _ _ hfirst).1.closed

end TessariDB
