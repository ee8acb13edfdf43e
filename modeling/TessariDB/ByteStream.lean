import TessariDB.ByteCodec

/-!
# Byte Streams and Sockets

The receiving half of a connection is a `Source`: everything the peer will still deliver, cut
into the pieces in which the network hands it over, and how the stream ends after them. No
piece is empty, so an empty read means the end and nothing else. A `Socket` is a source with
the writes that went through, how many more of them the network will take, and whether the
socket has been closed; `taken` keeps the bytes received so far.

Programs over a socket are `EStateM` computations: an error leaves the socket as the
operations before it left it. A program that reads is specified against `Source.flat`, the
bytes to come with the cuts forgotten; `Socket.Advanced s s' b` says that all that happened
between `s` and `s'` is that `b` was received.

## Main results

* `Socket.recv_spec`: what one `recv` can do.
* `Socket.Advanced.trans`: reading `b` and then `c` is reading `b ++ c`.
-/

namespace ByteStream

open ByteCodec

/-! ### Computations that may fail -/

section Run

variable {ε σ α β : Type}

theorem bind_of_ok {x : EStateM ε σ α} {s s' : σ} {a : α} (h : x s = .ok a s')
    (f : α → EStateM ε σ β) : (x >>= f) s = f a s' := by
  change EStateM.bind x f s = _
  simp only [EStateM.bind, h]

theorem bind_of_error {x : EStateM ε σ α} {s s' : σ} {e : ε} (h : x s = .error e s')
    (f : α → EStateM ε σ β) : (x >>= f) s = .error e s' := by
  change EStateM.bind x f s = _
  simp only [EStateM.bind, h]

theorem discard_of_ok {x : EStateM ε σ α} {s s' : σ} {a : α} (h : x s = .ok a s') :
    (discard x : EStateM ε σ PUnit) s = .ok ⟨⟩ s' := by
  change EStateM.map _ x s = _
  simp only [EStateM.map, h, Function.const_apply]

theorem discard_of_error {x : EStateM ε σ α} {s s' : σ} {e : ε} (h : x s = .error e s') :
    (discard x : EStateM ε σ PUnit) s = .error e s' := by
  change EStateM.map _ x s = _
  simp only [EStateM.map, h]

/-- Nothing is rolled back on the way to a handler. -/
theorem tryCatch_of_error {x : EStateM ε σ α} {s s' : σ} {e : ε} (h : x s = .error e s')
    (handle : ε → EStateM ε σ α) : tryCatch x handle s = handle e s' := by
  change EStateM.tryCatch x handle s = _
  simp only [EStateM.tryCatch, h]
  rfl

theorem tryCatch_of_ok {x : EStateM ε σ α} {s s' : σ} {a : α} (h : x s = .ok a s')
    (handle : ε → EStateM ε σ α) : tryCatch x handle s = .ok a s' := by
  change EStateM.tryCatch x handle s = _
  simp only [EStateM.tryCatch, h]

/-- A computed outcome and the state it left. -/
def settle (x : Except ε α) (s : σ) : EStateM.Result ε σ α :=
  match x with
  | .ok a => .ok a s
  | .error e => .error e s

/-- What a computation came to, without the state. -/
def outcome : EStateM.Result ε σ α → Except ε α
  | .ok a _ => .ok a
  | .error e _ => .error e

/-- The state a computation left, whatever it came to. -/
def after : EStateM.Result ε σ α → σ
  | .ok _ s => s
  | .error _ s => s

@[simp] theorem outcome_settle (x : Except ε α) (s : σ) : outcome (settle x s) = x := by
  cases x <;> rfl

@[simp] theorem after_settle (x : Except ε α) (s : σ) : after (settle x s) = s := by
  cases x <;> rfl

end Run

/-! ### Sources -/

/-- How a stream ends once everything in it has been delivered. -/
inductive Ending where
  | eof
  | reset
  deriving DecidableEq, Repr

/-- What a peer will still deliver. -/
structure Source where
  pieces : List {piece : Bytes // piece ≠ []}
  ending : Ending

namespace Source

/-- The bytes to come, with the cuts forgotten. -/
def flat (s : Source) : Bytes := s.pieces.flatMap Subtype.val

/-- The same stream in one piece. -/
def whole (bytes : Bytes) (ending : Ending) : Source :=
  ⟨if h : bytes ≠ [] then [⟨bytes, h⟩] else [], ending⟩

@[simp] theorem flat_whole (bytes : Bytes) (ending : Ending) :
    (whole bytes ending).flat = bytes := by
  rw [whole, flat]
  split <;> simp_all

@[simp] theorem ending_whole (bytes : Bytes) (ending : Ending) :
    (whole bytes ending).ending = ending := rfl

/-- One read of at most `n` bytes: what is there of the next piece, nothing at the end of the
stream, or no answer where the stream was reset. -/
def recv (n : ℕ) (s : Source) : Option (Bytes × Source) :=
  match s.pieces with
  | [] =>
      match s.ending with
      | .eof => some ([], s)
      | .reset => none
  | piece :: pieces =>
      if h : piece.val.length ≤ n then
        some (piece.val, { s with pieces })
      else
        have hrest : piece.val.drop n ≠ [] := by
          rw [← List.length_pos_iff, List.length_drop]
          omega
        some (piece.val.take n, { s with pieces := ⟨piece.val.drop n, hrest⟩ :: pieces })

/-- A read delivers a part of what is to come, and nothing only at the end. -/
theorem recv_spec {n : ℕ} (hn : 0 < n) (s : Source) :
    (∃ piece s', s.recv n = some (piece, s') ∧ piece ≠ [] ∧ piece.length ≤ n ∧
      s.flat = piece ++ s'.flat ∧ s'.ending = s.ending) ∨
    (s.flat = [] ∧ s.ending = .eof ∧ s.recv n = some ([], s)) ∨
    (s.flat = [] ∧ s.ending = .reset ∧ s.recv n = none) := by
  rcases s with ⟨- | ⟨⟨piece, hpiece⟩, pieces⟩, ending⟩
  · cases ending
    · exact .inr (.inl ⟨rfl, rfl, rfl⟩)
    · exact .inr (.inr ⟨rfl, rfl, rfl⟩)
  · left
    rw [recv]
    dsimp only
    split
    · next h => exact ⟨piece, _, rfl, hpiece, h, by simp [flat], rfl⟩
    · next h =>
      refine ⟨_, _, rfl, ?_, List.length_take_le .., ?_, rfl⟩
      · rw [← List.length_pos_iff, List.length_take]
        omega
      · simp [flat, ← List.append_assoc]

end Source

/-! ### Sockets -/

/-- The failure of an operation on a socket. -/
structure OsError where
  reason : String
  deriving DecidableEq, Repr

/-- One end of a connection. -/
structure Socket where
  source : Source
  /-- What has been received so far. -/
  taken : Bytes
  /-- How many more writes go through before one fails, and every later one with it. -/
  sends : ℕ
  /-- The writes that went through, in order. -/
  sent : List Bytes
  closed : Bool

namespace Socket

/-- A socket just opened. -/
def opened (source : Source) (sends : ℕ) : Socket := ⟨source, [], sends, [], false⟩

def flat (s : Socket) : Bytes := s.source.flat

def recv (n : ℕ) : EStateM OsError Socket Bytes := fun s =>
  if s.closed then .error ⟨"the socket is closed"⟩ s
  else
    match s.source.recv n with
    | none => .error ⟨"the connection was reset"⟩ s
    | some (piece, source) => .ok piece { s with source, taken := s.taken ++ piece }

/-- Everything, or an error after which nothing more can be sent. -/
def sendall (bytes : Bytes) : EStateM OsError Socket Unit := fun s =>
  if s.closed then .error ⟨"the socket is closed"⟩ s
  else
    match s.sends with
    | 0 => .error ⟨"the connection was lost"⟩ s
    | sends + 1 => .ok () { s with sends, sent := s.sent ++ [bytes] }

def close (s : Socket) : Socket := { s with closed := true }

/-- After a write that went through. -/
def wrote (s : Socket) (bytes : Bytes) : Socket :=
  { s with sends := s.sends - 1, sent := s.sent ++ [bytes] }

/-- All that happened from `s` to `s'` is that `b` was received. -/
structure Advanced (s s' : Socket) (b : Bytes) : Prop where
  flat : s.flat = b ++ s'.flat
  ending : s'.source.ending = s.source.ending
  taken : s'.taken = s.taken ++ b
  sends : s'.sends = s.sends
  sent : s'.sent = s.sent
  closed : s'.closed = s.closed

theorem Advanced.refl (s : Socket) : Advanced s s [] :=
  ⟨rfl, rfl, (List.append_nil _).symm, rfl, rfl, rfl⟩

theorem Advanced.trans {s s' s'' : Socket} {b c : Bytes} (h : Advanced s s' b)
    (h' : Advanced s' s'' c) : Advanced s s'' (b ++ c) where
  flat := by rw [h.flat, h'.flat, List.append_assoc]
  ending := h'.ending.trans h.ending
  taken := by rw [h'.taken, h.taken, List.append_assoc]
  sends := h'.sends.trans h.sends
  sent := h'.sent.trans h.sent
  closed := h'.closed.trans h.closed

/-- What is left after an advance is what was not received. -/
theorem Advanced.flat_eq_drop {s s' : Socket} {b : Bytes} (h : Advanced s s' b) :
    s'.flat = s.flat.drop b.length := by
  rw [h.flat, List.drop_left]

/-- What one read of an open socket can do. -/
theorem recv_spec {n : ℕ} (hn : 0 < n) {s : Socket} (hopen : s.closed = false) :
    (∃ piece s', recv n s = .ok piece s' ∧ piece ≠ [] ∧ piece.length ≤ n ∧
      Advanced s s' piece) ∨
    (s.flat = [] ∧ s.source.ending = .eof ∧ ∃ s', recv n s = .ok [] s' ∧ Advanced s s' []) ∨
    (s.flat = [] ∧ s.source.ending = .reset ∧
      recv n s = .error ⟨"the connection was reset"⟩ s) := by
  rw [recv]
  rw [hopen]
  rcases s.source.recv_spec hn with ⟨piece, source, hrecv, hne, hlen, hflat, hend⟩ |
    ⟨hflat, hend, hrecv⟩ | ⟨hflat, hend, hrecv⟩
  · rw [hrecv]
    exact .inl ⟨piece, _, rfl, hne, hlen, ⟨hflat, hend, rfl, rfl, rfl, by rw [hopen]⟩⟩
  · rw [hrecv]
    exact .inr (.inl ⟨hflat, hend, _, rfl, ⟨rfl, rfl, rfl, rfl, rfl, by rw [hopen]⟩⟩)
  · rw [hrecv]
    exact .inr (.inr ⟨hflat, hend, rfl⟩)

/-- A write on a socket that takes it. -/
theorem sendall_ok {s : Socket} (hopen : s.closed = false) (hsends : s.sends ≠ 0)
    (bytes : Bytes) :
    sendall bytes s = .ok () (s.wrote bytes) := by
  rw [sendall, wrote]
  rw [hopen]
  obtain ⟨k, hk⟩ := Nat.exists_eq_succ_of_ne_zero hsends
  rw [hk]
  rfl

/-- A write on a socket that does not take it changes nothing. -/
theorem sendall_error {s : Socket} (h : s.closed = true ∨ s.sends = 0) (bytes : Bytes) :
    ∃ why, sendall bytes s = .error why s := by
  rw [sendall]
  split
  · exact ⟨_, rfl⟩
  · next hopen =>
    rcases h with h | h
    · exact absurd h hopen
    · rw [h]
      exact ⟨_, rfl⟩

end Socket

end ByteStream
