import Mathlib.Logic.Function.Basic
import TessariDB.Frames
import TessariDB.Answer
import TessariDB.Bodies

/-!
# Connections

`connection.py`: dialling a node, and one request and its reply on a connection. Following a
redirect and subscribing are in `Follow` and `Subscription`.

A `Connection` names its socket by a number; the sockets live in the `World`, together with
what the coming attempts to dial come to. What a peer sends is fixed in its socket's source
beforehand. No generality is lost by that: whatever a peer decides to send after reading the
requests, some source holds exactly that.

## Main results

* `Connection.exchange_spec`: what sending one frame and reading one reply can come to.
* `Connection.request_spec`: when a request body is built, and what that does to the owed
  credentials.
* `Connection.ask_spec`, `Connection.vault_spec`: what a whole call can come to.
-/

namespace TessariDB

open ByteCodec ByteStream Utf8

/-! ### Redirects and replies -/

inductive Settlement where
  | settled
  | transient
  deriving DecidableEq, Repr

/-- A redirect, which is not a failure (§3.12). -/
structure Elsewhere where
  node : Bytes
  epoch : ℕ
  settlement : Settlement
  endpoint : Str
  deriving DecidableEq, Repr

/-- Either the outcomes or a redirect. -/
structure Reply where
  outcomes : List Outcome := []
  redirect : Option Elsewhere := none

/-- `_elsewhere`. Zero is deliberately unassigned. -/
def elsewhere : Get Raised Elsewhere := do
  let node ← (Reader.fixed 16 "a redirect's node").mapError .protocolError
  let epoch ← (Reader.u64 "a redirect's epoch").mapError .protocolError
  let byte ← (Reader.u8 "a redirect's settlement").mapError .protocolError
  if byte = 1 then do
    let endpoint ← (Reader.text "a redirect's endpoint").mapError .protocolError
    return ⟨node, epoch, .settled, endpoint⟩
  else if byte = 2 then do
    let endpoint ← (Reader.text "a redirect's endpoint").mapError .protocolError
    return ⟨node, epoch, .transient, endpoint⟩
  else
    Get.fail (.malformed s!"a redirect is settled (1) or transient (2), not {byte}")

def readElsewhere (body : Bytes) : Except Raised Elsewhere := (elsewhere body).map Prod.fst

/-! ### The state -/

/-- What an attempt to dial comes to: an exception, from resolving the address to the TLS
handshake, or a socket. -/
inductive Dial where
  | failed (why : Raised)
  | opened (source : Source) (sends : ℕ)

/-- The sockets so far and the dials to come, with the tables of the language that the client
looks a text up in. -/
structure World where
  sockets : ℕ → Socket
  /-- How many sockets have been opened; the next one has this number. -/
  opened : ℕ
  dials : List Dial
  /-- `str.isdigit` of one character. -/
  isDigit : CodePoint → Bool
  /-- `repr` of a text. -/
  repr : Str → String

/-- One session. -/
structure Connection where
  sock : ℕ
  user : Option Str
  password : Option Str
  owed : Bool
  subscribed : Bool
  minor : ℕ
  deriving DecidableEq, Repr

/-- What a method of a connection does. -/
abbrev Client := EStateM Raised (Connection × World)

namespace World

def put (w : World) (sock : ℕ) (s : Socket) : World :=
  { w with sockets := Function.update w.sockets sock s }

def close (w : World) (sock : ℕ) : World := w.put sock (w.sockets sock).close

@[simp] theorem put_sockets_self (w : World) (sock : ℕ) (s : Socket) :
    (w.put sock s).sockets sock = s := Function.update_self ..

theorem put_sockets_of_ne (w : World) {sock sock' : ℕ} (h : sock' ≠ sock) (s : Socket) :
    (w.put sock s).sockets sock' = w.sockets sock' := Function.update_of_ne h ..

@[simp] theorem put_opened (w : World) (sock : ℕ) (s : Socket) :
    (w.put sock s).opened = w.opened := rfl

@[simp] theorem put_self (w : World) (sock : ℕ) : w.put sock (w.sockets sock) = w := by
  simp [put]

@[simp] theorem put_put (w : World) (sock : ℕ) (s t : Socket) :
    (w.put sock s).put sock t = w.put sock t := by
  simp [put]

/-- A socket for a dial that was answered. -/
def accept (w : World) (source : Source) (sends : ℕ) (dials : List Dial) : World :=
  { w with
    sockets := Function.update w.sockets w.opened (.opened source sends)
    opened := w.opened + 1
    dials }

end World

/-! ### The code -/

namespace Connection

/-- `address.rpartition(":")`: what stands before the last colon and after it. -/
def rpartition (address : Str) : Str × Str :=
  let colon := codePoint 0x3A
  if colon ∈ address then
    let after := address.reverse.takeWhile (· ≠ colon)
    (address.take (address.length - after.length - 1), after.reverse)
  else
    ([], address)

/-- A computation on the connection's own socket. -/
def onSocket {α : Type} (m : EStateM Raised Socket α) : Client α := fun (c, w) =>
  match m (w.sockets c.sock) with
  | .ok a s => .ok a (c, w.put c.sock s)
  | .error e s => .error e (c, w.put c.sock s)

/-- A value, or an exception, that was computed without the socket. -/
def attempt {α : Type} (x : Except Raised α) : Client α := fun cw => settle x cw

def close : Client Unit := fun (c, w) => .ok () (c, w.close c.sock)

/-- `connect`, with the greeting of `Connection.__init__`. -/
def connect (address : Str) (user password : Option Str) : EStateM Raised World Connection :=
  fun w =>
    let (host, port) := rpartition address
    if host = [] ∨ ¬ (port ≠ [] ∧ port.all w.isDigit) then
      let shown := w.repr address
      .error (.valueError s!"an address is host:port, got {shown}") w
    else
      match w.dials with
      | [] => .error (.ioError "connecting: no answer") w
      | .failed why :: dials => .error why { w with dials }
      | .opened source sends :: dials =>
          let sock := w.opened
          let w := w.accept source sends dials
          match Frames.greet (w.sockets sock) with
          | .error e s => .error e (w.put sock s.close)
          | .ok (_, minor) s =>
              .ok ⟨sock, user, password, user.isSome, false, minor⟩ (w.put sock s)

/-- `_read`: a frame, and the connection closed where there is none. -/
def readFrame : Client (ℕ × Bytes) := do
  let frame ← tryCatch (onSocket Frames.read) fun e => do
    if e.isTessari then close
    throw e
  match frame with
  | none => do
      close
      throw (.ioError "the node hung up before answering")
  | some frame => return frame

/-- `_reply`. -/
def reply : Client Reply := do
  let (kind, body) ← readFrame
  if kind = Frames.ANSWER then do
    let outcomes ← attempt (readAnswer body)
    return { outcomes }
  else if kind = Frames.REFUSAL then
    let (refusalClass, message) := Frames.readRefusal body
    throw (.refused message refusalClass)
  else if kind = Frames.ELSEWHERE then do
    let redirect ← attempt (readElsewhere body)
    return { redirect := some redirect }
  else do
    -- A Change on a connection that has not subscribed is an unknown frame.
    close
    throw (.unknownFrame kind)

/-- One frame out and one reply in. -/
def exchange (kind : ℕ) (body : Bytes) : Client Reply := do
  onSocket (Frames.send kind body)
  reply

/-- `_request`. The credentials are spent once they are in the body. -/
def request (script : Str) (parameters : List (Str × Value)) : Client Bytes := do
  let head ← attempt (Writer.text script)
  let (c, _) ← get
  let presented ← match c.owed, c.user with
    | true, some user => do
        let presented ← attempt (Writer.credentials (some (user, c.password.getD [])))
        modify fun (c, w) => ({ c with owed := false }, w)
        pure presented
    | _, _ => attempt (Writer.credentials none)
  let tail ← attempt (Writer.parameters parameters)
  return head ++ (presented ++ tail)

/-- `_ask`: one request and its reply, a redirect returned rather than followed. -/
def ask (script : Str) (parameters : List (Str × Value)) : Client Reply := do
  let (c, _) ← get
  if c.subscribed then
    throw (.tessariError "this connection is a subscription and no longer answers statements")
  else do
    let body ← request script parameters
    exchange Frames.REQUEST body

/-- The credentials that the next frame presents. -/
def credentials (c : Connection) : Option (Str × Str) :=
  if c.owed then presented (c.user.map fun user => (user, c.password)) else none

/-- The connection once its credentials are in a body. -/
def spent (c : Connection) : Connection := { c with owed := c.owed && c.user.isNone }

/-- The one value that answers a vault frame. -/
def statusOf (reply : Reply) : Except Raised Value :=
  match reply.outcomes with
  | [.valueOutcome _ value] => .ok value
  | _ => .error (.malformed "a vault frame is answered with one value")

/-- `_vault`, with the body it is given as a function of the credentials. -/
def vault (body : Option (Str × Str) → Writer) : Client Value := do
  let (c, _) ← get
  if c.minor < Frames.VAULT_MINOR then
    throw (.nodeTooOld c.minor Frames.VAULT_MINOR "the vault frame")
  else if c.subscribed then
    throw (.tessariError "this connection is a subscription and no longer answers statements")
  else do
    modify fun (c, w) => (c.spent, w)
    let raw ← attempt (body c.credentials)
    let reply ← exchange Frames.VAULT raw
    attempt (statusOf reply)

/-! ### What a reply says -/

/-- The kinds of a reply. -/
def REPLIES : List ℕ := [Frames.ANSWER, Frames.REFUSAL, Frames.ELSEWHERE]

/-- What one frame is read as, as a reply. -/
def replyOf (kind : ℕ) (body : Bytes) : Except Raised Reply :=
  if kind = Frames.ANSWER then
    (readAnswer body).map fun outcomes => { outcomes }
  else if kind = Frames.REFUSAL then
    .error (.refused (Frames.readRefusal body).2 (Frames.readRefusal body).1)
  else if kind = Frames.ELSEWHERE then
    (readElsewhere body).map fun redirect => { redirect := some redirect }
  else
    .error (.unknownFrame kind)

/-- What waiting for a reply comes to on a flat stream: a frame of one of their kinds. -/
def replyIn (flat : Bytes) (ending : Ending) : Except Raised (ℕ × Bytes) :=
  match (Frames.frameOf flat ending).1 with
  | .error e => .error e
  | .ok none => .error (.ioError "the node hung up before answering")
  | .ok (some (kind, body)) =>
      if kind ∈ REPLIES then .ok (kind, body) else .error (.unknownFrame kind)

theorem replyIn_eq_ok {flat : Bytes} {ending : Ending} {kind : ℕ} {body : Bytes}
    (h : replyIn flat ending = .ok (kind, body)) :
    kind ∈ REPLIES ∧ body.length ≤ Frames.CEILING := by
  rw [replyIn] at h
  rcases hframe : Frames.frameOf flat ending with ⟨e | (- | ⟨k, b⟩), n⟩
  · rw [hframe] at h
    cases h
  · rw [hframe] at h
    cases h
  · rw [hframe] at h
    dsimp only at h
    split at h
    · next hk =>
      obtain ⟨rfl, rfl⟩ := Prod.mk.inj (Except.ok.inj h)
      exact ⟨hk, (Frames.frameOf_eq_some hframe).2.1⟩
    · cases h

/-- What sending the frame of `body` and reading one reply can come to on a socket. -/
inductive Exchanged (kind : ℕ) (body : Bytes) (s : Socket) : Socket → Except Raised Reply → Prop
  /-- Nothing was sent. -/
  | unsent (e : Raised)
      (h : Frames.CEILING < body.length ∨ s.closed = true ∨ s.sends = 0) :
      Exchanged kind body s s (.error e)
  /-- One frame out and one frame in. -/
  | answered (k : ℕ) (b : Bytes) (s' : Socket) (hbody : body.length ≤ Frames.CEILING)
      (hopen : s.closed = false) (hreply : replyIn s.flat s.source.ending = .ok (k, b))
      (hadv : (s.wrote (Frames.frame kind body)).Advanced s' (Frames.frame k b)) :
      Exchanged kind body s s' (replyOf k b)
  /-- One frame out and no reply; the socket is closed. -/
  | broken (e : Raised) (b : Bytes) (s' : Socket) (hbody : body.length ≤ Frames.CEILING)
      (hopen : s.closed = false) (hreply : replyIn s.flat s.source.ending = .error e)
      (hadv : (s.wrote (Frames.frame kind body)).Advanced s' b) :
      Exchanged kind body s s'.close (.error e)

theorem onSocket_of_ok {α : Type} {m : EStateM Raised Socket α} {c : Connection} {w : World}
    {a : α} {s : Socket} (h : m (w.sockets c.sock) = .ok a s) :
    onSocket m (c, w) = .ok a (c, w.put c.sock s) := by
  simp only [onSocket, h]

theorem onSocket_of_error {α : Type} {m : EStateM Raised Socket α} {c : Connection} {w : World}
    {e : Raised} {s : Socket} (h : m (w.sockets c.sock) = .error e s) :
    onSocket m (c, w) = .error e (c, w.put c.sock s) := by
  simp only [onSocket, h]

theorem close_run (c : Connection) (w : World) : close (c, w) = .ok () (c, w.close c.sock) := rfl

/-- Reading a frame on an open socket: a frame is received, or the socket is closed. -/
theorem readFrame_spec {c : Connection} {w : World} {s : Socket} (hs : w.sockets c.sock = s)
    (hopen : s.closed = false) :
    (∃ k b s', (Frames.frameOf s.flat s.source.ending).1 = .ok (some (k, b)) ∧
      s.Advanced s' (Frames.frame k b) ∧
      readFrame (c, w) = .ok (k, b) (c, w.put c.sock s')) ∨
    ∃ e b s', replyIn s.flat s.source.ending = .error e ∧ s.Advanced s' b ∧
      readFrame (c, w) = .error e (c, w.put c.sock s'.close) := by
  obtain ⟨s', hadv, hread⟩ := Frames.read_spec hopen
  have hrun := (congrArg Frames.read hs).trans hread
  rcases hframe : Frames.frameOf s.flat s.source.ending with ⟨e | (- | ⟨k, b⟩), n⟩
  · rw [hframe] at hrun
    right
    refine ⟨e, _, s', by rw [replyIn, hframe], hadv, ?_⟩
    rw [readFrame, bind_of_error]
    rw [tryCatch_of_error (onSocket_of_error hrun), if_pos (Frames.frameOf_isTessari hframe),
      bind_of_ok (close_run ..), World.close, World.put_sockets_self, World.put_put]
    rfl
  · rw [hframe] at hrun
    right
    refine ⟨.ioError "the node hung up before answering", _, s', by rw [replyIn, hframe], hadv,
      ?_⟩
    rw [readFrame, bind_of_ok (tryCatch_of_ok (onSocket_of_ok hrun) _)]
    dsimp only
    rw [bind_of_ok (close_run ..), World.close, World.put_sockets_self, World.put_put]
    rfl
  · rw [hframe] at hrun hadv
    left
    refine ⟨k, b, s', rfl, (Frames.frameOf_eq_some hframe).2.2 ▸ hadv, ?_⟩
    rw [readFrame, bind_of_ok (tryCatch_of_ok (onSocket_of_ok hrun) _)]
    rfl

/-- A reply is what its frame is read as, and a kind that is no reply closes the socket. -/
theorem reply_spec {c : Connection} {w : World} {s : Socket} (hs : w.sockets c.sock = s)
    (hopen : s.closed = false) :
    (∃ k b s', replyIn s.flat s.source.ending = .ok (k, b) ∧
      s.Advanced s' (Frames.frame k b) ∧
      reply (c, w) = settle (replyOf k b) (c, w.put c.sock s')) ∨
    ∃ e b s', replyIn s.flat s.source.ending = .error e ∧ s.Advanced s' b ∧
      reply (c, w) = .error e (c, w.put c.sock s'.close) := by
  rw [reply]
  rcases readFrame_spec hs hopen with ⟨k, b, s', hframe, hadv, hrun⟩ | ⟨e, b, s', he, hadv, hrun⟩
  · rw [bind_of_ok hrun]
    have hreply : k ∈ REPLIES → replyIn s.flat s.source.ending = .ok (k, b) := fun hk => by
      rw [replyIn, hframe]
      exact if_pos hk
    dsimp only
    split
    · next h =>
      refine .inl ⟨k, b, s', hreply (by simp [REPLIES, h]), hadv, ?_⟩
      rw [replyOf, if_pos h]
      cases readAnswer b <;> rfl
    split
    · next h₁ h =>
      refine .inl ⟨k, b, s', hreply (by simp [REPLIES, h]), hadv, ?_⟩
      rw [replyOf, if_neg h₁, if_pos h]
      rfl
    split
    · next h₁ h₂ h =>
      refine .inl ⟨k, b, s', hreply (by simp [REPLIES, h]), hadv, ?_⟩
      rw [replyOf, if_neg h₁, if_neg h₂, if_pos h]
      cases readElsewhere b <;> rfl
    · next h₁ h₂ h₃ =>
      refine .inr ⟨.unknownFrame k, _, s', ?_, hadv, ?_⟩
      · rw [replyIn, hframe]
        exact if_neg (by simp [REPLIES, h₁, h₂, h₃])
      · rw [bind_of_ok (close_run ..), World.close, World.put_sockets_self, World.put_put]
        rfl
  · rw [bind_of_error hrun]
    exact .inr ⟨e, b, s', he, hadv, rfl⟩

/-- What sending a frame and waiting for the reply can come to. -/
theorem exchange_spec (kind : ℕ) (body : Bytes) (c : Connection) (w : World) :
    ∃ s' r, Exchanged kind body (w.sockets c.sock) s' r ∧
      exchange kind body (c, w) = settle r (c, w.put c.sock s') := by
  rw [exchange]
  by_cases hunsent : Frames.CEILING < body.length ∨ (w.sockets c.sock).closed = true ∨
      (w.sockets c.sock).sends = 0
  · obtain ⟨e, hsend⟩ := Frames.send_of_unsent hunsent
    exact ⟨_, _, .unsent e hunsent, bind_of_error (onSocket_of_error hsend) _⟩
  · obtain ⟨hbody, hopen, hsends⟩ : body.length ≤ Frames.CEILING ∧
        (w.sockets c.sock).closed = false ∧ (w.sockets c.sock).sends ≠ 0 := by
      simpa using hunsent
    rw [bind_of_ok (onSocket_of_ok (Frames.send_of_le hopen hsends hbody))]
    rcases reply_spec (c := c) (World.put_sockets_self w c.sock
      ((w.sockets c.sock).wrote (Frames.frame kind body))) hopen with
      ⟨k, b, s', hreply, hadv, hrun⟩ | ⟨e, b, s', hreply, hadv, hrun⟩
    · rw [World.put_put] at hrun
      exact ⟨s', _, .answered k b s' hbody hopen hreply hadv, hrun⟩
    · rw [World.put_put] at hrun
      exact ⟨_, _, .broken e b s' hbody hopen hreply hadv, hrun⟩

/-! ### What a call comes to -/

@[simp] theorem spent_sock (c : Connection) : c.spent.sock = c.sock := rfl

@[simp] theorem spent_user (c : Connection) : c.spent.user = c.user := rfl

@[simp] theorem spent_password (c : Connection) : c.spent.password = c.password := rfl

@[simp] theorem spent_subscribed (c : Connection) : c.spent.subscribed = c.subscribed := rfl

@[simp] theorem spent_minor (c : Connection) : c.spent.minor = c.minor := rfl

@[simp] theorem spent_spent (c : Connection) : c.spent.spent = c.spent := by
  simp only [spent, Bool.and_assoc, Bool.and_self]

@[simp] theorem spent_credentials (c : Connection) : c.spent.credentials = none := by
  rcases c with ⟨sock, user, password, owed, subscribed, minor⟩
  cases user with
  | none => cases owed <;> rfl
  | some user => cases owed <;> rfl

/-- The connection after `_request`: its credentials are spent once the script and they are
written, whatever becomes of the parameters. -/
def requested (c : Connection) (script : Str) : Connection :=
  match Writer.text script ++ Writer.credentials c.credentials with
  | .ok _ => c.spent
  | .error _ => c

theorem requested_eq (c : Connection) (script : Str) :
    c.requested script = c ∨ c.requested script = c.spent := by
  rw [requested]
  split
  · exact .inr rfl
  · exact .inl rfl

theorem attempt_bind {α β : Type} (a : α) (f : α → Client β) :
    (attempt (.ok a) >>= f) = f a := rfl

theorem attempt_error_bind {α β : Type} (e : Raised) (f : α → Client β) :
    (attempt (.error e) >>= f) = attempt (.error e) := rfl

theorem spent_of_not_owed {c : Connection} (h : c.owed = false ∨ c.user = none) :
    c.spent = c ∧ c.credentials = none := by
  rcases c with ⟨sock, user, password, owed, subscribed, minor⟩
  rcases h with rfl | rfl
  · exact ⟨rfl, rfl⟩
  · cases owed <;> exact ⟨rfl, rfl⟩

theorem request_spec (script : Str) (ps : List (Str × Value)) (c : Connection) (w : World) :
    request script ps (c, w) =
      settle (requestBody script c.credentials ps) (c.requested script, w) := by
  rw [request, requestBody, requested]
  rcases Writer.text script with e | head
  · rfl
  rw [attempt_bind]
  -- Whatever the credentials are, only the parameters come after the flag is cleared.
  have hplain : ∀ {c : Connection}, c.credentials = none → c.spent = c →
      (attempt (Writer.credentials none) >>= fun presented => attempt (Writer.parameters ps) >>=
        fun tail => pure (head ++ (presented ++ tail)) : Client Bytes) (c, w) =
      settle (.ok head ++ (Writer.credentials c.credentials ++ Writer.parameters ps))
        (match .ok head ++ Writer.credentials c.credentials with
          | .ok _ => c.spent
          | .error _ => c, w) := by
    intro c hnone hspent
    rw [hnone, hspent]
    rcases Writer.parameters ps with e | tail <;> rfl
  rcases c with ⟨sock, user, password, - | -, subscribed, minor⟩
  · exact hplain rfl rfl
  · rcases user with - | user
    · exact hplain rfl rfl
    · have hsome : credentials ⟨sock, some user, password, true, subscribed, minor⟩ =
          some (user, password.getD []) := rfl
      rw [hsome]
      change (attempt (Writer.credentials (some (user, password.getD []))) >>= _ : Client Bytes)
        _ = _
      rcases Writer.credentials (some (user, password.getD [])) with e | presented
      · rfl
      · rcases Writer.parameters ps with e | tail <;> rfl

theorem requested_of_ok {c : Connection} {script : Str} {ps : List (Str × Value)} {body : Bytes}
    (h : requestBody script c.credentials ps = .ok body) : c.requested script = c.spent := by
  rw [requestBody, ← Put.append_assoc] at h
  obtain ⟨b, -, hb, -⟩ := Put.append_eq_ok.mp h
  rw [requested, hb]

/-- What one statement comes to. -/
theorem ask_spec (script : Str) (ps : List (Str × Value)) (c : Connection) (w : World) :
    (c.subscribed = true ∧ ∃ e, ask script ps (c, w) = .error e (c, w)) ∨
    (c.subscribed = false ∧ ∃ e, requestBody script c.credentials ps = .error e ∧
      ask script ps (c, w) = .error e (c.requested script, w)) ∨
    (c.subscribed = false ∧ ∃ body s' r, requestBody script c.credentials ps = .ok body ∧
      Exchanged Frames.REQUEST body (w.sockets c.sock) s' r ∧
      ask script ps (c, w) = settle r (c.spent, w.put c.sock s')) := by
  have hask : ask script ps (c, w) =
      (if c.subscribed then throw (.tessariError
          "this connection is a subscription and no longer answers statements")
        else request script ps >>= exchange Frames.REQUEST : Client Reply) (c, w) := rfl
  rw [hask]
  rcases hsub : c.subscribed with - | -
  · right
    have hrequest := request_spec script ps c w
    rcases hbody : requestBody script c.credentials ps with e | body
    · rw [hbody] at hrequest
      exact .inl ⟨rfl, e, rfl, bind_of_error hrequest _⟩
    · rw [hbody, requested_of_ok hbody] at hrequest
      obtain ⟨s', r, hr, hrun⟩ := exchange_spec Frames.REQUEST body c.spent w
      exact .inr ⟨rfl, body, s', r, rfl, hr, (bind_of_ok hrequest _).trans hrun⟩
  · exact .inl ⟨rfl, _, rfl⟩

/-- What one vault frame comes to. -/
theorem vault_spec (body : Option (Str × Str) → Writer) (c : Connection) (w : World) :
    ((c.minor < Frames.VAULT_MINOR ∨ c.subscribed = true) ∧
      ∃ e, vault body (c, w) = .error e (c, w)) ∨
    (Frames.VAULT_MINOR ≤ c.minor ∧ ∃ e, body c.credentials = .error e ∧
      vault body (c, w) = .error e (c.spent, w)) ∨
    (Frames.VAULT_MINOR ≤ c.minor ∧ ∃ raw s' r, body c.credentials = .ok raw ∧
      Exchanged Frames.VAULT raw (w.sockets c.sock) s' r ∧
      vault body (c, w) = settle (r.bind statusOf) (c.spent, w.put c.sock s')) := by
  have hvault : vault body (c, w) =
      (if c.minor < Frames.VAULT_MINOR then
          throw (.nodeTooOld c.minor Frames.VAULT_MINOR "the vault frame")
        else if c.subscribed then throw (.tessariError
          "this connection is a subscription and no longer answers statements")
        else modify (fun (c, w) => (c.spent, w)) >>= fun _ => attempt (body c.credentials) >>=
          fun raw => exchange Frames.VAULT raw >>= fun reply => attempt (statusOf reply) :
        Client Value) (c, w) := rfl
  rw [hvault]
  split
  · next h => exact .inl ⟨.inl h, _, rfl⟩
  next hminor =>
  split
  · next h => exact .inl ⟨.inr h, _, rfl⟩
  right
  rcases hbody : body c.credentials with e | raw
  · exact .inl ⟨Nat.not_lt.mp hminor, e, rfl, rfl⟩
  · obtain ⟨s', r, hr, hrun⟩ := exchange_spec Frames.VAULT raw c.spent w
    refine .inr ⟨Nat.not_lt.mp hminor, raw, s', r, rfl, hr, ?_⟩
    cases r with
    | error e => exact bind_of_error hrun _
    | ok reply => exact bind_of_ok hrun _

theorem after_bind_attempt {α β : Type} (m : Client α) (f : α → Except Raised β)
    (cw : Connection × World) : after ((m >>= fun a => attempt (f a)) cw) = after (m cw) := by
  cases hm : m cw with
  | error e cw' =>
      rw [bind_of_error hm]
      rfl
  | ok a cw' =>
      rw [bind_of_ok hm, attempt, after_settle]
      rfl

/-- A call on a connection touches its own socket and its own credentials, and nothing else. -/
def Stays {α : Type} (c : Connection) (w : World)
    (r : EStateM.Result Raised (Connection × World) α) : Prop :=
  ∃ c' s', after r = (c', w.put c.sock s') ∧ (c' = c ∨ c' = c.spent)

theorem ask_stays (script : Str) (ps : List (Str × Value)) (c : Connection) (w : World) :
    Stays c w (ask script ps (c, w)) := by
  rcases ask_spec script ps c w with ⟨-, e, hask⟩ | ⟨-, e, -, hask⟩ |
    ⟨-, body, s', r, -, -, hask⟩
  · rw [hask]
    exact ⟨c, _, by rw [World.put_self]; rfl, .inl rfl⟩
  · rw [hask]
    exact ⟨_, _, by rw [World.put_self]; rfl, requested_eq c script⟩
  · rw [hask]
    exact ⟨c.spent, s', by rw [after_settle], .inr rfl⟩

/-- A statement that was answered spent the credentials. -/
theorem ask_spent {script : Str} {ps : List (Str × Value)} {c : Connection} {w : World}
    {reply : Reply} (h : outcome (ask script ps (c, w)) = .ok reply) :
    (after (ask script ps (c, w))).1 = c.spent := by
  rcases ask_spec script ps c w with ⟨-, e, hask⟩ | ⟨-, e, -, hask⟩ |
    ⟨-, body, s', r, -, -, hask⟩
  · rw [hask] at h
    cases h
  · rw [hask] at h
    cases h
  · rw [hask, after_settle]

end Connection

end TessariDB
