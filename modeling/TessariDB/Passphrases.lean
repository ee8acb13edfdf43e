import TessariDB.Lockstep
import TessariDB.VaultHandle

/-!
# Passphrases Stay in Their Frames

A passphrase is a field of the vault frame and nothing else: no answer, no error, no later frame and
no other socket depends on it. Said of two runs, one of them with an asterisk for each byte of every
passphrase: they come to the same results, and leave everything as it is but the fields of the vault
frames in which the passphrases went out.

How long a passphrase is can be seen from outside, and a text with no encoding is never sent, so the
asterisks are as many as the bytes, and such a text stays as it is.

## Main results

* `lockstep_execute`, `lockstep_vault`: what any call does besides.
* `passphrases_stay_in_their_frames`: whole sequences of calls.
-/

namespace TessariDB

open ByteCodec ByteStream Utf8 Connection

/-! ### Veiled passphrases -/

/-- An asterisk for each byte. -/
def veil (passphrase : Str) : Str :=
  match Utf8.encode passphrase with
  | some raw => List.replicate raw.length (codePoint 0x2A)
  | none => passphrase

/-- The call with its passphrases veiled. -/
def Vault.Call.veiled : Vault.Call → Vault.Call
  | .storeUnseal passphrase => .storeUnseal (veil passphrase)
  | .storeChangePassphrase current new => .storeChangePassphrase (veil current) (veil new)
  | .unseal s passphrase => .unseal s (veil passphrase)
  | .changePassphrase s current new => .changePassphrase s (veil current) (veil new)
  | .declare s passphrase => .declare s (veil passphrase)
  | call => call

/-- What a frame is built from, with its passphrases veiled. -/
def VaultArgs.veiled (a : VaultArgs) : VaultArgs where
  credentials := a.credentials
  act := a.act
  passphrase := a.passphrase.map veil
  current := a.current.map veil
  new := a.new.map veil
  place := a.place

/-! ### What a veil changes -/

/-- A write, and the same write or the same vault frame with its passphrases veiled. -/
inductive Veiled : Bytes → Bytes → Prop
  | same (bytes : Bytes) : Veiled bytes bytes
  | vault {a : VaultArgs} {body body' : Bytes} (clear : a.body = .ok body)
      (veiled : a.veiled.body = .ok body') :
      Veiled (Frames.frame Frames.VAULT body) (Frames.frame Frames.VAULT body')

/-- The same socket, but for what is veiled in its writes. -/
structure SocketVeiled (s t : Socket) : Prop where
  source : s.source = t.source
  taken : s.taken = t.taken
  sends : s.sends = t.sends
  sent : List.Forall₂ Veiled s.sent t.sent
  closed : s.closed = t.closed

structure WorldVeiled (w v : World) : Prop where
  sockets : ∀ i, SocketVeiled (w.sockets i) (v.sockets i)
  opened : w.opened = v.opened
  dials : w.dials = v.dials
  isDigit : w.isDigit = v.isDigit
  repr : w.repr = v.repr

/-- The same connection, in worlds that are the same but for what is veiled. -/
structure StateVeiled (x y : Connection × World) : Prop where
  connection : x.1 = y.1
  world : WorldVeiled x.2 y.2

theorem SocketVeiled.refl (s : Socket) : SocketVeiled s s where
  source := rfl
  taken := rfl
  sends := rfl
  sent := List.forall₂_same.mpr fun bytes _ => .same bytes
  closed := rfl

theorem WorldVeiled.refl (w : World) : WorldVeiled w w where
  sockets i := .refl (w.sockets i)
  opened := rfl
  dials := rfl
  isDigit := rfl
  repr := rfl

/-! ### The size of a body -/

/-- Two writers that write equally much, or fail in one way. -/
inductive SameSize : Writer → Writer → Prop
  | ok {raw raw' : Bytes} (length : raw.length = raw'.length) : SameSize (.ok raw) (.ok raw')
  | error (e : Raised) : SameSize (.error e) (.error e)

namespace SameSize

variable {p p' q q' : Writer}

theorem refl (p : Writer) : SameSize p p := by
  cases p with
  | ok raw => exact .ok rfl
  | error e => exact .error e

theorem append (hp : SameSize p p') (hq : SameSize q q') : SameSize (p ++ q) (p' ++ q') := by
  cases hp with
  | error e => exact .error e
  | ok hp =>
      cases hq with
      | error e => exact .error e
      | ok hq => exact .ok (by rw [List.length_append, List.length_append, hp, hq])

end SameSize

/-- Asterisks are encoded a byte each. -/
theorem encode_asterisks (n : ℕ) :
    Utf8.encode (List.replicate n (codePoint 0x2A)) = some (List.replicate n 0x2A) := by
  induction n with
  | zero => rfl
  | succ n ih =>
      rw [List.replicate_succ, Utf8.encode, ih]
      rfl

theorem sameSize_text (passphrase : Str) :
    SameSize (Writer.text passphrase) (Writer.text (veil passphrase)) := by
  rw [veil]
  cases h : Utf8.encode passphrase with
  | none => exact .refl _
  | some raw =>
      rw [Writer.text, Writer.text, Writer.encodeUtf8, Writer.encodeUtf8, h, encode_asterisks]
      dsimp only
      rw [Writer.lenbytes, Writer.lenbytes, List.length_replicate]
      exact (SameSize.refl _).append (.ok (List.length_replicate ..).symm)

/-- An absent passphrase is written as an empty one. -/
theorem sameSize_getD (passphrase : Option Str) :
    SameSize (Writer.text (passphrase.getD [])) (Writer.text ((passphrase.map veil).getD [])) := by
  cases passphrase with
  | none => exact .refl _
  | some passphrase => exact sameSize_text passphrase

theorem VaultArgs.sameSize (a : VaultArgs) : SameSize a.body a.veiled.body := by
  refine (SameSize.refl _).append ((SameSize.refl _).append ((SameSize.refl _).append ?_))
  rw [veiled]
  generalize a.act = act
  match act with
  | .unseal | .declare => exact sameSize_getD _
  | .change => exact (sameSize_getD _).append (sameSize_getD _)
  | .status | .seal => exact .refl _

/-! ### Sockets -/

namespace SocketVeiled

variable {s t : Socket}

theorem close (h : SocketVeiled s t) : SocketVeiled s.close t.close where
  source := h.source
  taken := h.taken
  sends := h.sends
  sent := h.sent
  closed := rfl

theorem opened (source : Source) (sends : ℕ) :
    SocketVeiled (.opened source sends) (.opened source sends) where
  source := rfl
  taken := rfl
  sends := rfl
  sent := .nil
  closed := rfl

end SocketVeiled

/-- A read says nothing of what was written. -/
theorem lockstep_recv (n : ℕ) : Lockstep SocketVeiled Eq (Socket.recv n) (Socket.recv n) := by
  intro s t hst
  rw [Socket.recv, Socket.recv, ← hst.closed, ← hst.source, ← hst.taken]
  split
  · exact .error hst
  · split
    · exact .error hst
    · next piece source _ =>
      exact .ok rfl ⟨rfl, rfl, hst.sends, hst.sent, rfl⟩

theorem lockstep_sendall {bytes bytes' : Bytes} (h : Veiled bytes bytes') :
    Lockstep SocketVeiled Eq (Socket.sendall bytes) (Socket.sendall bytes') := by
  intro s t hst
  rw [Socket.sendall, Socket.sendall, ← hst.closed, ← hst.sends]
  split
  · exact .error hst
  · split
    · exact .error hst
    · exact .ok rfl ⟨hst.source, hst.taken, rfl,
        List.rel_append hst.sent (.cons h .nil), rfl⟩

namespace Frames

theorem lockstep_recv (what : String) (n : ℕ) :
    Lockstep SocketVeiled Eq (recv what n) (recv what n) :=
  (TessariDB.lockstep_recv n).adaptExcept _

theorem lockstep_sendall (what : String) {bytes bytes' : Bytes} (h : Veiled bytes bytes') :
    Lockstep SocketVeiled Eq (sendall what bytes) (sendall what bytes') :=
  (TessariDB.lockstep_sendall h).adaptExcept _

theorem lockstep_receive (width : ℕ) (what : String) :
    Lockstep SocketVeiled Eq (receive width what) (receive width what) := by
  have hloop : ∀ fuel out, Lockstep SocketVeiled Eq (receiveLoop width what fuel out)
      (receiveLoop width what fuel out) := by
    intro fuel
    induction fuel with
    | zero => exact fun _ => .pure rfl
    | succ fuel ih =>
        intro out
        rw [receiveLoop]
        split
        · refine (lockstep_recv _ _).bind_eq fun piece => ?_
          split
          · exact .throw _
          · exact ih _
        · exact .pure rfl
  exact hloop width []

theorem lockstep_greet : Lockstep SocketVeiled Eq greet greet := by
  have hloop : ∀ fuel seen,
      Lockstep SocketVeiled Eq (greetLoop fuel seen) (greetLoop fuel seen) := by
    intro fuel
    induction fuel with
    | zero => exact fun _ => .pure rfl
    | succ fuel ih =>
        intro seen
        rw [greetLoop]
        split
        · refine (lockstep_recv _ _).bind_eq fun piece => ?_
          split
          · split
            · exact .throw _
            · exact .throw _
          · split
            · exact .throw _
            · exact ih _
        · exact .pure rfl
  refine (lockstep_sendall _ (.same _)).bind_eq fun _ => ?_
  refine (hloop _ _).bind_eq fun _ => ?_
  refine (lockstep_receive _ _).bind_eq fun version => ?_
  dsimp only
  split
  · exact .throw _
  · exact .pure rfl

theorem lockstep_read : Lockstep SocketVeiled Eq read read := by
  refine (lockstep_recv _ _).bind_eq fun first => ?_
  split
  · exact .pure rfl
  · refine (lockstep_receive _ _).bind_eq fun raw => ?_
    dsimp only
    split
    · exact .throw _
    · split
      · exact .throw _
      · exact (lockstep_receive _ _).bind_eq fun body => .pure rfl

theorem lockstep_send (kind : ℕ) (body : Bytes) :
    Lockstep SocketVeiled Eq (send kind body) (send kind body) := by
  rw [send]
  split
  · exact .throw _
  · exact lockstep_sendall _ (.same _)

/-- A veiled frame is as long as the frame. -/
theorem lockstep_send_vault {a : VaultArgs} {body body' : Bytes} (hclear : a.body = .ok body)
    (hveiled : a.veiled.body = .ok body') :
    Lockstep SocketVeiled Eq (send VAULT body) (send VAULT body') := by
  have hlength : body.length = body'.length := by
    have hsize := a.sameSize
    rw [hclear, hveiled] at hsize
    cases hsize with
    | ok hlength => exact hlength
  rw [send, send, ← hlength]
  split
  · exact .throw _
  · exact lockstep_sendall _ (.vault hclear hveiled)

end Frames

/-! ### Worlds -/

namespace WorldVeiled

variable {w v : World} (h : WorldVeiled w v)

include h

theorem put {s t : Socket} (sock : ℕ) (hst : SocketVeiled s t) :
    WorldVeiled (w.put sock s) (v.put sock t) where
  sockets i := by
    by_cases hi : i = sock
    · rw [hi, World.put_sockets_self, World.put_sockets_self]
      exact hst
    · rw [World.put_sockets_of_ne w hi, World.put_sockets_of_ne v hi]
      exact h.sockets i
  opened := h.opened
  dials := h.dials
  isDigit := h.isDigit
  repr := h.repr

theorem close (sock : ℕ) : WorldVeiled (w.close sock) (v.close sock) :=
  h.put sock (h.sockets sock).close

theorem accept (source : Source) (sends : ℕ) (dials : List Dial) :
    WorldVeiled (w.accept source sends dials) (v.accept source sends dials) where
  sockets i := by
    rw [World.accept, World.accept, ← h.opened]
    dsimp only
    by_cases hi : i = w.opened
    · subst hi
      rw [Function.update_self, Function.update_self]
      exact .opened source sends
    · rw [Function.update_of_ne hi, Function.update_of_ne hi]
      exact h.sockets i
  opened := congrArg (· + 1) h.opened
  dials := rfl
  isDigit := h.isDigit
  repr := h.repr

end WorldVeiled

/-! ### Connections -/

namespace Connection

/-- A call that does the same, but for what is veiled. -/
abbrev Blind {α : Type} (m n : Client α) : Prop := Lockstep StateVeiled Eq m n

theorem lockstep_get : Lockstep StateVeiled StateVeiled (get : Client (Connection × World)) get :=
  fun _ _ hst => .ok hst hst

theorem lockstep_modify (f : Connection → Connection) :
    Blind (modify fun x => (f x.1, x.2)) (modify fun x => (f x.1, x.2)) := by
  rintro ⟨c, w⟩ ⟨d, v⟩ ⟨rfl, hworld⟩
  exact .ok rfl ⟨rfl, hworld⟩

theorem lockstep_onSocket {α : Type} {m n : EStateM Raised Socket α}
    (h : Lockstep SocketVeiled Eq m n) : Blind (onSocket m) (onSocket n) := by
  rintro ⟨c, w⟩ ⟨d, v⟩ ⟨hconnection, hworld⟩
  obtain rfl : c = d := hconnection
  rw [onSocket, onSocket]
  rcases h.run (hworld.sockets c.sock) with ⟨a, b, s, t, hm, hn, hvalues, hst⟩ |
    ⟨e, s, t, hm, hn, hst⟩
  · rw [hm, hn]
    exact .ok hvalues ⟨rfl, hworld.put c.sock hst⟩
  · rw [hm, hn]
    exact .error ⟨rfl, hworld.put c.sock hst⟩

theorem lockstep_close : Blind close close := by
  rintro ⟨c, w⟩ ⟨d, v⟩ ⟨hconnection, hworld⟩
  obtain rfl : c = d := hconnection
  exact .ok rfl ⟨rfl, hworld.close c.sock⟩

theorem lockstep_attempt {α : Type} (x : Except Raised α) : Blind (attempt x) (attempt x) :=
  .settle x

theorem lockstep_readFrame : Blind readFrame readFrame := by
  refine .bind_eq ((lockstep_onSocket Frames.lockstep_read).tryCatch fun e => ?_) fun frame => ?_
  · split
    · exact lockstep_close.bind_eq fun _ => .throw e
    · exact .throw e
  · cases frame with
    | none => exact lockstep_close.bind_eq fun _ => .throw _
    | some frame => exact .pure rfl

theorem lockstep_reply : Blind reply reply := by
  refine lockstep_readFrame.bind_eq fun frame => ?_
  dsimp only
  split
  · exact (lockstep_attempt _).bind_eq fun outcomes => .pure rfl
  split
  · exact .throw _
  split
  · exact (lockstep_attempt _).bind_eq fun redirect => .pure rfl
  · exact lockstep_close.bind_eq fun _ => .throw _

theorem lockstep_request (script : Str) (ps : List (Str × Value)) :
    Blind (request script ps) (request script ps) := by
  refine (lockstep_attempt _).bind_eq fun head => ?_
  refine lockstep_get.bind ?_
  rintro ⟨c, w⟩ ⟨d, v⟩ ⟨hconnection, -⟩
  obtain rfl : c = d := hconnection
  have htail : ∀ presented : Bytes, Blind
      (do
        let tail ← attempt (Writer.parameters ps)
        return head ++ (presented ++ tail))
      (do
        let tail ← attempt (Writer.parameters ps)
        return head ++ (presented ++ tail)) := fun presented =>
    (lockstep_attempt _).bind_eq fun tail => .pure rfl
  dsimp only
  split
  · refine (lockstep_attempt _).bind_eq fun presented => ?_
    refine (lockstep_modify fun c => { c with owed := false }).bind_eq fun _ => ?_
    exact .bind_eq (.pure rfl) htail
  · exact (lockstep_attempt _).bind_eq htail

theorem lockstep_ask (script : Str) (ps : List (Str × Value)) :
    Blind (ask script ps) (ask script ps) := by
  refine lockstep_get.bind ?_
  rintro ⟨c, w⟩ ⟨d, v⟩ ⟨hconnection, -⟩
  obtain rfl : c = d := hconnection
  dsimp only
  split
  · exact .throw _
  · refine (lockstep_request script ps).bind_eq fun body => ?_
    exact (lockstep_onSocket (Frames.lockstep_send _ body)).bind_eq fun _ => lockstep_reply

/-- **A vault frame** with its passphrases veiled is answered as the frame is. -/
theorem lockstep_vault (a : Option (Str × Str) → VaultArgs) :
    Blind (vault fun credentials => (a credentials).body)
      (vault fun credentials => (a credentials).veiled.body) := by
  refine lockstep_get.bind ?_
  rintro ⟨c, w⟩ ⟨d, v⟩ ⟨hconnection, -⟩
  obtain rfl : c = d := hconnection
  dsimp only
  split
  · exact .throw _
  split
  · exact .throw _
  refine (lockstep_modify spent).bind_eq fun _ => ?_
  have hsize := (a c.credentials).sameSize
  cases hclear : (a c.credentials).body with
  | error e =>
      rw [hclear] at hsize
      cases hveiled : (a c.credentials).veiled.body with
      | error e' =>
          rw [hveiled] at hsize
          cases hsize
          exact fun _ _ hst => .error hst
      | ok body' =>
          rw [hveiled] at hsize
          cases hsize
  | ok body =>
      rw [hclear] at hsize
      cases hveiled : (a c.credentials).veiled.body with
      | error e' =>
          rw [hveiled] at hsize
          cases hsize
      | ok body' =>
          have hsent := lockstep_onSocket (Frames.lockstep_send_vault hclear hveiled)
          have hexchange : Blind (exchange Frames.VAULT body) (exchange Frames.VAULT body') :=
            hsent.bind_eq fun _ => lockstep_reply
          exact hexchange.bind_eq fun reply => lockstep_attempt _

theorem lockstep_connect (address : Str) (user password : Option Str) :
    Lockstep WorldVeiled Eq (connect address user password) (connect address user password) := by
  intro w v h
  rw [connect, connect]
  dsimp only
  rw [← h.isDigit, ← h.repr, ← h.dials, ← h.opened]
  split
  · exact .error h
  split
  · exact .error h
  · next why dials _ => exact .error ⟨h.sockets, rfl, rfl, rfl, rfl⟩
  · next source sends dials _ =>
    have haccept := h.accept source sends dials
    rcases Frames.lockstep_greet.run (haccept.sockets w.opened) with
      ⟨a, b, s, t, hm, hn, hvalues, hst⟩ | ⟨e, s, t, hm, hn, hst⟩
    · rw [hm, hn, hvalues]
      exact .ok rfl (haccept.put w.opened hst)
    · rw [hm, hn]
      exact .error (haccept.put w.opened hst.close)

end Connection

/-! ### Following -/

namespace Follow

theorem lockstep_answered (script : Str) : Blind (answered script) (answered script) :=
  (lockstep_ask script []).bind_eq fun _ => lockstep_attempt _

theorem lockstep_context : Blind context context :=
  (lockstep_answered CONTEXT).bind_eq fun _ => lockstep_attempt _

theorem lockstep_visit (script : Str) (ps : List (Str × Value)) (selecting : Str)
    (redirect : Elsewhere) :
    Blind (visit script ps selecting redirect) (visit script ps selecting redirect) := by
  refine lockstep_context.bind_eq fun fields => (lockstep_attempt _).bind_eq fun _ => ?_
  dsimp only
  split
  · exact (lockstep_answered selecting).discard.bind_eq fun _ => lockstep_ask script ps
  · exact lockstep_ask script ps

theorem lockstep_followLoop (script : Str) (ps : List (Str × Value)) (selecting : Str) (left : ℕ)
    (redirect : Elsewhere) (floor : ℕ) :
    Blind (followLoop script ps selecting left redirect floor)
      (followLoop script ps selecting left redirect floor) := by
  induction left generalizing redirect floor with
  | zero => exact .throw _
  | succ left ih =>
      rintro ⟨c, w⟩ ⟨d, v⟩ ⟨hconnection, hworld⟩
      obtain rfl : c = d := hconnection
      rw [followLoop]
      dsimp only
      split
      · exact .error ⟨rfl, hworld⟩
      rcases (lockstep_connect redirect.endpoint c.user c.password).run hworld with
        ⟨there, there', w₁, v₁, hw, hv, hthere, hworld₁⟩ | ⟨e, w₁, v₁, hw, hv, hworld₁⟩
      · obtain rfl : there = there' := hthere
        rw [hw, hv]
        dsimp only
        rcases (lockstep_visit script ps selecting redirect).run
            (⟨rfl, hworld₁⟩ : StateVeiled (there, w₁) (there, v₁)) with
          ⟨reply, reply', ⟨c₂, w₂⟩, ⟨d₂, v₂⟩, hw', hv', hreply, hconnection₂, hworld₂⟩ |
          ⟨e, ⟨c₂, w₂⟩, ⟨d₂, v₂⟩, hw', hv', hconnection₂, hworld₂⟩
        · obtain rfl : reply = reply' := hreply
          obtain rfl : c₂ = d₂ := hconnection₂
          rw [hw', hv']
          dsimp only
          split
          · split
            · exact .ok rfl ⟨rfl, hworld₂.close c.sock⟩
            · exact .ok rfl ⟨rfl, hworld₂.close c₂.sock⟩
          · exact ih _ _ _ _ ⟨rfl, hworld₂.close c₂.sock⟩
        · obtain rfl : c₂ = d₂ := hconnection₂
          rw [hw', hv']
          exact .error ⟨rfl, hworld₂.close c₂.sock⟩
      · rw [hw, hv]
        exact .error ⟨rfl, hworld₁⟩

end Follow

/-- **A statement** is answered as it is whatever passphrases went before. -/
theorem Connection.lockstep_execute (script : Str) (ps : List (Str × Value)) :
    Blind (execute script ps) (execute script ps) := by
  refine (lockstep_ask script ps).bind_eq fun reply => ?_
  split
  · exact .pure rfl
  · have hselection : Blind Follow.selection Follow.selection :=
      Follow.lockstep_context.bind_eq fun _ => lockstep_attempt _
    refine hselection.bind_eq fun selecting => ?_
    exact Follow.lockstep_followLoop script ps selecting _ _ _

/-! ### The vault -/

namespace Vault

/-- A call of `vault.py` that does the same, but for what is veiled. -/
abbrev Blind {α : Type} (m n : Vaulting α) : Prop := Lockstep StateVeiled Eq m n

theorem lockstep_attempt {α : Type} (x : Except VaultRaised α) : Blind (attempt x) (attempt x) :=
  .settle x

theorem lockstep_send (r : Rendered Value) : Blind (send r) (send r) :=
  (Connection.lockstep_execute _ _).adaptExcept _

theorem lockstep_value (r : Rendered Value) : Blind (value r) (value r) :=
  (lockstep_send r).bind_eq fun _ => lockstep_attempt _

section

variable (python : Interpreter) (outside : ℤ → VaultStatus.LibraryRaised)

/-- An act with the login a frame presents. -/
theorem lockstep_act (kind : Act) (passphrase current new : Option Str)
    (target : Option (Str × Str × Str)) :
    Blind (act python outside fun credentials =>
        frameBody credentials kind passphrase current new target)
      (act python outside fun credentials =>
        frameBody credentials kind (passphrase.map veil) (current.map veil) (new.map veil)
          target) := by
  have hpresented : ∀ credentials : Option (Str × Str),
      presented (credentials.map fun login => (login.1, some login.2)) = credentials := by
    intro credentials
    cases credentials <;> rfl
  have hvault := Connection.lockstep_vault fun credentials =>
    ⟨credentials.map fun login => (login.1, some login.2), kind, passphrase, current, new, target⟩
  simp only [VaultArgs.body, VaultArgs.veiled, hpresented] at hvault
  exact (hvault.adaptExcept _).bind_eq fun _ => lockstep_attempt _

variable (s : VaultStatements)

theorem lockstep_actOn (kind : Act) (passphrase current new : Option Str) :
    Blind (actOn python outside s kind passphrase current new)
      (actOn python outside s kind (passphrase.map veil) (current.map veil) (new.map veil)) :=
  lockstep_act python outside kind passphrase current new (some (place s))

theorem lockstep_declare (passphrase : Str) :
    Blind (declare python outside s passphrase) (declare python outside s (veil passphrase)) := by
  have hget : Lockstep StateVeiled StateVeiled (get : Vaulting (Connection × World)) get :=
    fun _ _ hst => .ok hst hst
  refine hget.bind ?_
  rintro ⟨c, w⟩ ⟨d, v⟩ ⟨hconnection, -⟩
  obtain rfl : c = d := hconnection
  dsimp only
  split
  · exact .throw _
  · exact lockstep_actOn python outside s .declare (some passphrase) none none

end

/-- A statement, and something made of its answer. -/
theorem lockstep_answer {α : Type} (x : Except Rejected (Rendered Value))
    (read : Value → Except VaultRaised α) :
    Blind (do
        let r ← rendering x
        let answer ← value r
        attempt (read answer))
      (do
        let r ← rendering x
        let answer ← value r
        attempt (read answer)) :=
  .bind_eq (lockstep_attempt _) fun r =>
    (lockstep_value r).bind_eq fun _ => lockstep_attempt _

end Vault

namespace Vault.Call

variable (python : Interpreter) (outside : ℤ → VaultStatus.LibraryRaised)

/-- **A call** with its passphrases veiled comes to what the call comes to. -/
theorem lockstep_perform (call : Vault.Call) :
    Vault.Blind (call.perform python outside) (call.veiled.perform python outside) := by
  -- Whatever is returned, it is the same on both sides.
  have hmap : ∀ {α : Type} {m n : Vaulting α} (k : α → Answer), Vault.Blind m n →
      Vault.Blind (k <$> m) (k <$> n) := fun k h => h.map fun _ _ => congrArg k
  match call with
  | .execute script ps => exact hmap _ (lockstep_send _)
  | .storeStatus => exact hmap _ (lockstep_act _ _ .status none none none none)
  | .storeUnseal passphrase =>
      exact hmap _ (lockstep_act _ _ .unseal (some passphrase) none none none)
  | .storeSeal => exact hmap _ (lockstep_act _ _ .seal none none none none)
  | .storeChangePassphrase current new =>
      exact hmap _ (lockstep_act _ _ .change none (some current) (some new) none)
  | .audit inNamespace inDatabase by_ => exact hmap _ (lockstep_answer _ _)
  | .status s => exact hmap _ (lockstep_actOn _ _ s .status none none none)
  | .unseal s passphrase =>
      exact hmap _ (lockstep_actOn _ _ s .unseal (some passphrase) none none)
  | .seal s => exact hmap _ (lockstep_actOn _ _ s .seal none none none)
  | .changePassphrase s current new =>
      exact hmap _ (lockstep_actOn _ _ s .change none (some current) (some new))
  | .declare s passphrase => exact hmap _ (lockstep_declare _ _ s passphrase)
  | .list s after limit => exact hmap _ (lockstep_answer _ _)
  | .reveal s record fields => exact hmap _ (lockstep_answer _ _)
  | .write s record fields =>
      exact hmap _ (.bind_eq (lockstep_attempt _) fun r => (lockstep_send r).discard)
  | .recipients s record =>
      exact hmap _ ((lockstep_value _).bind_eq fun _ => lockstep_attempt _)
  | .addRecipient s record name key => exact hmap _ (lockstep_send _).discard
  | .removeRecipient s record name => exact hmap _ (lockstep_send _).discard

/-- **A sequence of calls**, from states that are the same but for what is veiled. -/
theorem results_veiled (calls : List Vault.Call) {x y : Connection × World} (h : StateVeiled x y) :
    (results python outside calls x).1 = (results python outside (calls.map veiled) y).1 ∧
      StateVeiled (results python outside calls x).2
        (results python outside (calls.map veiled) y).2 := by
  induction calls generalizing x y with
  | nil => exact ⟨rfl, h⟩
  | cons call calls ih =>
      have hcall := lockstep_perform python outside call x y h
      obtain ⟨hresults, hstates⟩ := ih hcall.after
      exact ⟨congrArg₂ _ hcall.outcome_eq hresults, hstates⟩

end Vault.Call

/-- **Passphrases stay in their frames.** Of any sequence of calls on a connection, with any nodes
behind it, take every passphrase away and put as many asterisks in its place: every result and
every error is the same, the connection and every socket get to the same state, and what was
written on a socket is the same, write by write, but for the passphrases of its vault frames. -/
theorem passphrases_stay_in_their_frames (python : Interpreter)
    (outside : ℤ → VaultStatus.LibraryRaised) (calls : List Vault.Call) (c : Connection)
    (w : World) :
    (Vault.Call.results python outside calls (c, w)).1 =
        (Vault.Call.results python outside (calls.map Vault.Call.veiled) (c, w)).1 ∧
      StateVeiled (Vault.Call.results python outside calls (c, w)).2
        (Vault.Call.results python outside (calls.map Vault.Call.veiled) (c, w)).2 :=
  Vault.Call.results_veiled python outside calls ⟨rfl, .refl w⟩

end TessariDB
