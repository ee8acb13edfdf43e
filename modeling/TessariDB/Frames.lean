import TessariDB.ByteStream
import TessariDB.Primitives

/-!
# Frames

`_frames.py`: the greeting, and frames of a kind byte, a big-endian length and a body. The
ceiling binds before a body is read and before a frame is sent, and a kind the node may not
send is refused.

Two loops accumulate what `recv` delivers. `receive` waits for a fixed number of bytes;
`greetLoop` judges what has arrived so far against the magic. Each of them, and the frame
reader over them, has a specification on the flat stream (`Frames.received`,
`Frames.frameOf`, `Frames.greetingOf`), in which the cuts no longer occur.

## Main results

* `Frames.receive_spec`, `Frames.read_spec`, `Frames.greet_spec`: the code against the flat
  stream.
* `Frames.frameOf_frame`, `Frames.frameOf_eq_some`, `Frames.frameOf_cut`: the flat stream
  against the frames in it.
-/

namespace TessariDB

open ByteCodec ByteStream BigEndian Utf8

namespace Frames

def CEILING : ℕ := 16 * 1024 * 1024
def MAGIC : Bytes := [0x54, 0x45, 0x53, 0x53]
def MAJOR : ℕ := 1
def MINOR : ℕ := 4

/-- What the client sends first. -/
def GREETING : Bytes := MAGIC ++ [UInt8.ofNat MAJOR, UInt8.ofNat MINOR]

def REQUEST : ℕ := 1
def ANSWER : ℕ := 2
def REFUSAL : ℕ := 3
def SUBSCRIBE : ℕ := 4
def CHANGE : ℕ := 5
def ELSEWHERE : ℕ := 13
def VAULT : ℕ := 17
def VAULT_MINOR : ℕ := 2
def PROGRESS : ℕ := 37
def CONDITION_MINOR : ℕ := 4

/-- The kinds a node may send. -/
def FROM_NODE : List ℕ := [ANSWER, REFUSAL, CHANGE, ELSEWHERE, PROGRESS]

/-! ### The code -/

/-- A byte as it stands inside Python's `repr` of a byte string. -/
def reprByte (quote byte : UInt8) : String :=
  if byte = quote ∨ byte = 0x5C then
    String.ofList [Char.ofNat 0x5C, Char.ofNat byte.toNat]
  else if byte = 0x09 then "\\t"
  else if byte = 0x0A then "\\n"
  else if byte = 0x0D then "\\r"
  else if byte < 0x20 ∨ 0x7F ≤ byte then
    "\\" ++ String.ofList ((hexByte byte).toList.drop 1)
  else
    String.ofList [Char.ofNat byte.toNat]

/-- Python's `repr` of a byte string. -/
def reprBytes (raw : Bytes) : String :=
  let quote : UInt8 := if 0x27 ∈ raw ∧ 0x22 ∉ raw then 0x22 else 0x27
  let mark := String.ofList [Char.ofNat quote.toNat]
  "b" ++ mark ++ String.join (raw.map (reprByte quote)) ++ mark

def recv (what : String) (n : ℕ) : EStateM Raised Socket Bytes :=
  (Socket.recv n).adaptExcept fun why =>
    let reason := why.reason
    .ioError s!"reading {what}: {reason}"

def sendall (what : String) (bytes : Bytes) : EStateM Raised Socket Unit :=
  (Socket.sendall bytes).adaptExcept fun why =>
    let reason := why.reason
    .ioError s!"sending {what}: {reason}"

/-- The loop of `_receive`, with what has arrived so far; each round adds a byte at least, so
`fuel` rounds are enough for `fuel` more bytes. -/
def receiveLoop (width : ℕ) (what : String) : ℕ → Bytes → EStateM Raised Socket Bytes
  | 0, out => pure out
  | fuel + 1, out =>
      if out.length < width then do
        let piece ← recv what (width - out.length)
        if piece = [] then
          let got := out.length
          throw (.truncated s!"the stream ended inside {what}: wanted {width} bytes, got {got}")
        else
          receiveLoop width what fuel (out ++ piece)
      else
        pure out

/-- Exactly `width` bytes. -/
def receive (width : ℕ) (what : String) : EStateM Raised Socket Bytes :=
  receiveLoop width what width []

/-- The loop of `greet`, with what has arrived of the magic. -/
def greetLoop : ℕ → Bytes → EStateM Raised Socket Unit
  | 0, _ => pure ()
  | fuel + 1, seen =>
      if seen.length < MAGIC.length then do
        let piece ← recv "the greeting" (MAGIC.length - seen.length)
        if piece = [] then
          -- Judged on what arrived rather than on how much of it there was.
          if seen = [] then
            throw (.notThisProtocol "the peer sent nothing; a node greets on connect")
          else
            let got := seen.length
            throw (.truncated s!"the peer began the greeting and stopped after {got} bytes")
        else if ¬ (seen ++ piece) <+: MAGIC then
          let found := reprBytes (seen ++ piece)
          let magic := reprBytes MAGIC
          throw (.notThisProtocol s!"the peer opened with {found}, which is not {magic}")
        else
          greetLoop fuel (seen ++ piece)
      else
        pure ()

/-- Exchange greetings and return the peer's `(major, minor)`. -/
def greet : EStateM Raised Socket (ℕ × ℕ) := do
  sendall "the greeting" GREETING
  greetLoop MAGIC.length []
  let version ← receive 2 "the greeting's version"
  let major := (version.getD 0 0).toNat
  let minor := (version.getD 1 0).toNat
  if major ≠ MAJOR then
    throw (.wrongVersion (major, minor) MAJOR)
  else
    return (major, minor)

/-- The bytes of one frame. -/
def frame (kind : ℕ) (body : Bytes) : Bytes :=
  UInt8.ofNat kind :: (toBytes 4 body.length ++ body)

/-- One frame out. -/
def send (kind : ℕ) (body : Bytes) : EStateM Raised Socket Unit :=
  if CEILING < body.length then
    throw (.tooLarge body.length CEILING)
  else
    sendall "a frame" (frame kind body)

/-- One frame in, or nothing for a clean goodbye. -/
def read : EStateM Raised Socket (Option (ℕ × Bytes)) := do
  let first ← recv "a frame header" 1
  match first with
  | [] => return none
  | kind :: _ =>
      let raw ← receive 4 "a frame length"
      let length := ofBytes raw
      if CEILING < length then
        throw (.tooLarge length CEILING)
      else if kind.toNat ∉ FROM_NODE then
        throw (.unknownFrame kind.toNat)
      else
        let body ← receive length "a frame body"
        return some (kind.toNat, body)

/-- A Refusal body: a first byte of 0–9 is the class, anything else belongs to the message. -/
def readRefusal (body : Bytes) : Option RefusalClass × Str :=
  match body with
  | byte :: message =>
      if byte ≤ 9 then (some (RefusalClass.fromByte byte.toNat), Utf8.decodeReplace message)
      else (none, Utf8.decodeReplace body)
  | [] => (none, Utf8.decodeReplace body)

/-! ### Waiting for a number of bytes -/

/-- The error of a stream that ends `got` bytes into a field of `width`. -/
def cutShort (width : ℕ) (what : String) (got : ℕ) : Ending → Raised
  | .eof => .truncated s!"the stream ended inside {what}: wanted {width} bytes, got {got}"
  | .reset =>
      let reason := "the connection was reset"
      .ioError s!"reading {what}: {reason}"

/-- What waiting for `width` bytes comes to on a flat stream. -/
def received (width : ℕ) (what : String) (flat : Bytes) (ending : Ending) :
    Except Raised Bytes :=
  if width ≤ flat.length then .ok (flat.take width)
  else .error (cutShort width what flat.length ending)

theorem received_of_le {width : ℕ} {what : String} {flat : Bytes} {ending : Ending}
    (h : width ≤ flat.length) : received width what flat ending = .ok (flat.take width) :=
  if_pos h

theorem received_of_lt {width : ℕ} {what : String} {flat : Bytes} {ending : Ending}
    (h : flat.length < width) :
    received width what flat ending = .error (cutShort width what flat.length ending) :=
  if_neg (Nat.not_le.mpr h)

theorem recv_of_ok {what : String} {n : ℕ} {s s' : Socket} {piece : Bytes}
    (h : Socket.recv n s = .ok piece s') : recv what n s = .ok piece s' := by
  simp only [recv, EStateM.adaptExcept, h]

theorem recv_of_error {what : String} {n : ℕ} {s s' : Socket} {why : OsError}
    (h : Socket.recv n s = .error why s') :
    recv what n s = .error (.ioError ("reading " ++ what ++ ": " ++ why.reason)) s' := by
  simp only [recv, EStateM.adaptExcept, h]
  rfl

/-- The loop, from any point of it. -/
theorem receiveLoop_spec {width fuel : ℕ} (what : String) (out : Bytes) {s : Socket}
    (hopen : s.closed = false) (hout : out.length ≤ width) (hfuel : width ≤ out.length + fuel) :
    ∃ s', s.Advanced s' (s.flat.take (width - out.length)) ∧
      receiveLoop width what fuel out s =
        settle (received width what (out ++ s.flat) s.source.ending) s' := by
  induction fuel generalizing out s with
  | zero =>
      obtain rfl : width = out.length := by omega
      refine ⟨s, by simpa using Socket.Advanced.refl s, ?_⟩
      rw [receiveLoop, received_of_le (by simp), List.take_left]
      rfl
  | succ fuel ih =>
      rw [receiveLoop]
      split
      · next hlt =>
        rcases Socket.recv_spec (n := width - out.length) (by omega) hopen with
          ⟨piece, s₁, hrecv, hne, hlen, hadv⟩ | ⟨hflat, hend, s₁, hrecv, hadv⟩ |
          ⟨hflat, hend, hrecv⟩
        · rw [bind_of_ok (recv_of_ok hrecv), if_neg hne]
          have hpos := List.length_pos_iff.mpr hne
          obtain ⟨s', hadv', hrun⟩ := ih (out ++ piece) (hadv.closed.trans hopen)
            (by rw [List.length_append]; omega) (by rw [List.length_append]; omega)
          have htake : s.flat.take (width - out.length) =
              piece ++ s₁.flat.take (width - (out ++ piece).length) := by
            rw [hadv.flat, List.take_append, List.take_of_length_le hlen, List.length_append,
              Nat.sub_sub]
          refine ⟨s', ?_, ?_⟩
          · rw [htake]
            exact hadv.trans hadv'
          · rw [hrun, List.append_assoc, ← hadv.flat, hadv.ending]
        · rw [bind_of_ok (recv_of_ok hrecv), if_pos rfl]
          refine ⟨s₁, by simpa [hflat] using hadv, ?_⟩
          rw [hflat, List.append_nil, received_of_lt hlt, hend]
          rfl
        · rw [bind_of_error (recv_of_error hrecv)]
          refine ⟨s, by simpa [hflat] using Socket.Advanced.refl s, ?_⟩
          rw [hflat, List.append_nil, received_of_lt hlt, hend]
          rfl
      · next hge =>
        obtain rfl : width = out.length := by omega
        refine ⟨s, by simpa using Socket.Advanced.refl s, ?_⟩
        rw [received_of_le (by simp), List.take_left]
        rfl

/-- Waiting for a number of bytes takes just these bytes, or all there are. -/
theorem receive_spec (width : ℕ) (what : String) {s : Socket} (hopen : s.closed = false) :
    ∃ s', s.Advanced s' (s.flat.take width) ∧
      receive width what s = settle (received width what s.flat s.source.ending) s' := by
  exact receiveLoop_spec what [] hopen (Nat.zero_le _) (Nat.le_add_left _ _)

/-! ### The greeting -/

/-- The error of a stream that ends inside the magic, after `seen`. -/
def magicCut (seen : Bytes) : Ending → ErrorClass
  | .eof => if seen = [] then .notThisProtocol else .truncated
  | .reset => .ioError

/-- What the four bytes of the magic come to on a flat stream: the magic, a beginning of it
and then the end, or something else. -/
def magicOf (flat : Bytes) (ending : Ending) : Except ErrorClass Unit :=
  if MAGIC <+: flat then .ok ()
  else if flat <+: MAGIC then .error (magicCut flat ending)
  else .error .notThisProtocol

theorem magicOf_of_prefix {flat : Bytes} (h : MAGIC <+: flat) (ending : Ending) :
    magicOf flat ending = .ok () :=
  if_pos h

theorem magicOf_of_begun {flat : Bytes} (h : flat <+: MAGIC) (hlen : flat.length < MAGIC.length)
    (ending : Ending) : magicOf flat ending = .error (magicCut flat ending) := by
  have hnot : ¬ MAGIC <+: flat := fun hm => absurd hm.length_le (Nat.not_le.mpr hlen)
  rw [magicOf, if_neg hnot, if_pos h]

theorem magicOf_of_other {seen rest : Bytes} (h : ¬ seen <+: MAGIC)
    (hlen : seen.length ≤ MAGIC.length) (ending : Ending) :
    magicOf (seen ++ rest) ending = .error .notThisProtocol := by
  have hmagic : ¬ MAGIC <+: seen ++ rest := fun hm =>
    h (List.prefix_of_prefix_length_le (List.prefix_append ..) hm hlen)
  have hbegun : ¬ seen ++ rest <+: MAGIC := fun hm => h ((List.prefix_append ..).trans hm)
  rw [magicOf, if_neg hmagic, if_neg hbegun]

/-- What a greeting comes to on a flat stream. -/
def greetingOf (flat : Bytes) (ending : Ending) : Except ErrorClass (ℕ × ℕ) :=
  match magicOf flat ending, received 2 "the greeting's version" (flat.drop 4) ending with
  | .error c, _ => .error c
  | .ok _, .error e => .error e.errorClass
  | .ok _, .ok version =>
      if (version.getD 0 0).toNat ≠ MAJOR then .error .wrongVersion
      else .ok ((version.getD 0 0).toNat, (version.getD 1 0).toNat)

/-- The loop, from any point of it. -/
theorem greetLoop_spec (fuel : ℕ) (seen : Bytes) {s : Socket} (hopen : s.closed = false)
    (hseen : seen <+: MAGIC) (hfuel : MAGIC.length ≤ seen.length + fuel) :
    (MAGIC <+: seen ++ s.flat ∧ ∃ s', greetLoop fuel seen s = .ok () s' ∧
      s.Advanced s' (s.flat.take (MAGIC.length - seen.length))) ∨
    ∃ e s' b, greetLoop fuel seen s = .error e s' ∧ s.Advanced s' b ∧
      magicOf (seen ++ s.flat) s.source.ending = .error e.errorClass := by
  have hle : seen.length ≤ MAGIC.length := hseen.length_le
  induction fuel generalizing seen s with
  | zero =>
      obtain rfl : seen = MAGIC := hseen.eq_of_length (Nat.le_antisymm hle hfuel)
      refine .inl ⟨List.prefix_append .., s, rfl, ?_⟩
      rw [Nat.sub_self]
      exact .refl s
  | succ fuel ih =>
      rw [greetLoop]
      split
      · next hlt =>
        rcases Socket.recv_spec (Nat.sub_pos_of_lt hlt) hopen with
          ⟨piece, s₁, hrecv, hne, hlen, hadv⟩ | ⟨hflat, hend, s₁, hrecv, hadv⟩ |
          ⟨hflat, hend, hrecv⟩
        · have hpos := List.length_pos_iff.mpr hne
          have hshort : (seen ++ piece).length ≤ MAGIC.length := by
            rw [List.length_append]
            omega
          have hsplit : seen ++ s.flat = seen ++ piece ++ s₁.flat := by
            rw [hadv.flat, List.append_assoc]
          rw [bind_of_ok (recv_of_ok hrecv), if_neg hne, hsplit]
          split
          · next hpre =>
            exact .inr ⟨_, s₁, piece, rfl, hadv, magicOf_of_other hpre hshort _⟩
          · next hpre =>
            rcases ih (seen ++ piece) (hadv.closed.trans hopen) (not_not.mp hpre)
              (by rw [List.length_append]; omega) hshort with
              ⟨hmagic, s', hrun, hadv'⟩ | ⟨e, s', b, hrun, hadv', hclass⟩
            · have htake : s.flat.take (MAGIC.length - seen.length) =
                  piece ++ s₁.flat.take (MAGIC.length - (seen ++ piece).length) := by
                rw [hadv.flat, List.take_append, List.take_of_length_le hlen,
                  List.length_append, Nat.sub_sub]
              exact .inl ⟨hmagic, s', hrun, htake ▸ hadv.trans hadv'⟩
            · rw [hadv.ending] at hclass
              exact .inr ⟨e, s', piece ++ b, hrun, hadv.trans hadv', hclass⟩
        · rw [bind_of_ok (recv_of_ok hrecv), if_pos rfl, hflat, List.append_nil,
            magicOf_of_begun hseen hlt, hend, magicCut]
          right
          split
          · next h => exact ⟨_, s₁, [], rfl, hadv, rfl⟩
          · next h => exact ⟨_, s₁, [], rfl, hadv, rfl⟩
        · rw [bind_of_error (recv_of_error hrecv), hflat, List.append_nil,
            magicOf_of_begun hseen hlt, hend]
          exact .inr ⟨_, s, [], rfl, .refl s, rfl⟩
      · next hge =>
        obtain rfl : seen = MAGIC := hseen.eq_of_length
          (Nat.le_antisymm hle (Nat.not_lt.mp hge))
        refine .inl ⟨List.prefix_append .., s, rfl, ?_⟩
        rw [Nat.sub_self]
        exact .refl s

theorem sendall_of_ok {what : String} {s : Socket} (hopen : s.closed = false)
    (hsends : s.sends ≠ 0) (bytes : Bytes) : sendall what bytes s = .ok () (s.wrote bytes) := by
  simp only [sendall, EStateM.adaptExcept, Socket.sendall_ok hopen hsends]

theorem sendall_of_error (what : String) {s : Socket} (h : s.closed = true ∨ s.sends = 0)
    (bytes : Bytes) : ∃ message, sendall what bytes s = .error (.ioError message) s := by
  obtain ⟨why, hwhy⟩ := Socket.sendall_error h bytes
  simp only [sendall, EStateM.adaptExcept, hwhy]
  exact ⟨_, rfl⟩

/-- A greeting that cannot be sent changes nothing. -/
theorem greet_of_unsent {s : Socket} (h : s.closed = true ∨ s.sends = 0) :
    ∃ message, greet s = .error (.ioError message) s := by
  obtain ⟨message, hsend⟩ := sendall_of_error "the greeting" h GREETING
  exact ⟨message, bind_of_error hsend _⟩

/-- A greeting that is accepted is all there. -/
theorem length_of_greetingOf {flat : Bytes} {ending : Ending} {version : ℕ × ℕ}
    (h : greetingOf flat ending = .ok version) : 6 ≤ flat.length := by
  by_contra hshort
  have hreceived : received 2 "the greeting's version" (flat.drop 4) ending = .error _ :=
    received_of_lt (by rw [List.length_drop]; omega)
  rw [greetingOf, hreceived] at h
  cases hmagic : magicOf flat ending with
  | error c =>
      rw [hmagic] at h
      cases h
  | ok _ =>
      rw [hmagic] at h
      cases h

/-- A greeting takes the six bytes of the peer's, or fails as the flat stream says. -/
theorem greet_spec {s : Socket} (hopen : s.closed = false) (hsends : s.sends ≠ 0) :
    (∃ version s', greet s = .ok version s' ∧ (s.wrote GREETING).Advanced s' (s.flat.take 6) ∧
      greetingOf s.flat s.source.ending = .ok version) ∨
    ∃ e s' b, greet s = .error e s' ∧ (s.wrote GREETING).Advanced s' b ∧
      greetingOf s.flat s.source.ending = .error e.errorClass := by
  rw [greet]
  rw [bind_of_ok (sendall_of_ok hopen hsends _)]
  rcases greetLoop_spec (s := s.wrote GREETING) MAGIC.length [] hopen
    (List.nil_prefix ..) (Nat.le_refl _) with
    ⟨hmagic, s₁, hrun, hadv⟩ | ⟨e, s₁, b, hrun, hadv, hclass⟩
  · obtain ⟨s₂, hadv₂, hrun₂⟩ := receive_spec 2 "the greeting's version"
      (hadv.closed.trans hopen)
    have hflat : s₁.flat = s.flat.drop 4 := by
      have hlen : (s.flat.take 4).length = 4 := by
        rw [List.length_take]
        exact Nat.min_eq_left hmagic.length_le
      exact hadv.flat_eq_drop.trans (congrArg (s.flat.drop ·) hlen)
    have hsix : s.flat.take 6 = s.flat.take 4 ++ s₁.flat.take 2 := by
      rw [hflat, ← List.take_add]
    have hadv₆ : (s.wrote GREETING).Advanced s₂ (s.flat.take 6) := hsix ▸ hadv.trans hadv₂
    have hend : s₁.source.ending = s.source.ending := hadv.ending
    rw [hflat, hend] at hrun₂
    have hok : magicOf s.flat s.source.ending = .ok () := magicOf_of_prefix hmagic _
    rw [bind_of_ok hrun, greetingOf, hok]
    rcases hrec : received 2 "the greeting's version" (s.flat.drop 4) s.source.ending with
      e | version
    · rw [hrec] at hrun₂
      rw [bind_of_error hrun₂]
      exact .inr ⟨e, s₂, _, rfl, hadv₆, rfl⟩
    · rw [hrec] at hrun₂
      rw [bind_of_ok hrun₂]
      dsimp only
      split
      · exact .inr ⟨_, s₂, _, rfl, hadv₆, rfl⟩
      · exact .inl ⟨_, s₂, rfl, hadv₆, rfl⟩
  · rw [bind_of_error hrun]
    refine .inr ⟨e, s₁, b, rfl, hadv, ?_⟩
    have herr : magicOf s.flat s.source.ending = .error e.errorClass := hclass
    rw [greetingOf, herr]

/-! ### Sending a frame -/

theorem send_of_le {kind : ℕ} {body : Bytes} {s : Socket} (hopen : s.closed = false)
    (hsends : s.sends ≠ 0) (hbody : body.length ≤ CEILING) :
    send kind body s = .ok () (s.wrote (frame kind body)) := by
  rw [send, if_neg (Nat.not_lt.mpr hbody)]
  exact sendall_of_ok hopen hsends _

/-- A frame that was sent was within the ceiling and is all that was written. -/
theorem send_eq_ok {kind : ℕ} {body : Bytes} {s s' : Socket} (h : send kind body s = .ok () s') :
    body.length ≤ CEILING ∧ s' = s.wrote (frame kind body) := by
  rw [send] at h
  split at h
  · cases h
  next hle =>
  refine ⟨Nat.not_lt.mp hle, ?_⟩
  by_cases hready : s.closed = true ∨ s.sends = 0
  · obtain ⟨message, hsend⟩ := sendall_of_error "a frame" hready (frame kind body)
    cases hsend.symm.trans h
  · simp only [not_or, Bool.not_eq_true] at hready
    rw [sendall_of_ok hready.1 hready.2] at h
    exact (EStateM.Result.ok.inj h).2.symm

/-- A frame that is not sent leaves the socket as it was. -/
theorem send_of_unsent {kind : ℕ} {body : Bytes} {s : Socket}
    (h : CEILING < body.length ∨ s.closed = true ∨ s.sends = 0) :
    ∃ e, send kind body s = .error e s := by
  rw [send]
  split
  · exact ⟨_, rfl⟩
  · next hle =>
    obtain ⟨message, hsend⟩ := sendall_of_error "a frame" (h.resolve_left hle)
      (frame kind body)
    exact ⟨_, hsend⟩

/-! ### One frame -/

/-- What reading one frame comes to on a flat stream, and how many bytes it takes. -/
def frameOf (flat : Bytes) (ending : Ending) : Except Raised (Option (ℕ × Bytes)) × ℕ :=
  match flat with
  | [] =>
      match ending with
      | .eof => (.ok none, 0)
      | .reset => (.error (cutShort 1 "a frame header" 0 .reset), 0)
  | kind :: rest =>
      match received 4 "a frame length" rest ending with
      | .error e => (.error e, flat.length)
      | .ok raw =>
          if CEILING < ofBytes raw then
            (.error (.tooLarge (ofBytes raw) CEILING), 5)
          else if kind.toNat ∉ FROM_NODE then
            (.error (.unknownFrame kind.toNat), 5)
          else
            match received (ofBytes raw) "a frame body" (rest.drop 4) ending with
            | .error e => (.error e, flat.length)
            | .ok body => (.ok (some (kind.toNat, body)), 5 + ofBytes raw)

/-- Reading a frame takes as many bytes as the flat stream says, and comes to what it says. -/
theorem read_spec {s : Socket} (hopen : s.closed = false) :
    ∃ s', s.Advanced s' (s.flat.take (frameOf s.flat s.source.ending).2) ∧
      read s = settle (frameOf s.flat s.source.ending).1 s' := by
  rw [read]
  rcases Socket.recv_spec (n := 1) Nat.one_pos hopen with
    ⟨piece, s₁, hrecv, hne, hlen, hadv⟩ | ⟨hflat, hend, s₁, hrecv, hadv⟩ | ⟨hflat, hend, hrecv⟩
  · obtain ⟨kind, rfl⟩ : ∃ kind, piece = [kind] :=
      List.length_eq_one_iff.mp (Nat.le_antisymm hlen (List.length_pos_iff.mpr hne))
    have hflat : s.flat = kind :: s₁.flat := hadv.flat
    rw [bind_of_ok (recv_of_ok hrecv), hflat]
    obtain ⟨s₂, hadv₂, hrun₂⟩ := receive_spec 4 "a frame length"
      (hadv.closed.trans hopen)
    rw [hadv.ending] at hrun₂
    simp only [frameOf]
    rcases hraw : received 4 "a frame length" s₁.flat s.source.ending with e | raw
    · have hall : s₁.flat.length < 4 := by
        by_contra hnot
        rw [received_of_le (Nat.not_lt.mp hnot)] at hraw
        cases hraw
      rw [hraw] at hrun₂
      rw [bind_of_error hrun₂]
      refine ⟨s₂, ?_, rfl⟩
      rw [List.take_of_length_le (Nat.le_of_lt hall)] at hadv₂
      simpa using hadv.trans hadv₂
    · rw [hraw] at hrun₂
      rw [bind_of_ok hrun₂]
      dsimp only
      split
      · exact ⟨s₂, hadv.trans hadv₂, rfl⟩
      split
      · exact ⟨s₂, hadv.trans hadv₂, rfl⟩
      have hlen4 : 4 ≤ s₁.flat.length := by
        by_contra hnot
        rw [received_of_lt (Nat.not_le.mp hnot)] at hraw
        cases hraw
      obtain ⟨s₃, hadv₃, hrun₃⟩ := receive_spec (ofBytes raw) "a frame body"
        (hadv₂.closed.trans (hadv.closed.trans hopen))
      have hflat₂ : s₂.flat = s₁.flat.drop 4 := by
        rw [hadv₂.flat_eq_drop, List.length_take, Nat.min_eq_left hlen4]
      rw [hflat₂, hadv₂.ending, hadv.ending] at hrun₃
      rw [hflat₂] at hadv₃
      rcases hbody : received (ofBytes raw) "a frame body" (s₁.flat.drop 4) s.source.ending with
        e | body
      · have hall : (s₁.flat.drop 4).length < ofBytes raw := by
          by_contra hnot
          rw [received_of_le (Nat.not_lt.mp hnot)] at hbody
          cases hbody
        rw [hbody] at hrun₃
        rw [bind_of_error hrun₃]
        refine ⟨s₃, ?_, rfl⟩
        rw [List.take_of_length_le (Nat.le_of_lt hall)] at hadv₃
        simpa using hadv.trans (hadv₂.trans hadv₃)
      · rw [hbody] at hrun₃
        rw [bind_of_ok hrun₃]
        refine ⟨s₃, ?_, rfl⟩
        have htake : (kind :: s₁.flat).take (5 + ofBytes raw) =
            [kind] ++ (s₁.flat.take 4 ++ (s₁.flat.drop 4).take (ofBytes raw)) := by
          rw [← List.take_add, show 5 + ofBytes raw = 4 + ofBytes raw + 1 by omega]
          rfl
        rw [htake]
        exact hadv.trans (hadv₂.trans hadv₃)
  · rw [bind_of_ok (recv_of_ok hrecv), hflat, hend]
    exact ⟨s₁, hadv, rfl⟩
  · rw [bind_of_error (recv_of_error hrecv), hflat, hend]
    exact ⟨s, .refl s, rfl⟩

theorem cutShort_isTessari (width : ℕ) (what : String) (got : ℕ) (ending : Ending) :
    (cutShort width what got ending).isTessari = true := by
  cases ending <;> rfl

/-- Whatever goes wrong with a frame is an error of this client. -/
theorem frameOf_isTessari {flat : Bytes} {ending : Ending} {e : Raised} {n : ℕ}
    (h : frameOf flat ending = (.error e, n)) : e.isTessari = true := by
  have hreceived : ∀ {width : ℕ} {what : String} {t : Bytes} {e : Raised},
      received width what t ending = .error e → e.isTessari = true := by
    intro width what t e ht
    rw [received] at ht
    split at ht
    · cases ht
    · exact Except.error.inj ht ▸ cutShort_isTessari ..
  rcases flat with - | ⟨byte, rest⟩
  · cases ending with
    | eof => exact nomatch h
    | reset => exact Except.error.inj (Prod.mk.inj h).1 ▸ cutShort_isTessari ..
  simp only [frameOf] at h
  split at h
  · next hraw => exact Except.error.inj (Prod.mk.inj h).1 ▸ hreceived hraw
  split at h
  · exact Except.error.inj (Prod.mk.inj h).1 ▸ rfl
  split at h
  · exact Except.error.inj (Prod.mk.inj h).1 ▸ rfl
  split at h
  · next hbody => exact Except.error.inj (Prod.mk.inj h).1 ▸ hreceived hbody
  · cases h

/-- A kind a node may send is a byte. -/
theorem lt_of_mem_fromNode {kind : ℕ} (h : kind ∈ FROM_NODE) : kind < 256 := by
  revert kind
  decide

theorem ofBytes_length_lt {n : ℕ} (h : n ≤ CEILING) : n < 256 ^ 4 := by
  rw [CEILING] at h
  omega

/-- A whole frame reads as itself, whatever follows. -/
theorem frameOf_frame {kind : ℕ} {body : Bytes} (hkind : kind ∈ FROM_NODE)
    (hbody : body.length ≤ CEILING) (rest : Bytes) (ending : Ending) :
    frameOf (frame kind body ++ rest) ending =
      (.ok (some (kind, body)), (frame kind body).length) := by
  have hraw : received 4 "a frame length" (toBytes 4 body.length ++ body ++ rest) ending =
      .ok (toBytes 4 body.length) := by
    rw [received_of_le (by simp), List.append_assoc, List.take_left' (length_toBytes ..)]
  have hdrop : (toBytes 4 body.length ++ body ++ rest).drop 4 = body ++ rest := by
    rw [List.append_assoc, List.drop_left' (length_toBytes ..)]
  have hrest : received body.length "a frame body" (body ++ rest) ending = .ok body := by
    rw [received_of_le (by simp), List.take_left]
  have hlen : ofBytes (toBytes 4 body.length) = body.length :=
    ofBytes_toBytes (ofBytes_length_lt hbody)
  have hbyte : (UInt8.ofNat kind).toNat = kind := Utf8.toNat_ofNat (lt_of_mem_fromNode hkind)
  rw [frame, List.cons_append]
  simp only [frameOf, hraw, hdrop, hlen, hrest, hbyte, hkind, not_true, if_false,
    Nat.not_lt.mpr hbody]
  simp
  omega

theorem received_eq_ok {width : ℕ} {what : String} {flat raw : Bytes} {ending : Ending} :
    received width what flat ending = .ok raw ↔
      raw.length = width ∧ flat.take width = raw ∧ width ≤ flat.length := by
  rcases Nat.lt_or_ge flat.length width with h | h
  · rw [received_of_lt h]
    simp only [reduceCtorEq, false_iff]
    omega
  · rw [received_of_le h, Except.ok.injEq]
    constructor
    · rintro rfl
      exact ⟨by rw [List.length_take, Nat.min_eq_left h], rfl, h⟩
    · exact fun hraw => hraw.2.1

/-- A frame that was read is what the stream began with. -/
theorem frameOf_eq_some {flat : Bytes} {ending : Ending} {kind : ℕ} {body : Bytes} {n : ℕ}
    (h : frameOf flat ending = (.ok (some (kind, body)), n)) :
    kind ∈ FROM_NODE ∧ body.length ≤ CEILING ∧ flat.take n = frame kind body := by
  rcases flat with - | ⟨byte, rest⟩
  · cases ending <;> exact nomatch h
  simp only [frameOf] at h
  split at h
  · cases h
  next raw hraw =>
  split at h
  · cases h
  next hceiling =>
  split at h
  · cases h
  next hkind =>
  split at h
  · cases h
  next body' hbody =>
  simp only [Prod.mk.injEq, Except.ok.injEq, Option.some.injEq] at h
  obtain ⟨⟨rfl, rfl⟩, rfl⟩ := h
  obtain ⟨hlen, htake, -⟩ := received_eq_ok.mp hraw
  obtain ⟨hblen, hbtake, -⟩ := received_eq_ok.mp hbody
  refine ⟨not_not.mp hkind, hblen ▸ Nat.not_lt.mp hceiling, ?_⟩
  have hraw' : toBytes 4 (ofBytes raw) = raw := by
    rw [← hlen, toBytes_ofBytes]
  rw [frame, hblen, hraw', UInt8.ofNat_toNat, ← hbtake, ← htake, ← List.take_add,
    show 5 + ofBytes (rest.take 4) = 4 + ofBytes (rest.take 4) + 1 by omega]
  rfl

/-- A stream that ends inside a frame is truncated, at whatever byte. -/
theorem frameOf_cut {kind : ℕ} {body p q : Bytes} (hkind : kind ∈ FROM_NODE)
    (hbody : body.length ≤ CEILING) (hframe : frame kind body = p ++ q) (hp : p ≠ [])
    (hq : q ≠ []) : ∃ message, frameOf p .eof = (.error (.truncated message), p.length) := by
  rcases p with - | ⟨byte, rest⟩
  · exact absurd rfl hp
  rw [frame, List.cons_append] at hframe
  obtain ⟨rfl, hrest⟩ := List.cons.inj hframe
  have hqlen := List.length_pos_iff.mpr hq
  have hsum := congrArg List.length hrest
  rw [List.length_append, List.length_append, length_toBytes] at hsum
  simp only [frameOf]
  rcases Nat.lt_or_ge rest.length 4 with hlt | hge
  · rw [received_of_lt hlt]
    exact ⟨_, rfl⟩
  · -- The header is whole, so the length in it is the length of the whole body.
    have htake : rest.take 4 = toBytes 4 body.length := by
      have htake₄ := congrArg (List.take 4) hrest
      rw [List.take_left' (length_toBytes ..), List.take_append_of_le_length hge] at htake₄
      exact htake₄.symm
    have hlen : ofBytes (rest.take 4) = body.length := by
      rw [htake, ofBytes_toBytes (ofBytes_length_lt hbody)]
    have hbyte : (UInt8.ofNat kind).toNat = kind :=
      Utf8.toNat_ofNat (lt_of_mem_fromNode hkind)
    have hshort : received body.length "a frame body" (rest.drop 4) .eof =
        .error (cutShort body.length "a frame body" (rest.drop 4).length .eof) :=
      received_of_lt (by rw [List.length_drop]; omega)
    rw [received_of_le hge]
    simp only [hlen, hbyte, hkind, not_true, if_false, Nat.not_lt.mpr hbody, hshort]
    exact ⟨_, rfl⟩

/-- A length above the ceiling is refused on the five bytes of the header. -/
theorem frameOf_tooLarge {byte : UInt8} {length rest : Bytes} (hlen : length.length = 4)
    (hbig : CEILING < ofBytes length) (ending : Ending) :
    frameOf (byte :: (length ++ rest)) ending =
      (.error (.tooLarge (ofBytes length) CEILING), 5) := by
  have hraw : received 4 "a frame length" (length ++ rest) ending = .ok length := by
    rw [received_of_le (by simp [hlen]), List.take_left' hlen]
  simp only [frameOf, hraw, hbig, if_true]

end Frames

end TessariDB
