import TessariDB.Errors
import TessariDB.BigEndian

/-!
# The Value-Layer Primitives

`Writer` and `Reader` of `_bytes.py`. A writer checks the range of every fixed-width
integer before it narrows it; a reader checks that the bytes are there. The three number
conventions stand side by side: `u64` is plain big-endian, `i64` is two's complement with
the first byte XORed with `0x80`, `i128` is plain two's complement.

A Python `int` is an unbounded `ℤ` on the way out. On the way in the unsigned readers
return the `ℕ` that the bytes spell.

## Main results

* Each reader inverts its writer (`Reader.u32_inverts`, …, `Reader.varbytes_inverts`).
* Each reader accepts nothing but its writer's spelling (`Reader.u32_spells`, …,
  `Reader.varbytes_spells`), so every primitive has one spelling.
-/

namespace TessariDB

open ByteCodec Utf8 BigEndian

def INT64_MIN : ℤ := -2 ^ 63
def INT64_MAX : ℤ := 2 ^ 63 - 1
def INT128_MIN : ℤ := -2 ^ 127
def INT128_MAX : ℤ := 2 ^ 127 - 1
def UINT32_MAX : ℤ := 2 ^ 32 - 1
def UINT64_MAX : ℤ := 2 ^ 64 - 1
def NANOS_PER_SECOND : ℤ := 1000000000

/-- A double, carried as its IEEE-754 bits. -/
abbrev Double := UInt64

/-- What a sequence of writes to one `Writer` came to. -/
abbrev Writer := Put Raised

/-- A read from one `Reader`. -/
abbrev Reader := Get ProtocolError

/-- The range check at every fixed-width write. -/
def check (value low high : ℤ) (what : String) : Except Raised ℤ :=
  if value < low ∨ high < value then
    .error (.protocolError ⟨s!"{what} does not fit: {value}"⟩)
  else
    .ok value

theorem check_eq_ok {value low high z : ℤ} {what : String} :
    check value low high what = .ok z ↔ (low ≤ value ∧ value ≤ high) ∧ z = value := by
  rw [check]
  split
  · simp; omega
  · simp [eq_comm]; omega

/-- A byte as Python's `#04x` prints it. -/
def hexByte (byte : UInt8) : String :=
  let digits := String.ofList (Nat.toDigits 16 byte.toNat)
  if byte.toNat < 16 then "0x0" ++ digits else "0x" ++ digits

/-! ### Writing -/

namespace Writer

def u8 (value : ℤ) : Writer :=
  (check value 0 255 "a u8").map fun v => toBytes 1 v.toNat

def u32 (value : ℤ) : Writer :=
  (check value 0 UINT32_MAX "a u32").map fun v => toBytes 4 v.toNat

/-- §2.1, the frame layer: plain big-endian. -/
def u64 (value : ℤ) : Writer :=
  (check value 0 UINT64_MAX "a u64").map fun v => toBytes 8 v.toNat

/-- The first byte of a string, XORed with `0x80`. -/
def flipSign : Bytes → Bytes
  | [] => []
  | first :: rest => (first ^^^ 0x80) :: rest

/-- §2.2, the value layer: two's complement, then the first byte XORed with `0x80`. -/
def i64 (value : ℤ) : Writer :=
  (check value INT64_MIN INT64_MAX "an i64").map fun v => flipSign (toBytesSigned 8 v)

/-- Plain, and not inverted. -/
def i128 (value : ℤ) : Writer :=
  (check value INT128_MIN INT128_MAX "an i128").map fun v => toBytesSigned 16 v

def nanos (value : ℤ) : Writer :=
  (check value 0 (NANOS_PER_SECOND - 1) "a nanosecond count").map fun v =>
    toBytes 4 v.toNat

/-- The IEEE-754 bits, plain big-endian. -/
def double (value : Double) : Writer := .ok (toBytes 8 value.toNat)

def fixed (raw : Bytes) (width : ℕ) (what : String) : Writer :=
  let got := raw.length
  if got ≠ width then
    .error (.protocolError ⟨s!"{what} is {width} bytes, got {got}"⟩)
  else
    .ok raw

def lenbytes (raw : Bytes) : Writer := u32 raw.length ++ .ok raw

/-- `value.encode("utf-8")`. -/
def encodeUtf8 (value : Str) : Except Raised Bytes :=
  match Utf8.encode value with
  | some raw => .ok raw
  | none => .error .unicodeEncodeError

def text (value : Str) : Writer :=
  match encodeUtf8 value with
  | .ok raw => lenbytes raw
  | .error e => .error e

/-- The escaped form of one byte. -/
def escape (byte : UInt8) : Bytes := if byte = 0x00 then [0x00, 0xFF] else [byte]

/-- `0x00` becomes `0x00 0xFF`; then the terminator `0x00 0x01`. -/
def varbytes (raw : Bytes) : Writer := .ok (raw.flatMap escape ++ [0x00, 0x01])

end Writer

/-! ### Reading -/

namespace Reader

def take (width : ℕ) (what : String) : Reader Bytes := fun s =>
  let remaining := s.length
  if remaining < width then
    .error ⟨s!"{what} wanted {width} bytes, {remaining} left"⟩
  else
    .ok (s.take width, s.drop width)

def u8 (what : String) : Reader ℕ := do
  let raw ← take 1 what
  return (raw.headD 0).toNat

def u32 (what : String) : Reader ℕ := do
  let raw ← take 4 what
  return ofBytes raw

/-- §2.1, plain. -/
def u64 (what : String) : Reader ℕ := do
  let raw ← take 8 what
  return ofBytes raw

def i64 (what : String) : Reader ℤ := do
  let raw ← take 8 what
  return ofBytesSigned (Writer.flipSign raw)

def i128 (what : String) : Reader ℤ := do
  let raw ← take 16 what
  return ofBytesSigned raw

def nanos (what : String) : Reader ℕ := do
  let value ← u32 what
  if NANOS_PER_SECOND ≤ value then
    Get.fail ⟨s!"{what} is outside the sub-second range: {value}"⟩
  else
    return value

def double (what : String) : Reader Double := do
  let raw ← take 8 what
  return UInt64.ofNat (ofBytes raw)

def fixed (width : ℕ) (what : String) : Reader Bytes := take width what

def lenbytes (what : String) : Reader Bytes := do
  let width ← u32 s!"{what} length"
  take width what

/-- `raw.decode("utf-8")`, as a read that consumes nothing. -/
def decodeUtf8 (raw : Bytes) (what : String) : Reader Str :=
  match Utf8.decode raw with
  | some value => return value
  | none => Get.fail ⟨s!"{what} is not UTF-8"⟩

def text (what : String) : Reader Str := do
  let raw ← lenbytes what
  decodeUtf8 raw what

/-- The loop of `varbytes`, with what it has collected so far. -/
def varbytesLoop (what : String) (out : Bytes) : Reader Bytes
  | [] => .error ⟨s!"{what} ended without its terminator"⟩
  | byte :: s =>
      if byte ≠ 0x00 then
        varbytesLoop what (out ++ [byte]) s
      else
        match s with
        | [] => .error ⟨s!"{what} wanted 1 bytes, 0 left"⟩
        | marker :: s =>
            if marker = 0x01 then
              .ok (out, s)
            else if marker = 0xFF then
              varbytesLoop what (out ++ [0x00]) s
            else
              let escaped := hexByte marker
              .error ⟨s!"{what} carries an invalid escape 0x00 {escaped}"⟩

def varbytes (what : String) : Reader Bytes := varbytesLoop what []

end Reader

/-! ### What the writers write -/

/-- A checked write succeeds exactly in its range. -/
theorem map_check_eq_ok {value low high : ℤ} {what : String} {f : ℤ → Bytes} {b : Bytes} :
    (check value low high what).map f = .ok b ↔ (low ≤ value ∧ value ≤ high) ∧ b = f value := by
  rcases h : check value low high what with e | z
  · have hnot : ¬(low ≤ value ∧ value ≤ high) := by
      intro hin
      exact nomatch h.symm.trans (check_eq_ok.mpr ⟨hin, rfl⟩)
    simp [Except.map, hnot]
  · obtain ⟨hin, rfl⟩ := check_eq_ok.mp h
    simp [Except.map, hin, eq_comm]

namespace Writer

theorem u8_eq_ok {v : ℤ} {b : Bytes} :
    u8 v = .ok b ↔ (0 ≤ v ∧ v ≤ 255) ∧ b = toBytes 1 v.toNat :=
  map_check_eq_ok

theorem u32_eq_ok {v : ℤ} {b : Bytes} :
    u32 v = .ok b ↔ (0 ≤ v ∧ v ≤ UINT32_MAX) ∧ b = toBytes 4 v.toNat :=
  map_check_eq_ok

theorem u64_eq_ok {v : ℤ} {b : Bytes} :
    u64 v = .ok b ↔ (0 ≤ v ∧ v ≤ UINT64_MAX) ∧ b = toBytes 8 v.toNat :=
  map_check_eq_ok

theorem i64_eq_ok {v : ℤ} {b : Bytes} :
    i64 v = .ok b ↔ (INT64_MIN ≤ v ∧ v ≤ INT64_MAX) ∧ b = flipSign (toBytesSigned 8 v) :=
  map_check_eq_ok

theorem i128_eq_ok {v : ℤ} {b : Bytes} :
    i128 v = .ok b ↔ (INT128_MIN ≤ v ∧ v ≤ INT128_MAX) ∧ b = toBytesSigned 16 v :=
  map_check_eq_ok

theorem nanos_eq_ok {v : ℤ} {b : Bytes} :
    nanos v = .ok b ↔ (0 ≤ v ∧ v ≤ NANOS_PER_SECOND - 1) ∧ b = toBytes 4 v.toNat :=
  map_check_eq_ok

theorem fixed_eq_ok {raw b : Bytes} {width : ℕ} {what : String} :
    fixed raw width what = .ok b ↔ raw.length = width ∧ b = raw := by
  unfold fixed
  dsimp only
  split
  · simp_all
  · simp_all [eq_comm]

theorem lenbytes_eq_ok {raw b : Bytes} :
    lenbytes raw = .ok b ↔ (raw.length : ℤ) ≤ UINT32_MAX ∧ b = toBytes 4 raw.length ++ raw := by
  simp only [lenbytes, Put.append_eq_ok, u32_eq_ok]
  constructor
  · rintro ⟨b₁, b₂, ⟨⟨-, h⟩, rfl⟩, h₂, rfl⟩
    exact ⟨h, by rw [← Except.ok.inj h₂]; rfl⟩
  · rintro ⟨h, rfl⟩
    exact ⟨_, _, ⟨⟨by omega, h⟩, rfl⟩, rfl, rfl⟩

theorem text_eq_ok {t : Str} {b : Bytes} :
    text t = .ok b ↔ ∃ raw, Utf8.encode t = some raw ∧ lenbytes raw = .ok b := by
  rw [text, encodeUtf8]
  rcases Utf8.encode t with - | raw <;> simp

/-- A byte that is a byte is written as itself. -/
theorem u8_ofNat {n : ℕ} (h : n < 256) : u8 n = .ok [UInt8.ofNat n] :=
  u8_eq_ok.mpr ⟨by omega, rfl⟩

@[simp] theorem length_flipSign (b : Bytes) : (flipSign b).length = b.length := by
  cases b <;> rfl

@[simp] theorem flipSign_flipSign (b : Bytes) : flipSign (flipSign b) = b := by
  rcases b with - | ⟨x, b⟩
  · rfl
  · rw [flipSign, flipSign, UInt8.xor_assoc, UInt8.xor_self, UInt8.xor_zero]

end Writer

/-! ### What the readers read -/

namespace Reader

theorem take_eq_ok {width : ℕ} {what : String} {s s' b : Bytes} :
    take width what s = .ok (b, s') ↔ b.length = width ∧ s = b ++ s' := by
  unfold take
  dsimp only
  split
  · next h =>
    simp only [reduceCtorEq, false_iff, not_and]
    rintro rfl rfl
    simp only [List.length_append] at h
    omega
  · next h =>
    simp only [Except.ok.injEq, Prod.mk.injEq]
    constructor
    · rintro ⟨rfl, rfl⟩
      exact ⟨by rw [List.length_take]; omega, (List.take_append_drop ..).symm⟩
    · rintro ⟨rfl, rfl⟩
      simp

theorem take_reads {b : Bytes} {width : ℕ} {what : String} (h : b.length = width) :
    (take width what).Reads b b :=
  fun _ => take_eq_ok.mpr ⟨h, rfl⟩

instance (width : ℕ) (what : String) : Local (take width what) where
  reads_of_ok := by
    intro s s' b h
    obtain ⟨hlen, rfl⟩ := take_eq_ok.mp h
    exact ⟨b, rfl, take_reads hlen⟩

instance (what : String) : Local (u8 what) := by rw [u8]; infer_instance
instance (what : String) : Local (u32 what) := by rw [u32]; infer_instance
instance (what : String) : Local (u64 what) := by rw [u64]; infer_instance
instance (what : String) : Local (i64 what) := by rw [i64]; infer_instance
instance (what : String) : Local (i128 what) := by rw [i128]; infer_instance
instance (what : String) : Local (nanos what) := by rw [nanos]; infer_instance
instance (what : String) : Local (double what) := by rw [double]; infer_instance
instance (width : ℕ) (what : String) : Local (fixed width what) := by
  rw [fixed]; infer_instance
instance (what : String) : Local (lenbytes what) := by rw [lenbytes]; infer_instance
instance (raw : Bytes) (what : String) : Local (decodeUtf8 raw what) := by
  rw [decodeUtf8]; split <;> infer_instance
instance (what : String) : Local (text what) := by rw [text]; infer_instance

/-- Reading a fixed number of bytes and converting them. -/
theorem take_map_eq_ok {α : Type} {width : ℕ} {what : String} {f : Bytes → α}
    {s s' : Bytes} {a : α} :
    (take width what >>= fun raw => (pure (f raw) : Reader α)) s = .ok (a, s') ↔
      ∃ raw, raw.length = width ∧ s = raw ++ s' ∧ a = f raw := by
  rw [Get.bind_eq_ok]
  constructor
  · rintro ⟨raw, s₁, htake, hpure⟩
    obtain ⟨hlen, rfl⟩ := take_eq_ok.mp htake
    obtain ⟨rfl, rfl⟩ := Get.pure_eq_ok.mp hpure
    exact ⟨raw, hlen, rfl, rfl⟩
  · rintro ⟨raw, hlen, rfl, rfl⟩
    exact ⟨raw, s', take_eq_ok.mpr ⟨hlen, rfl⟩, rfl⟩

theorem u8_eq_ok {what : String} {s s' : Bytes} {n : ℕ} :
    u8 what s = .ok (n, s') ↔ ∃ x : UInt8, s = x :: s' ∧ n = x.toNat := by
  refine take_map_eq_ok.trans ⟨?_, ?_⟩
  · rintro ⟨raw, hlen, rfl, rfl⟩
    obtain ⟨x, rfl⟩ := List.length_eq_one_iff.mp hlen
    exact ⟨x, rfl, rfl⟩
  · rintro ⟨x, rfl, rfl⟩
    exact ⟨[x], rfl, rfl, rfl⟩

theorem u32_eq_ok {what : String} {s s' : Bytes} {n : ℕ} :
    u32 what s = .ok (n, s') ↔ ∃ raw, raw.length = 4 ∧ s = raw ++ s' ∧ n = ofBytes raw :=
  take_map_eq_ok

theorem lenbytes_eq_ok {what : String} {s s' raw : Bytes} :
    lenbytes what s = .ok (raw, s') ↔
      ∃ n, n.length = 4 ∧ ofBytes n = raw.length ∧ s = n ++ (raw ++ s') := by
  rw [lenbytes, Get.bind_eq_ok]
  constructor
  · rintro ⟨width, s₁, hw, ht⟩
    obtain ⟨n, hn, rfl, rfl⟩ := u32_eq_ok.mp hw
    obtain ⟨hlen, rfl⟩ := take_eq_ok.mp ht
    exact ⟨n, hn, hlen.symm, rfl⟩
  · rintro ⟨n, hn, hlen, rfl⟩
    exact ⟨_, _, u32_eq_ok.mpr ⟨n, hn, rfl, rfl⟩, take_eq_ok.mpr ⟨hlen.symm, rfl⟩⟩

theorem decodeUtf8_eq_ok {raw s s' : Bytes} {what : String} {t : Str} :
    decodeUtf8 raw what s = .ok (t, s') ↔ Utf8.encode t = some raw ∧ s = s' := by
  rw [← Utf8.decode_eq_some_iff]
  rw [decodeUtf8]
  rcases Utf8.decode raw with - | u <;> simp

/-! ### Each reader inverts its writer -/

/-- An unsigned field reads back as its value. -/
theorem take_ofBytes_reads {width n : ℕ} {what : String} (h : n < 256 ^ width) :
    (take width what >>= fun raw => (pure (ofBytes raw) : Reader ℕ)).Reads
      (toBytes width n) n :=
  fun _ => take_map_eq_ok.mpr ⟨_, length_toBytes .., rfl, (ofBytes_toBytes h).symm⟩

theorem u8_reads (what : String) {n : ℕ} (h : n < 256) :
    (u8 what).Reads [UInt8.ofNat n] n :=
  fun _ => u8_eq_ok.mpr ⟨_, rfl, (Utf8.toNat_ofNat h).symm⟩

theorem u8_inverts (what : String) (v : ℤ) : (u8 what).Inverts (Writer.u8 v) v.toNat := by
  intro b hb
  obtain ⟨hr, rfl⟩ := Writer.u8_eq_ok.mp hb
  exact u8_reads what (by omega)

theorem u32_inverts (what : String) (v : ℤ) :
    (u32 what).Inverts (Writer.u32 v) v.toNat := by
  intro b hb
  obtain ⟨hr, rfl⟩ := Writer.u32_eq_ok.mp hb
  rw [UINT32_MAX] at hr
  exact take_ofBytes_reads (by omega)

theorem u64_inverts (what : String) (v : ℤ) :
    (u64 what).Inverts (Writer.u64 v) v.toNat := by
  intro b hb
  obtain ⟨hr, rfl⟩ := Writer.u64_eq_ok.mp hb
  rw [UINT64_MAX] at hr
  exact take_ofBytes_reads (by omega)

theorem i64_inverts (what : String) (v : ℤ) : (i64 what).Inverts (Writer.i64 v) v := by
  intro b hb
  obtain ⟨hr, rfl⟩ := Writer.i64_eq_ok.mp hb
  rw [INT64_MIN, INT64_MAX] at hr
  refine fun _ => take_map_eq_ok.mpr ⟨_, by simp, rfl, ?_⟩
  rw [Writer.flipSign_flipSign, ofBytesSigned_toBytesSigned (by omega) (by omega)]

theorem i128_inverts (what : String) (v : ℤ) : (i128 what).Inverts (Writer.i128 v) v := by
  intro b hb
  obtain ⟨hr, rfl⟩ := Writer.i128_eq_ok.mp hb
  rw [INT128_MIN, INT128_MAX] at hr
  refine fun _ => take_map_eq_ok.mpr ⟨_, by simp, rfl, ?_⟩
  rw [ofBytesSigned_toBytesSigned (by omega) (by omega)]

theorem nanos_inverts (what : String) (v : ℤ) :
    (nanos what).Inverts (Writer.nanos v) v.toNat := by
  intro b hb
  obtain ⟨hr, rfl⟩ := Writer.nanos_eq_ok.mp hb
  have hread : (u32 what).Reads (toBytes 4 v.toNat) v.toNat :=
    take_ofBytes_reads (by rw [NANOS_PER_SECOND] at hr; omega)
  have hrange : ¬ NANOS_PER_SECOND ≤ (v.toNat : ℤ) := by omega
  intro s
  rw [nanos, Get.bind_of_ok (hread s), if_neg hrange]
  rfl

theorem double_inverts (what : String) (x : Double) :
    (double what).Inverts (Writer.double x) x := by
  intro b hb
  obtain rfl := Except.ok.inj hb
  refine fun _ => take_map_eq_ok.mpr ⟨_, by simp, rfl, ?_⟩
  have hx := x.toNat_lt
  rw [ofBytes_toBytes (by omega), UInt64.ofNat_toNat]

theorem fixed_inverts (what what' : String) (raw : Bytes) (width : ℕ) :
    (fixed width what).Inverts (Writer.fixed raw width what') raw := by
  intro b hb
  obtain ⟨hlen, rfl⟩ := Writer.fixed_eq_ok.mp hb
  exact take_reads hlen

theorem lenbytes_inverts (what : String) (raw : Bytes) :
    (lenbytes what).Inverts (Writer.lenbytes raw) raw := by
  intro b hb s
  obtain ⟨hlen, rfl⟩ := Writer.lenbytes_eq_ok.mp hb
  rw [UINT32_MAX] at hlen
  exact lenbytes_eq_ok.mpr
    ⟨_, length_toBytes .., ofBytes_toBytes (by omega), List.append_assoc ..⟩

theorem text_inverts (what : String) (t : Str) :
    (text what).Inverts (Writer.text t) t := by
  intro b hb
  obtain ⟨raw, ht, hraw⟩ := Writer.text_eq_ok.mp hb
  have hread := (lenbytes_inverts what raw b hraw).bind
    (f := fun raw => decodeUtf8 raw what) (c := []) (x := t)
    (fun _ => decodeUtf8_eq_ok.mpr ⟨ht, rfl⟩)
  rwa [List.append_nil] at hread

theorem varbytesLoop_escape (what : String) (out s : Bytes) (x : UInt8) :
    varbytesLoop what out (Writer.escape x ++ s) = varbytesLoop what (out ++ [x]) s := by
  by_cases hx : x = 0
  · subst hx
    simp [Writer.escape, varbytesLoop]
  · rw [Writer.escape, if_neg hx, List.singleton_append, varbytesLoop.eq_def]
    simp [hx]

theorem varbytesLoop_reads (what : String) (out raw : Bytes) :
    (varbytesLoop what out).Reads (raw.flatMap Writer.escape ++ [0x00, 0x01])
      (out ++ raw) := by
  intro s
  induction raw generalizing out with
  | nil => simp [varbytesLoop]
  | cons x raw ih =>
      have h := ih (out ++ [x])
      rw [List.append_assoc out] at h
      rw [List.flatMap_cons, List.append_assoc, List.append_assoc, varbytesLoop_escape,
        ← List.append_assoc]
      exact h

theorem varbytes_inverts (what : String) (raw : Bytes) :
    (varbytes what).Inverts (Writer.varbytes raw) raw := by
  intro b hb
  obtain rfl := Except.ok.inj hb
  exact varbytesLoop_reads what [] raw

/-! ### Each reader accepts only its writer's spelling -/

theorem u8_spells (what : String) : (u8 what).Spells fun n => Writer.u8 n := by
  intro s s' n h
  obtain ⟨x, rfl, rfl⟩ := u8_eq_ok.mp h
  exact ⟨_, Writer.u8_ofNat x.toNat_lt, by rw [UInt8.ofNat_toNat]; rfl⟩

theorem u32_spells (what : String) : (u32 what).Spells fun n => Writer.u32 n := by
  intro s s' n h
  obtain ⟨raw, hlen, rfl, rfl⟩ := u32_eq_ok.mp h
  have hlt := ofBytes_lt raw
  rw [hlen] at hlt
  refine ⟨raw, Writer.u32_eq_ok.mpr ⟨by rw [UINT32_MAX]; omega, ?_⟩, rfl⟩
  rw [Int.toNat_natCast, ← hlen, toBytes_ofBytes]

theorem i64_spells (what : String) : (i64 what).Spells Writer.i64 := by
  intro s s' v h
  obtain ⟨raw, hlen, rfl, rfl⟩ := take_map_eq_ok.mp h
  have hbounds := ofBytesSigned_bounds (Writer.flipSign raw)
  have hback := toBytesSigned_ofBytesSigned (Writer.flipSign raw)
  rw [Writer.length_flipSign, hlen] at hbounds hback
  refine ⟨raw, Writer.i64_eq_ok.mpr ⟨by rw [INT64_MIN, INT64_MAX]; omega, ?_⟩, rfl⟩
  rw [hback, Writer.flipSign_flipSign]

theorem i128_spells (what : String) : (i128 what).Spells Writer.i128 := by
  intro s s' v h
  obtain ⟨raw, hlen, rfl, rfl⟩ := take_map_eq_ok.mp h
  have hbounds := ofBytesSigned_bounds raw
  have hback := toBytesSigned_ofBytesSigned raw
  rw [hlen] at hbounds hback
  exact ⟨raw, Writer.i128_eq_ok.mpr ⟨by rw [INT128_MIN, INT128_MAX]; omega, hback.symm⟩,
    rfl⟩

theorem nanos_spells (what : String) : (nanos what).Spells fun n => Writer.nanos n := by
  intro s s' n h
  obtain ⟨v, s₁, hv, hrest⟩ := Get.bind_eq_ok.mp h
  obtain ⟨b, hb, rfl⟩ := u32_spells what _ _ _ hv
  obtain ⟨-, rfl⟩ := Writer.u32_eq_ok.mp hb
  split at hrest
  · cases hrest
  next hrange =>
  obtain ⟨rfl, rfl⟩ := Get.pure_eq_ok.mp hrest
  exact ⟨_, Writer.nanos_eq_ok.mpr ⟨by omega, rfl⟩, rfl⟩

theorem double_spells (what : String) : (double what).Spells Writer.double := by
  intro s s' x h
  obtain ⟨raw, hlen, rfl, rfl⟩ := take_map_eq_ok.mp h
  have hlt := ofBytes_lt raw
  rw [hlen] at hlt
  have hx : (UInt64.ofNat (ofBytes raw)).toNat = ofBytes raw := by
    rw [UInt64.toNat_ofNat']
    exact Nat.mod_eq_of_lt (by omega)
  refine ⟨raw, congrArg Except.ok ?_, rfl⟩
  rw [hx, ← hlen, toBytes_ofBytes]

theorem fixed_spells (what what' : String) (width : ℕ) :
    (fixed width what).Spells fun raw => Writer.fixed raw width what' := by
  intro s s' raw h
  obtain ⟨hlen, rfl⟩ := take_eq_ok.mp h
  exact ⟨raw, Writer.fixed_eq_ok.mpr ⟨hlen, rfl⟩, rfl⟩

theorem lenbytes_spells (what : String) : (lenbytes what).Spells Writer.lenbytes := by
  intro s s' raw h
  obtain ⟨n, hn, hlen, rfl⟩ := lenbytes_eq_ok.mp h
  have hlt := ofBytes_lt n
  rw [hn] at hlt
  refine ⟨n ++ raw, Writer.lenbytes_eq_ok.mpr ⟨by rw [UINT32_MAX]; omega, ?_⟩,
    (List.append_assoc ..).symm⟩
  rw [← hlen, ← hn, toBytes_ofBytes]

theorem text_spells (what : String) : (text what).Spells Writer.text := by
  intro s s' t h
  obtain ⟨raw, s₁, hraw, ht⟩ := Get.bind_eq_ok.mp h
  obtain ⟨henc, rfl⟩ := decodeUtf8_eq_ok.mp ht
  obtain ⟨b, hb, rfl⟩ := lenbytes_spells what _ _ _ hraw
  exact ⟨b, Writer.text_eq_ok.mpr ⟨raw, henc, hb⟩, rfl⟩

theorem varbytesLoop_spells {what : String} {out s s' raw : Bytes}
    (h : varbytesLoop what out s = .ok (raw, s')) :
    ∃ more, raw = out ++ more ∧ s = more.flatMap Writer.escape ++ [0x00, 0x01] ++ s' := by
  induction out, s using varbytesLoop.induct generalizing raw s' with
  | case1 out => exact nomatch h
  | case2 out byte s hbyte ih =>
      rw [varbytesLoop.eq_def] at h
      dsimp only at h
      rw [if_pos hbyte] at h
      obtain ⟨more, rfl, rfl⟩ := ih h
      have hesc : Writer.escape byte = [byte] := if_neg hbyte
      exact ⟨byte :: more, by simp, by simp [hesc]⟩
  | case3 out byte hbyte =>
      rw [varbytesLoop.eq_def] at h
      dsimp only at h
      rw [if_neg hbyte] at h
      cases h
  | case4 out byte hbyte s =>
      rw [varbytesLoop.eq_def] at h
      dsimp only at h
      rw [if_neg hbyte, if_pos rfl] at h
      obtain ⟨rfl, rfl⟩ := Prod.mk.inj (Except.ok.inj h)
      obtain rfl : byte = 0x00 := not_ne_iff.mp hbyte
      exact ⟨[], by simp, by simp⟩
  | case5 out byte hbyte s hone ih =>
      rw [varbytesLoop.eq_def] at h
      dsimp only at h
      rw [if_neg hbyte, if_neg hone, if_pos rfl] at h
      obtain ⟨more, rfl, rfl⟩ := ih h
      obtain rfl : byte = 0x00 := not_ne_iff.mp hbyte
      have hesc : Writer.escape 0x00 = [0x00, 0xFF] := rfl
      exact ⟨0x00 :: more, by simp, by simp [hesc]⟩
  | case6 out byte hbyte marker s hone hmarker =>
      rw [varbytesLoop.eq_def] at h
      dsimp only at h
      rw [if_neg hbyte, if_neg hone, if_neg hmarker] at h
      cases h

theorem varbytes_spells (what : String) : (varbytes what).Spells Writer.varbytes := by
  intro s s' raw h
  obtain ⟨more, rfl, rfl⟩ := varbytesLoop_spells h
  exact ⟨_, rfl, rfl⟩

instance (what : String) : Local (varbytes what) where
  reads_of_ok := by
    intro s s' raw h
    obtain ⟨b, hb, rfl⟩ := varbytes_spells what _ _ _ h
    exact ⟨b, rfl, varbytes_inverts what raw b hb⟩

end Reader

end TessariDB
