import TessariDB.Fits
import TessariDB.OrderCode

/-!
# The Order of Record Identities

An `i64` is written with its sign bit turned, so that the negative numbers come first, and a byte
string with its zero bytes escaped and a stop behind it that is below what a zero byte becomes. So
identities of one kind, integers, texts or bytes, sort by the bytes they are written as.

## Main results

* `ofBytes_flipSign`: what the turned bit makes of a number.
* `varbytes_isOrderCode`: the escapes and the stop keep the order.
* `record_ids_keep_order`: the writers, and the identities they write.
-/

namespace TessariDB

namespace KeyOrder

open ByteCodec BigEndian Utf8 OrderCode

/-! ### Integers -/

/-- Byte strings of one width are in the order of the numbers they spell. -/
theorem lt_iff_ofBytes_lt {b c : Bytes} (hlen : b.length = c.length) :
    b < c ↔ ofBytes b < ofBytes c := by
  have hmono : ∀ {b c : Bytes}, b.length = c.length → ofBytes b < ofBytes c → b < c :=
    fun hlen h => by simpa using append_lt_append hlen h [] []
  refine ⟨fun h => ?_, hmono hlen⟩
  rcases Nat.lt_trichotomy (ofBytes b) (ofBytes c) with hlt | heq | hgt
  · exact hlt
  · have hsame : b = c := by rw [← toBytes_ofBytes b, ← toBytes_ofBytes c, hlen, heq]
    exact absurd (hsame ▸ h) (List.lt_irrefl _)
  · exact absurd (hmono hlen.symm hgt) (List.lt_asymm h)

theorem toNat_xor_sign (x : UInt8) : (x ^^^ 0x80).toNat = (x.toNat + 128) % 256 := by
  have hall : ∀ n : Fin 256, n.val ^^^ 128 = (n.val + 128) % 256 := by decide +kernel
  exact hall ⟨x.toNat, x.toNat_lt⟩

/-- Turning the sign bit adds half of the range, around the end of it. -/
theorem ofBytes_flipSign (x : UInt8) (rest : Bytes) :
    ofBytes (Writer.flipSign (x :: rest)) =
      (ofBytes (x :: rest) + 128 * 256 ^ rest.length) % 256 ^ (rest.length + 1) := by
  have hrest := ofBytes_lt rest
  have hx := x.toNat_lt
  have hsum : ofBytes (x :: rest) + 128 * 256 ^ rest.length =
      (x.toNat + 128) / 256 * 256 ^ (rest.length + 1) +
        ((x.toNat + 128) % 256 * 256 ^ rest.length + ofBytes rest) := by
    have hdiv := Nat.div_add_mod (x.toNat + 128) 256
    calc ofBytes (x :: rest) + 128 * 256 ^ rest.length
        = (x.toNat + 128) * 256 ^ rest.length + ofBytes rest := by rw [ofBytes_cons]; ring
      _ = (256 * ((x.toNat + 128) / 256) + (x.toNat + 128) % 256) * 256 ^ rest.length +
          ofBytes rest := by rw [hdiv]
      _ = _ := by ring
  have hlt : (x.toNat + 128) % 256 * 256 ^ rest.length + ofBytes rest <
      256 ^ (rest.length + 1) := by
    have hdigit : (x.toNat + 128) % 256 ≤ 255 := by omega
    calc (x.toNat + 128) % 256 * 256 ^ rest.length + ofBytes rest
        < 255 * 256 ^ rest.length + 256 ^ rest.length :=
          Nat.add_lt_add_of_le_of_lt (Nat.mul_le_mul_right _ hdigit) hrest
      _ = 256 ^ (rest.length + 1) := by ring
  rw [hsum, Nat.mul_add_mod_self_right, Nat.mod_eq_of_lt hlt, Writer.flipSign, ofBytes_cons,
    toNat_xor_sign]

/-- The number an `i64` is written as. -/
theorem ofBytes_i64 {z : ℤ} (h : Fits.i64 z) :
    ofBytes (Writer.flipSign (toBytesSigned 8 z)) = (z + 2 ^ 63).toNat := by
  obtain ⟨hlow, hhigh⟩ := h
  rw [INT64_MIN] at hlow
  rw [INT64_MAX] at hhigh
  have hwritten : ofBytes (toBytesSigned 8 z) = (z % 2 ^ 64).toNat :=
    ofBytes_toBytes (by norm_num; omega)
  obtain ⟨x, rest, hraw⟩ : ∃ x rest, toBytesSigned 8 z = x :: rest := by
    refine List.exists_cons_of_ne_nil fun hnil => ?_
    have hlen := length_toBytesSigned 8 z
    rw [hnil] at hlen
    cases hlen
  have hlen : rest.length = 7 := by
    have hlen := length_toBytesSigned 8 z
    rw [hraw] at hlen
    exact Nat.succ.inj hlen
  rw [hraw, ofBytes_flipSign, ← hraw, hwritten, hlen]
  norm_num
  omega

theorem i64_lt_iff {y z : ℤ} (hy : Fits.i64 y) (hz : Fits.i64 z) :
    Writer.flipSign (toBytesSigned 8 y) < Writer.flipSign (toBytesSigned 8 z) ↔ y < z := by
  rw [lt_iff_ofBytes_lt (by simp), ofBytes_i64 hy, ofBytes_i64 hz]
  have hlow := hy.1
  have hlow' := hz.1
  rw [INT64_MIN] at hlow hlow'
  omega

/-! ### Byte strings -/

/-- What a byte is escaped as, and the stop below all of it. -/
theorem varbytes_isOrderCode : IsOrderCode Writer.escape [0x00, 0x01] where
  symbol a b hab := by
    have hb : b ≠ 0x00 := by
      rintro rfl
      exact UInt8.not_lt_zero hab
    rw [Writer.escape, Writer.escape, if_neg hb]
    split
    · next ha => exact below_cons (ha ▸ hab) _ _
    · exact below_cons hab _ _
  stop a := by
    rw [Writer.escape]
    split
    · exact ⟨[0x00], 0x01, 0xFF, [], [], rfl, rfl, by decide⟩
    · next ha => exact below_cons (UInt8.pos_iff_ne_zero.mpr ha) _ _

/-- What `varbytes` writes. -/
theorem varbytes_eq (raw : Bytes) :
    Writer.varbytes raw = .ok (code Writer.escape [0x00, 0x01] raw) :=
  rfl

/-! ### Identities -/

/-- What is written is in the order of what it is written for. -/
def KeepsOrder {α : Type} [LT α] (write : α → Writer) (P : α → Prop) : Prop :=
  ∀ x y, P x → P y → ∃ b c, write x = .ok b ∧ write y = .ok c ∧ (b < c ↔ x < y)

/-- A tag before everything keeps the order. -/
theorem KeepsOrder.tagged {α : Type} [LT α] {write : α → Writer} {P : α → Prop}
    (h : KeepsOrder write P) {tag : ℤ} {t : UInt8} (htag : Writer.u8 tag = .ok [t]) :
    KeepsOrder (fun x => Writer.u8 tag ++ write x) P := by
  intro x y hx hy
  obtain ⟨b, c, hb, hc, hlt⟩ := h x y hx hy
  refine ⟨t :: b, t :: c, ?_, ?_, List.cons_lt_cons_self.trans hlt⟩
  · exact Put.append_eq_ok.mpr ⟨[t], b, htag, hb, rfl⟩
  · exact Put.append_eq_ok.mpr ⟨[t], c, htag, hc, rfl⟩

theorem i64_keepsOrder : KeepsOrder Writer.i64 Fits.i64 := by
  intro y z hy hz
  exact ⟨_, _, Writer.i64_eq_ok.mpr ⟨hy, rfl⟩, Writer.i64_eq_ok.mpr ⟨hz, rfl⟩, i64_lt_iff hy hz⟩

theorem varbytes_keepsOrder : KeepsOrder Writer.varbytes fun _ => True := by
  intro a b _ _
  exact ⟨_, _, varbytes_eq a, varbytes_eq b, varbytes_isOrderCode.code_lt_code_iff⟩

theorem recordId_textId {s : Str} {raw : Bytes} (h : Utf8.encode s = some raw) :
    Encode.recordId (.textId s) = .ok (0x02 :: code Writer.escape [0x00, 0x01] raw) := by
  rw [Encode.recordId, Writer.encodeUtf8, h]
  exact Put.append_eq_ok.mpr ⟨[0x02], _, rfl, varbytes_eq raw, rfl⟩

/-- The spellings of texts are in the order of the texts. -/
theorem textId_keepsOrder : KeepsOrder (fun s => Encode.recordId (.textId s)) Spelled := by
  intro s t hs ht
  obtain ⟨x, hx⟩ := Option.isSome_iff_exists.mp (encode_isSome_iff.mpr hs)
  obtain ⟨y, hy⟩ := Option.isSome_iff_exists.mp (encode_isSome_iff.mpr ht)
  refine ⟨_, _, recordId_textId hx, recordId_textId hy, ?_⟩
  rw [List.cons_lt_cons_self, varbytes_isOrderCode.code_lt_code_iff, encode_lt_encode_iff hx hy]

/-- **Identities keep their order.** The bytes of integers compare as the integers, the bytes of
byte strings as these, neither of two the beginning of the other, and so the identities of one kind
are in the order of the bytes they are written as. -/
theorem record_ids_keep_order :
    KeepsOrder Writer.i64 Fits.i64 ∧
    (∀ a b, ∃ x y, Writer.varbytes a = .ok x ∧ Writer.varbytes b = .ok y ∧ (x < y ↔ a < b) ∧
      ¬ (x <+: y ∧ x ≠ y) ∧ ¬ (y <+: x ∧ y ≠ x)) ∧
    KeepsOrder (fun z => Encode.recordId (.integerId z)) Fits.i64 ∧
    KeepsOrder (fun raw => Encode.recordId (.bytesId raw)) (fun _ => True) ∧
    KeepsOrder (fun s => Encode.recordId (.textId s)) Spelled := by
  have hbegins : ∀ {a b : Bytes}, ¬ (code Writer.escape [0x00, 0x01] a <+:
      code Writer.escape [0x00, 0x01] b ∧
        code Writer.escape [0x00, 0x01] a ≠ code Writer.escape [0x00, 0x01] b) := by
    rintro a b ⟨hbegins, hne⟩
    exact hne (congrArg _ (varbytes_isOrderCode.eq_of_begins hbegins))
  refine ⟨i64_keepsOrder, fun a b => ?_, i64_keepsOrder.tagged (t := 0x01) rfl,
    varbytes_keepsOrder.tagged (t := 0x04) rfl, textId_keepsOrder⟩
  exact ⟨_, _, varbytes_eq a, varbytes_eq b, varbytes_isOrderCode.code_lt_code_iff, hbegins, hbegins⟩

/-- The two ends of the range, and a byte string that begins another. -/
theorem record_ids_keep_order_ends :
    (∃ b c, Writer.i64 (-2 ^ 63) = .ok b ∧ Writer.i64 (2 ^ 63 - 1) = .ok c ∧
      (b < c ↔ (-2 ^ 63 : ℤ) < 2 ^ 63 - 1)) ∧
    ∃ x y, Writer.varbytes [0x00] = .ok x ∧ Writer.varbytes [0x00, 0x00] = .ok y ∧
      (x < y ↔ ([0x00] : Bytes) < [0x00, 0x00]) ∧ ¬ (x <+: y ∧ x ≠ y) ∧ ¬ (y <+: x ∧ y ≠ x) :=
  ⟨record_ids_keep_order.1 _ _ ⟨by decide, by decide⟩ ⟨by decide, by decide⟩,
    record_ids_keep_order.2.1 _ _⟩

end KeyOrder

end TessariDB
