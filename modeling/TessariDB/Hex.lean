import TessariDB.Text

/-!
# Hexadecimal

Bytes as pairs of hexadecimal digits: `bytes.hex` and `bytes.fromhex`.

## Main results

* `fromHex_hex`: what was written is read back.
* `withoutHyphens_hyphenated`: so are the groups of a UUID.
-/

namespace Hex

open ByteCodec Utf8 Text

def hexDigit (d : ℕ) : CodePoint := codePoint (if d < 10 then 0x30 + d else 0x57 + d)

/-- `raw.hex()`. -/
def hex (raw : Bytes) : Str :=
  raw.flatMap fun b => [hexDigit (b.toNat / 16), hexDigit (b.toNat % 16)]

def hexValue (c : CodePoint) : Option ℕ :=
  if 0x30 ≤ c.val ∧ c.val ≤ 0x39 then some (c.val - 0x30)
  else if 0x61 ≤ c.val ∧ c.val ≤ 0x66 then some (c.val - 0x57)
  else if 0x41 ≤ c.val ∧ c.val ≤ 0x46 then some (c.val - 0x37)
  else none

/-- ASCII whitespace. -/
def IsSpace (c : CodePoint) : Prop := c.val = 0x20 ∨ (0x09 ≤ c.val ∧ c.val ≤ 0x0D)

instance (c : CodePoint) : Decidable (IsSpace c) := instDecidableOr

/-- `bytes.fromhex(s)`; whitespace between two bytes is skipped. -/
def fromHex : Str → Option Bytes
  | [] => some []
  | [c] => if IsSpace c then some [] else none
  | c :: d :: rest =>
      if IsSpace c then fromHex (d :: rest)
      else do
        let high ← hexValue c
        let low ← hexValue d
        let raw ← fromHex rest
        return UInt8.ofNat (16 * high + low) :: raw

theorem val_hexDigit {d : ℕ} (h : d < 16) :
    (hexDigit d).val = if d < 10 then 0x30 + d else 0x57 + d := by
  rw [hexDigit, val_codePoint]
  split <;> omega

theorem hexValue_hexDigit {d : ℕ} (h : d < 16) : hexValue (hexDigit d) = some d := by
  rw [hexValue, val_hexDigit h]
  by_cases hd : d < 10
  · rw [if_pos hd, if_pos (by omega), Nat.add_sub_cancel_left]
  · rw [if_neg hd, if_neg (by omega), if_pos (by omega), Nat.add_sub_cancel_left]

theorem not_space_hexDigit {d : ℕ} (h : d < 16) : ¬ IsSpace (hexDigit d) := by
  rw [IsSpace, val_hexDigit h]
  split <;> omega

/-- **What was written is read back.** -/
theorem fromHex_hex (raw : Bytes) : fromHex (hex raw) = some raw := by
  induction raw with
  | nil => rfl
  | cons b raw ih =>
      have hlt := b.toNat_lt
      have hhigh : b.toNat / 16 < 16 := by omega
      have hlow : b.toNat % 16 < 16 := Nat.mod_lt _ (by omega)
      rw [hex, List.flatMap_cons, List.cons_append, List.singleton_append, fromHex,
        if_neg (not_space_hexDigit hhigh), hexValue_hexDigit hhigh, hexValue_hexDigit hlow, ← hex, ih]
      have hbyte : UInt8.ofNat (16 * (b.toNat / 16) + b.toNat % 16) = b := by
        rw [Nat.div_add_mod, UInt8.ofNat_toNat]
      exact congrArg (fun b => some (b :: raw)) hbyte

theorem hex_injective {raw raw' : Bytes} (h : hex raw = hex raw') : raw = raw' := by
  have := congrArg fromHex h
  rw [fromHex_hex, fromHex_hex] at this
  exact Option.some.inj this

theorem exists_of_mem_hex {raw : Bytes} {c : CodePoint} (h : c ∈ hex raw) :
    ∃ d < 16, c = hexDigit d := by
  obtain ⟨b, -, hc⟩ := List.mem_flatMap.mp h
  have hlt := b.toNat_lt
  rcases List.mem_pair.mp hc with rfl | rfl
  · exact ⟨_, by omega, rfl⟩
  · exact ⟨_, Nat.mod_lt _ (by omega), rfl⟩

/-! ### Groups -/

def HYPHEN : CodePoint := codePoint 0x2D

/-- The digits of a UUID in their five groups. -/
def hyphenated (hexed : Str) : Str :=
  hexed.take 8 ++ "-" ++ (hexed.take 12).drop 8 ++ "-" ++ (hexed.take 16).drop 12 ++ "-" ++
    (hexed.take 20).drop 16 ++ "-" ++ hexed.drop 20

/-- `s.replace("-", "")`. -/
def withoutHyphens (s : Str) : Str := s.filter (· ≠ HYPHEN)

theorem slice_append_drop {a b : ℕ} (h : a ≤ b) (s : Str) :
    (s.take b).drop a ++ s.drop b = s.drop a := by
  rw [List.drop_take, ← Nat.add_sub_cancel' h, ← List.drop_drop, Nat.add_sub_cancel_left,
    List.take_append_drop]

/-- The groups hold the digits. -/
theorem withoutHyphens_hyphenated {hexed : Str} (h : ∀ c ∈ hexed, c ≠ HYPHEN) :
    withoutHyphens (hyphenated hexed) = hexed := by
  have hpart : ∀ part : Str, (∀ c ∈ part, c ∈ hexed) → part.filter (· ≠ HYPHEN) = part :=
    fun part hsub => List.filter_eq_self.mpr fun c hc => decide_eq_true (h c (hsub c hc))
  have hhyphen : (ofString "-").filter (· ≠ HYPHEN) = [] := by decide
  simp only [withoutHyphens, hyphenated, List.filter_append, hhyphen, List.nil_append,
    hpart _ fun c hc => List.mem_of_mem_take hc, hpart _ fun c hc => List.mem_of_mem_drop hc,
    hpart _ fun c hc => List.mem_of_mem_take (List.mem_of_mem_drop hc), List.append_assoc,
    slice_append_drop (show 16 ≤ 20 by omega), slice_append_drop (show 12 ≤ 16 by omega),
    slice_append_drop (show 8 ≤ 12 by omega), List.take_append_drop]

theorem ne_hyphen_of_mem_hex {raw : Bytes} : ∀ c ∈ hex raw, c ≠ HYPHEN := by
  rintro c hc rfl
  obtain ⟨d, hd, heq⟩ := exists_of_mem_hex hc
  have hval := val_hexDigit hd
  rw [← heq, HYPHEN, val_codePoint (by omega)] at hval
  split at hval <;> omega

theorem hyphenated_hex_injective {raw raw' : Bytes}
    (h : hyphenated (hex raw) = hyphenated (hex raw')) : raw = raw' := by
  have := congrArg withoutHyphens h
  rw [withoutHyphens_hyphenated ne_hyphen_of_mem_hex,
    withoutHyphens_hyphenated ne_hyphen_of_mem_hex] at this
  exact hex_injective this

end Hex
