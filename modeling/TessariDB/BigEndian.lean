import TessariDB.ByteCodec
import Mathlib.Data.List.Induction
import Mathlib.Tactic.Ring

/-!
# Big-Endian Integers

Fixed-width integers as byte strings, most significant byte first: the unsigned and the
two's-complement reading of a byte string (`ofBytes`, `ofBytesSigned`) and the writers
beside them (`toBytes`, `toBytesSigned`). Writing is total and keeps the value modulo
`256 ^ width`, so a caller that must not narrow checks the range first.

## Main results

* `ofBytes_toBytes`, `toBytes_ofBytes`: the unsigned pair is a bijection between
  `width` bytes and the numbers below `256 ^ width`.
* `append_lt_append`: byte strings of one width compare as the numbers they spell.
* `ofBytesSigned_toBytesSigned`, `toBytesSigned_ofBytesSigned`: the two's-complement pair
  is one between `width` bytes and the integers in `[-256 ^ width / 2, 256 ^ width / 2)`.
-/

namespace BigEndian

open ByteCodec

/-- The low `width` bytes of a number, most significant first. -/
def toBytes : ℕ → ℕ → Bytes
  | 0, _ => []
  | width + 1, n => toBytes width (n / 256) ++ [UInt8.ofNat n]

/-- The number a byte string spells. -/
def ofBytes (b : Bytes) : ℕ :=
  b.foldl (fun n x => n * 256 + x.toNat) 0

/-- The two's-complement bytes of an integer. -/
def toBytesSigned (width : ℕ) (z : ℤ) : Bytes :=
  toBytes width (z % (256 ^ width : ℕ)).toNat

/-- The integer a byte string spells in two's complement. -/
def ofBytesSigned (b : Bytes) : ℤ :=
  if 2 * ofBytes b < 256 ^ b.length then ofBytes b else ofBytes b - (256 ^ b.length : ℕ)

@[simp] theorem length_toBytes (width n : ℕ) : (toBytes width n).length = width := by
  induction width generalizing n with
  | zero => rfl
  | succ width ih => simp [toBytes, ih]

@[simp] theorem ofBytes_nil : ofBytes [] = 0 := rfl

@[simp] theorem ofBytes_concat (b : Bytes) (x : UInt8) :
    ofBytes (b ++ [x]) = ofBytes b * 256 + x.toNat := by
  simp [ofBytes]

theorem ofBytes_lt (b : Bytes) : ofBytes b < 256 ^ b.length := by
  induction b using List.reverseRecOn with
  | nil => decide
  | append_singleton b x ih =>
      have hx := x.toNat_lt
      rw [ofBytes_concat, List.length_append, List.length_singleton, pow_succ]
      omega

/-- Reading back what was written keeps the value when it fits the width. -/
theorem ofBytes_toBytes {width n : ℕ} (h : n < 256 ^ width) :
    ofBytes (toBytes width n) = n := by
  induction width generalizing n with
  | zero => simp only [pow_zero] at h; simp [toBytes]; omega
  | succ width ih =>
      rw [pow_succ] at h
      rw [toBytes, ofBytes_concat, ih (by omega)]
      simp only [UInt8.toNat_ofNat']
      omega

/-- Every byte string is the spelling of its number at its own width. -/
theorem toBytes_ofBytes (b : Bytes) : toBytes b.length (ofBytes b) = b := by
  induction b using List.reverseRecOn with
  | nil => rfl
  | append_singleton b x ih =>
      have hx := x.toNat_lt
      rw [List.length_append, List.length_singleton, toBytes, ofBytes_concat]
      rw [show (ofBytes b * 256 + x.toNat) / 256 = ofBytes b by omega, ih]
      have hlow : UInt8.ofNat (ofBytes b * 256 + x.toNat) = x := by
        apply UInt8.toNat_inj.mp
        simp only [UInt8.toNat_ofNat']
        omega
      rw [hlow]

theorem ofBytes_cons (x : UInt8) (b : Bytes) :
    ofBytes (x :: b) = x.toNat * 256 ^ b.length + ofBytes b := by
  induction b using List.reverseRecOn with
  | nil => simp [ofBytes]
  | append_singleton b y ih =>
      rw [← List.cons_append, ofBytes_concat, ih, ofBytes_concat, List.length_append,
        List.length_singleton, pow_succ]
      ring

/-- Byte strings of one width compare, first byte first, as the numbers they spell. -/
theorem append_lt_append {b c : Bytes} (hlen : b.length = c.length)
    (h : ofBytes b < ofBytes c) (s t : Bytes) : b ++ s < c ++ t := by
  induction b generalizing c with
  | nil =>
      obtain rfl := List.length_eq_zero_iff.mp hlen.symm
      exact absurd h (Nat.lt_irrefl _)
  | cons x b ih =>
      rcases c with - | ⟨y, c⟩
      · cases hlen
      have hlen' : b.length = c.length := Nat.succ.inj hlen
      have hb := ofBytes_lt b
      have hc := ofBytes_lt c
      rw [ofBytes_cons, ofBytes_cons, hlen'] at h
      rw [hlen'] at hb
      rw [List.cons_append, List.cons_append, List.cons_lt_cons_iff]
      rcases Nat.lt_trichotomy x.toNat y.toNat with hxy | hxy | hxy
      · exact Or.inl (UInt8.lt_iff_toNat_lt.mpr hxy)
      · rw [hxy] at h
        exact Or.inr ⟨UInt8.toNat_inj.mp hxy, ih hlen' (by omega)⟩
      · have hstep : (y.toNat + 1) * 256 ^ c.length ≤ x.toNat * 256 ^ c.length :=
          Nat.mul_le_mul_right _ hxy
        rw [Nat.add_mul] at hstep
        omega

@[simp] theorem length_toBytesSigned (width : ℕ) (z : ℤ) :
    (toBytesSigned width z).length = width :=
  length_toBytes ..

/-- Reading back what was written keeps an integer of the two's-complement range. -/
theorem ofBytesSigned_toBytesSigned {width : ℕ} {z : ℤ}
    (hlow : -(256 ^ width : ℕ) ≤ 2 * z) (hhigh : 2 * z < (256 ^ width : ℕ)) :
    ofBytesSigned (toBytesSigned width z) = z := by
  have hpos : 0 < 256 ^ width := Nat.pow_pos (by decide)
  have hfit : (z % (256 ^ width : ℕ)).toNat < 256 ^ width := by
    have := Int.emod_lt_of_pos z (b := (256 ^ width : ℕ)) (by omega)
    omega
  rw [ofBytesSigned, length_toBytesSigned, toBytesSigned, ofBytes_toBytes hfit]
  by_cases hz : 0 ≤ z
  · have hmod : z % (256 ^ width : ℕ) = z := Int.emod_eq_of_lt hz (by omega)
    rw [hmod, if_pos (by omega)]
    omega
  · have hmod : z % (256 ^ width : ℕ) = z + (256 ^ width : ℕ) := by
      rw [← Int.add_emod_right]
      exact Int.emod_eq_of_lt (by omega) (by omega)
    rw [hmod, if_neg (by omega)]
    omega

/-- The two's-complement reading of a byte string lies in the range of its width. -/
theorem ofBytesSigned_bounds (b : Bytes) :
    -(256 ^ b.length : ℕ) ≤ 2 * ofBytesSigned b ∧
      2 * ofBytesSigned b < (256 ^ b.length : ℕ) := by
  have hlt := ofBytes_lt b
  rw [ofBytesSigned]
  split <;> omega

/-- Every byte string is the two's-complement spelling of its integer. -/
theorem toBytesSigned_ofBytesSigned (b : Bytes) :
    toBytesSigned b.length (ofBytesSigned b) = b := by
  have hlt := ofBytes_lt b
  have hmod : (ofBytesSigned b % (256 ^ b.length : ℕ)).toNat = ofBytes b := by
    rw [ofBytesSigned]
    split
    · rw [Int.emod_eq_of_lt (by omega) (by omega)]
      omega
    · rw [Int.sub_emod_right, Int.emod_eq_of_lt (by omega) (by omega)]
      omega
  rw [toBytesSigned, hmod, toBytes_ofBytes]

end BigEndian
