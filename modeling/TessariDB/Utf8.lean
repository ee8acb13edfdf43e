import TessariDB.BigEndian
import Mathlib.Data.List.Lex
import Mathlib.Order.Fin.Basic

/-!
# UTF-8 over Code Points

Text as a sequence of Unicode code points, **surrogates included**, with the strict UTF-8
codec: `encode` has no spelling for a surrogate, and `decode` accepts exactly the shortest
spelling of each scalar value. `decodeReplace` is the lenient reading, which puts U+FFFD
for each maximal ill-formed run.

One character is read by `decodeChar`, which reports how many bytes an ill-formed run
spans; both string-level readers iterate it.

## Main results

* `decode_eq_some_iff`: decoding and encoding are inverse partial functions.
* `encode_isSome_iff`: a text has a spelling exactly when it holds no surrogate.
* `encode_lt_encode_iff`: the byte order of spellings is the code point order of texts.
-/

namespace Utf8

open ByteCodec

/-- A Unicode code point; a lone surrogate is one. -/
abbrev CodePoint := Fin 0x110000

/-- Text as a sequence of code points. -/
abbrev Str := List CodePoint

instance : LawfulBEq CodePoint := inferInstance

instance : LawfulBEq Str := inferInstance

/-- The code point of a number that is known to be one. -/
def codePoint (n : ℕ) : CodePoint := Fin.ofNat 0x110000 n

theorem val_codePoint {n : ℕ} (h : n < 0x110000) : (codePoint n).val = n :=
  Nat.mod_eq_of_lt h

/-- The text of a string literal. -/
def ofString (s : String) : Str := s.toList.map fun c => codePoint c.toNat

/-- The code points UTF-8 has no spelling for. -/
def IsSurrogate (c : CodePoint) : Prop := 0xD800 ≤ c.val ∧ c.val < 0xE000

instance (c : CodePoint) : Decidable (IsSurrogate c) := instDecidableAnd

/-! ### Encoding -/

/-- The UTF-8 spelling of one code point. -/
def encodeChar (c : CodePoint) : Option Bytes :=
  if c.val < 0x80 then
    some [UInt8.ofNat c.val]
  else if c.val < 0x800 then
    some [UInt8.ofNat (0xC0 + c.val / 64), UInt8.ofNat (0x80 + c.val % 64)]
  else if IsSurrogate c then
    none
  else if c.val < 0x10000 then
    some [UInt8.ofNat (0xE0 + c.val / 4096), UInt8.ofNat (0x80 + c.val / 64 % 64),
      UInt8.ofNat (0x80 + c.val % 64)]
  else
    some [UInt8.ofNat (0xF0 + c.val / 262144), UInt8.ofNat (0x80 + c.val / 4096 % 64),
      UInt8.ofNat (0x80 + c.val / 64 % 64), UInt8.ofNat (0x80 + c.val % 64)]

/-- The UTF-8 spelling of a text, or nothing when it holds a surrogate. -/
def encode : Str → Option Bytes
  | [] => some []
  | c :: cs => do
      let b ← encodeChar c
      let bs ← encode cs
      some (b ++ bs)

/-! ### Decoding -/

/-- A continuation byte. -/
def IsTail (b : UInt8) : Prop := 0x80 ≤ b.toNat ∧ b.toNat < 0xC0

instance (b : UInt8) : Decidable (IsTail b) := instDecidableAnd

/-- The bytes that may follow a lead byte: a continuation byte, in the range that excludes
overlong spellings, surrogates and numbers past U+10FFFF. -/
def IsSecond (lead b : UInt8) : Prop :=
  IsTail b ∧ (lead = 0xE0 → 0xA0 ≤ b.toNat) ∧ (lead = 0xED → b.toNat < 0xA0) ∧
    (lead = 0xF0 → 0x90 ≤ b.toNat) ∧ (lead = 0xF4 → b.toNat < 0x90)

instance (lead b : UInt8) : Decidable (IsSecond lead b) := by
  rw [IsSecond]; infer_instance

/-- The six bits a continuation byte carries. -/
def tailBits (b : UInt8) : ℕ := b.toNat - 0x80

/-- Read one code point from the front, or say how many bytes the ill-formed run there
spans. -/
def decodeChar : Bytes → Except ℕ (CodePoint × Bytes)
  | [] => .error 0
  | a :: s =>
      if a.toNat < 0x80 then
        .ok (codePoint a.toNat, s)
      else if a.toNat < 0xC2 then
        .error 1
      else if a.toNat < 0xE0 then
        match s with
        | [] => .error 1
        | b :: s =>
            if IsSecond a b then
              .ok (codePoint ((a.toNat - 0xC0) * 64 + tailBits b), s)
            else .error 1
      else if a.toNat < 0xF0 then
        match s with
        | [] => .error 1
        | b :: s =>
            if IsSecond a b then
              match s with
              | [] => .error 2
              | c :: s =>
                  if IsTail c then
                    .ok (codePoint ((a.toNat - 0xE0) * 4096 + tailBits b * 64 +
                      tailBits c), s)
                  else .error 2
            else .error 1
      else if a.toNat < 0xF5 then
        match s with
        | [] => .error 1
        | b :: s =>
            if IsSecond a b then
              match s with
              | [] => .error 2
              | c :: s =>
                  if IsTail c then
                    match s with
                    | [] => .error 3
                    | d :: s =>
                        if IsTail d then
                          .ok (codePoint ((a.toNat - 0xF0) * 262144 + tailBits b * 4096 +
                            tailBits c * 64 + tailBits d), s)
                        else .error 3
                  else .error 2
            else .error 1
      else .error 1

/-- The strict reading within `fuel` characters. -/
def decodeFuel : ℕ → Bytes → Option Str
  | _, [] => some []
  | 0, _ :: _ => none
  | fuel + 1, s =>
      match decodeChar s with
      | .ok (c, s') => (decodeFuel fuel s').map (c :: ·)
      | .error _ => none

/-- The text a byte string spells, when it is well-formed UTF-8. -/
def decode (s : Bytes) : Option Str := decodeFuel s.length s

/-- The lenient reading within `fuel` characters. -/
def decodeReplaceFuel : ℕ → Bytes → Str
  | _, [] => []
  | 0, _ :: _ => []
  | fuel + 1, s =>
      match decodeChar s with
      | .ok (c, s') => c :: decodeReplaceFuel fuel s'
      | .error k => codePoint 0xFFFD :: decodeReplaceFuel fuel (s.drop (max k 1))

/-- The text a byte string spells, with U+FFFD for each ill-formed run. -/
def decodeReplace (s : Bytes) : Str := decodeReplaceFuel s.length s

/-! ### One character -/

theorem ofNat_eq_of_toNat {n : ℕ} {b : UInt8} (h : n = b.toNat) : UInt8.ofNat n = b := by
  subst h
  exact UInt8.ofNat_toNat

theorem codePoint_eq_of_val {n : ℕ} {c : CodePoint} (h : n = c.val) : codePoint n = c := by
  subst h
  exact Fin.ext (val_codePoint c.isLt)

theorem toNat_ofNat {n : ℕ} (h : n < 256) : (UInt8.ofNat n).toNat = n := by
  rw [UInt8.toNat_ofNat']
  exact Nat.mod_eq_of_lt h

/-- The lead-byte conditions of `IsSecond`, as numbers. -/
theorem isSecond_iff (lead b : UInt8) :
    IsSecond lead b ↔ (0x80 ≤ b.toNat ∧ b.toNat < 0xC0) ∧
      (lead.toNat = 0xE0 → 0xA0 ≤ b.toNat) ∧ (lead.toNat = 0xED → b.toNat < 0xA0) ∧
      (lead.toNat = 0xF0 → 0x90 ≤ b.toNat) ∧ (lead.toNat = 0xF4 → b.toNat < 0x90) := by
  simp only [IsSecond, IsTail, ← UInt8.toNat_inj]
  rfl

theorem decodeChar_one {a : UInt8} (ha : a.toNat < 0x80) (s : Bytes) :
    decodeChar (a :: s) = .ok (codePoint a.toNat, s) := by
  simp only [decodeChar]
  rw [if_pos ha]

theorem decodeChar_two {a b : UInt8} (ha : 0xC2 ≤ a.toNat) (ha' : a.toNat < 0xE0)
    (hb : IsTail b) (s : Bytes) :
    decodeChar (a :: b :: s) = .ok (codePoint ((a.toNat - 0xC0) * 64 + tailBits b), s) := by
  have hsecond : IsSecond a b := (isSecond_iff a b).mpr ⟨hb, by omega⟩
  simp only [decodeChar]
  rw [if_neg (by omega), if_neg (by omega), if_pos ha', if_pos hsecond]

theorem decodeChar_three {a b c : UInt8} (ha : 0xE0 ≤ a.toNat) (ha' : a.toNat < 0xF0)
    (hb : IsSecond a b) (hc : IsTail c) (s : Bytes) :
    decodeChar (a :: b :: c :: s) =
      .ok (codePoint ((a.toNat - 0xE0) * 4096 + tailBits b * 64 + tailBits c), s) := by
  simp only [decodeChar]
  rw [if_neg (by omega), if_neg (by omega), if_neg (by omega), if_pos ha', if_pos hb,
    if_pos hc]

theorem decodeChar_four {a b c d : UInt8} (ha : 0xF0 ≤ a.toNat) (ha' : a.toNat < 0xF5)
    (hb : IsSecond a b) (hc : IsTail c) (hd : IsTail d) (s : Bytes) :
    decodeChar (a :: b :: c :: d :: s) =
      .ok (codePoint ((a.toNat - 0xF0) * 262144 + tailBits b * 4096 + tailBits c * 64 +
        tailBits d), s) := by
  simp only [decodeChar]
  rw [if_neg (by omega), if_neg (by omega), if_neg (by omega), if_neg (by omega),
    if_pos ha', if_pos hb, if_pos hc, if_pos hd]

/-- Reading a spelled code point returns it and stops at its end. -/
theorem decodeChar_encodeChar {c : CodePoint} {b : Bytes} (h : encodeChar c = some b)
    (s : Bytes) : decodeChar (b ++ s) = .ok (c, s) := by
  have hlt := c.isLt
  rw [encodeChar] at h
  split at h
  · obtain rfl := Option.some.inj h
    have h₁ : (UInt8.ofNat c.val).toNat = c.val := toNat_ofNat (by omega)
    refine (decodeChar_one (by omega) s).trans ?_
    rw [codePoint_eq_of_val (c := c) (by omega)]
  split at h
  · obtain rfl := Option.some.inj h
    have h₁ := toNat_ofNat (n := 0xC0 + c.val / 64) (by omega)
    have h₂ := toNat_ofNat (n := 0x80 + c.val % 64) (by omega)
    refine (decodeChar_two (by omega) (by omega) ⟨by omega, by omega⟩ s).trans ?_
    rw [codePoint_eq_of_val (c := c) (by unfold tailBits; omega)]
  split at h
  · cases h
  next hscalar =>
  simp only [IsSurrogate] at hscalar
  split at h
  · obtain rfl := Option.some.inj h
    have h₁ := toNat_ofNat (n := 0xE0 + c.val / 4096) (by omega)
    have h₂ := toNat_ofNat (n := 0x80 + c.val / 64 % 64) (by omega)
    have h₃ := toNat_ofNat (n := 0x80 + c.val % 64) (by omega)
    refine (decodeChar_three (by omega) (by omega) ((isSecond_iff _ _).mpr (by omega))
      ⟨by omega, by omega⟩ s).trans ?_
    rw [codePoint_eq_of_val (c := c) (by unfold tailBits; omega)]
  · obtain rfl := Option.some.inj h
    have h₁ := toNat_ofNat (n := 0xF0 + c.val / 262144) (by omega)
    have h₂ := toNat_ofNat (n := 0x80 + c.val / 4096 % 64) (by omega)
    have h₃ := toNat_ofNat (n := 0x80 + c.val / 64 % 64) (by omega)
    have h₄ := toNat_ofNat (n := 0x80 + c.val % 64) (by omega)
    refine (decodeChar_four (by omega) (by omega) ((isSecond_iff _ _).mpr (by omega))
      ⟨by omega, by omega⟩ ⟨by omega, by omega⟩ s).trans ?_
    rw [codePoint_eq_of_val (c := c) (by unfold tailBits; omega)]

theorem encodeChar_one {n : ℕ} (h : n < 0x80) :
    encodeChar (codePoint n) = some [UInt8.ofNat n] := by
  rw [encodeChar, val_codePoint (by omega), if_pos h]

theorem encodeChar_two {n : ℕ} (h : 0x80 ≤ n) (h' : n < 0x800) :
    encodeChar (codePoint n) =
      some [UInt8.ofNat (0xC0 + n / 64), UInt8.ofNat (0x80 + n % 64)] := by
  rw [encodeChar, val_codePoint (by omega), if_neg (by omega), if_pos h']

theorem encodeChar_three {n : ℕ} (h : 0x800 ≤ n) (h' : n < 0x10000)
    (hs : ¬(0xD800 ≤ n ∧ n < 0xE000)) :
    encodeChar (codePoint n) =
      some [UInt8.ofNat (0xE0 + n / 4096), UInt8.ofNat (0x80 + n / 64 % 64),
        UInt8.ofNat (0x80 + n % 64)] := by
  have hn := val_codePoint (n := n) (by omega)
  rw [encodeChar, if_neg (by omega), if_neg (by omega),
    if_neg (by rw [IsSurrogate, hn]; exact hs), if_pos (by omega), hn]

theorem encodeChar_four {n : ℕ} (h : 0x10000 ≤ n) (h' : n < 0x110000) :
    encodeChar (codePoint n) =
      some [UInt8.ofNat (0xF0 + n / 262144), UInt8.ofNat (0x80 + n / 4096 % 64),
        UInt8.ofNat (0x80 + n / 64 % 64), UInt8.ofNat (0x80 + n % 64)] := by
  have hn := val_codePoint (n := n) h'
  rw [encodeChar, if_neg (by omega), if_neg (by omega),
    if_neg (by rw [IsSurrogate]; omega), if_neg (by omega), hn]

/-- What was read as one code point is exactly that code point's spelling. -/
theorem encodeChar_of_decodeChar {s s' : Bytes} {c : CodePoint}
    (h : decodeChar s = .ok (c, s')) : ∃ b, encodeChar c = some b ∧ s = b ++ s' := by
  rcases s with - | ⟨a, s⟩
  · cases h
  have ha := a.toNat_lt
  simp only [decodeChar] at h
  split at h
  · obtain ⟨rfl, rfl⟩ := Prod.mk.inj (Except.ok.inj h)
    exact ⟨_, encodeChar_one (by omega), by rw [ofNat_eq_of_toNat rfl]; rfl⟩
  split at h
  · cases h
  split at h
  · rcases s with - | ⟨b, s⟩
    · cases h
    dsimp only at h
    split at h
    · next hb =>
      rw [isSecond_iff] at hb
      obtain ⟨rfl, rfl⟩ := Prod.mk.inj (Except.ok.inj h)
      refine ⟨_, encodeChar_two (by unfold tailBits; omega) (by unfold tailBits; omega), ?_⟩
      rw [ofNat_eq_of_toNat (b := a) (by unfold tailBits; omega),
        ofNat_eq_of_toNat (b := b) (by unfold tailBits; omega)]
      rfl
    · cases h
  split at h
  · rcases s with - | ⟨b, s⟩
    · cases h
    dsimp only at h
    split at h
    · next hb =>
      rw [isSecond_iff] at hb
      rcases s with - | ⟨c, s⟩
      · cases h
      dsimp only at h
      split at h
      · next hc =>
        rw [IsTail] at hc
        obtain ⟨rfl, rfl⟩ := Prod.mk.inj (Except.ok.inj h)
        refine ⟨_, encodeChar_three (by unfold tailBits; omega) (by unfold tailBits; omega)
          (by unfold tailBits; omega), ?_⟩
        rw [ofNat_eq_of_toNat (b := a) (by unfold tailBits; omega),
          ofNat_eq_of_toNat (b := b) (by unfold tailBits; omega),
          ofNat_eq_of_toNat (b := c) (by unfold tailBits; omega)]
        rfl
      · cases h
    · cases h
  split at h
  · rcases s with - | ⟨b, s⟩
    · cases h
    dsimp only at h
    split at h
    · next hb =>
      rw [isSecond_iff] at hb
      rcases s with - | ⟨c, s⟩
      · cases h
      dsimp only at h
      split at h
      · next hc =>
        rw [IsTail] at hc
        rcases s with - | ⟨d, s⟩
        · cases h
        dsimp only at h
        split at h
        · next hd =>
          rw [IsTail] at hd
          obtain ⟨rfl, rfl⟩ := Prod.mk.inj (Except.ok.inj h)
          refine ⟨_, encodeChar_four (by unfold tailBits; omega)
            (by unfold tailBits; omega), ?_⟩
          rw [ofNat_eq_of_toNat (b := a) (by unfold tailBits; omega),
            ofNat_eq_of_toNat (b := b) (by unfold tailBits; omega),
            ofNat_eq_of_toNat (b := c) (by unfold tailBits; omega),
            ofNat_eq_of_toNat (b := d) (by unfold tailBits; omega)]
          rfl
        · cases h
      · cases h
    · cases h
  · cases h

theorem encodeChar_ne_nil {c : CodePoint} {b : Bytes} (h : encodeChar c = some b) :
    b ≠ [] := by
  rintro rfl
  cases decodeChar_encodeChar h []

/-! ### Texts -/

theorem encode_cons_eq_some {c : CodePoint} {cs : Str} {b : Bytes} :
    encode (c :: cs) = some b ↔
      ∃ b₁ b₂, encodeChar c = some b₁ ∧ encode cs = some b₂ ∧ b = b₁ ++ b₂ := by
  simp only [encode, bind, Option.bind_eq_some_iff, Option.some.injEq]
  constructor
  · rintro ⟨b₁, h₁, b₂, h₂, rfl⟩
    exact ⟨b₁, b₂, h₁, h₂, rfl⟩
  · rintro ⟨b₁, b₂, h₁, h₂, rfl⟩
    exact ⟨b₁, h₁, b₂, h₂, rfl⟩

/-- A text has a spelling exactly when it holds no surrogate. -/
theorem encode_isSome_iff {t : Str} : (encode t).isSome ↔ ∀ c ∈ t, ¬IsSurrogate c := by
  have hchar : ∀ c : CodePoint, (encodeChar c).isSome ↔ ¬IsSurrogate c := by
    intro c
    rw [encodeChar]
    split
    · simp [IsSurrogate]; omega
    split
    · simp [IsSurrogate]; omega
    split
    · next hs => simp [hs]
    next hs => split <;> simp [hs]
  induction t with
  | nil => simp [encode]
  | cons c cs ih =>
      rw [List.forall_mem_cons, ← hchar c, ← propext ih]
      simp only [Option.isSome_iff_exists, encode_cons_eq_some]
      constructor
      · rintro ⟨_, b₁, b₂, h₁, h₂, rfl⟩
        exact ⟨⟨b₁, h₁⟩, b₂, h₂⟩
      · rintro ⟨⟨b₁, h₁⟩, b₂, h₂⟩
        exact ⟨_, b₁, b₂, h₁, h₂, rfl⟩

theorem decodeFuel_encode {t : Str} {b : Bytes} (h : encode t = some b) {fuel : ℕ}
    (hfuel : b.length ≤ fuel) : decodeFuel fuel b = some t := by
  induction t generalizing b fuel with
  | nil =>
      obtain rfl := Option.some.inj h
      rw [decodeFuel]
  | cons c cs ih =>
      obtain ⟨b₁, b₂, h₁, h₂, rfl⟩ := encode_cons_eq_some.mp h
      obtain ⟨x, b₁, rfl⟩ := List.exists_cons_of_ne_nil (encodeChar_ne_nil h₁)
      rcases fuel with - | fuel
      · simp at hfuel
      have hrest : b₂.length ≤ fuel := by
        simp only [List.cons_append, List.length_cons, List.length_append] at hfuel
        omega
      have hread := decodeChar_encodeChar h₁ b₂
      rw [List.cons_append] at hread ⊢
      simp only [decodeFuel, hread, ih h₂ hrest, Option.map_some]

theorem encode_of_decodeFuel {fuel : ℕ} {s : Bytes} {t : Str}
    (h : decodeFuel fuel s = some t) : encode t = some s := by
  induction fuel generalizing s t with
  | zero =>
      rcases s with - | ⟨a, s⟩
      · obtain rfl := Option.some.inj h
        rfl
      · cases h
  | succ fuel ih =>
      rcases s with - | ⟨a, s⟩
      · obtain rfl := Option.some.inj h
        rfl
      simp only [decodeFuel] at h
      split at h
      · next c s' hc =>
        obtain ⟨cs, hcs, rfl⟩ := Option.map_eq_some_iff.mp h
        obtain ⟨b, hb, hs⟩ := encodeChar_of_decodeChar hc
        rw [hs]
        exact encode_cons_eq_some.mpr ⟨b, s', hb, ih hcs, rfl⟩
      · cases h

/-- **UTF-8 is a bijection** between the texts without surrogates and the well-formed byte
strings. -/
theorem decode_eq_some_iff {s : Bytes} {t : Str} : decode s = some t ↔ encode t = some s :=
  ⟨encode_of_decodeFuel, fun h => decodeFuel_encode h (Nat.le_refl _)⟩

/-! ### Order -/

/-- The four shapes of a spelling. -/
theorem encodeChar_cases {c : CodePoint} {x : Bytes} (h : encodeChar c = some x) :
    (c.val < 0x80 ∧ x = [UInt8.ofNat c.val]) ∨
    (0x80 ≤ c.val ∧ c.val < 0x800 ∧
      x = [UInt8.ofNat (0xC0 + c.val / 64), UInt8.ofNat (0x80 + c.val % 64)]) ∨
    (0x800 ≤ c.val ∧ c.val < 0x10000 ∧
      x = [UInt8.ofNat (0xE0 + c.val / 4096), UInt8.ofNat (0x80 + c.val / 64 % 64),
        UInt8.ofNat (0x80 + c.val % 64)]) ∨
    (0x10000 ≤ c.val ∧
      x = [UInt8.ofNat (0xF0 + c.val / 262144), UInt8.ofNat (0x80 + c.val / 4096 % 64),
        UInt8.ofNat (0x80 + c.val / 64 % 64), UInt8.ofNat (0x80 + c.val % 64)]) := by
  rw [encodeChar] at h
  split at h
  · exact .inl ⟨by omega, (Option.some.inj h).symm⟩
  split at h
  · exact .inr (.inl ⟨by omega, by omega, (Option.some.inj h).symm⟩)
  split at h
  · cases h
  split at h
  · exact .inr (.inr (.inl ⟨by omega, by omega, (Option.some.inj h).symm⟩))
  · exact .inr (.inr (.inr ⟨by omega, (Option.some.inj h).symm⟩))

theorem cons_lt_cons_of_toNat {m n : ℕ} (h : m < n) (hn : n < 256) (s t : Bytes) :
    UInt8.ofNat m :: s < UInt8.ofNat n :: t := by
  rw [List.cons_lt_cons_iff, UInt8.lt_iff_toNat_lt, toNat_ofNat (by omega), toNat_ofNat hn]
  exact .inl h

/-- A smaller code point has the smaller spelling, whatever follows either of them. -/
theorem encodeChar_lt {c d : CodePoint} {x y : Bytes} (h : c < d)
    (hc : encodeChar c = some x) (hd : encodeChar d = some y) (s t : Bytes) :
    x ++ s < y ++ t := by
  have hcd : c.val < d.val := h
  have hlt := d.isLt
  -- Spellings of different widths differ in their lead byte; those of one width compare
  -- as big-endian numbers.
  rcases encodeChar_cases hc with ⟨c₁, rfl⟩ | ⟨c₁, c₂, rfl⟩ | ⟨c₁, c₂, rfl⟩ | ⟨c₁, rfl⟩ <;>
    rcases encodeChar_cases hd with ⟨d₁, rfl⟩ | ⟨d₁, d₂, rfl⟩ | ⟨d₁, d₂, rfl⟩ | ⟨d₁, rfl⟩
  all_goals
    first
    | omega
    | exact cons_lt_cons_of_toNat (by omega) (by omega) _ _
    | refine BigEndian.append_lt_append (by simp) ?_ s t
      simp only [BigEndian.ofBytes, List.foldl_cons, List.foldl_nil]
      repeat rw [toNat_ofNat (by omega)]
      omega

/-- **Byte order is code point order.** -/
theorem encode_lt_encode {t u : Str} {x y : Bytes} (ht : encode t = some x)
    (hu : encode u = some y) (h : t < u) : x < y := by
  induction t generalizing u x y with
  | nil =>
      obtain rfl := Option.some.inj ht
      rcases u with - | ⟨d, ds⟩
      · exact absurd h (List.not_lt_nil _)
      obtain ⟨b₁, b₂, h₁, -, rfl⟩ := encode_cons_eq_some.mp hu
      obtain ⟨z, b₁, rfl⟩ := List.exists_cons_of_ne_nil (encodeChar_ne_nil h₁)
      exact List.nil_lt_cons _ _
  | cons c cs ih =>
      rcases u with - | ⟨d, ds⟩
      · exact absurd h (List.not_lt_nil _)
      obtain ⟨b₁, b₂, h₁, h₂, rfl⟩ := encode_cons_eq_some.mp ht
      obtain ⟨b₃, b₄, h₃, h₄, rfl⟩ := encode_cons_eq_some.mp hu
      rcases List.cons_lt_cons_iff.mp h with hcd | ⟨rfl, hrest⟩
      · exact encodeChar_lt hcd h₁ h₃ b₂ b₄
      · obtain rfl := Option.some.inj (h₁.symm.trans h₃)
        exact List.append_left_lt (ih h₂ h₄ hrest)

theorem encode_lt_encode_iff {t u : Str} {x y : Bytes} (ht : encode t = some x)
    (hu : encode u = some y) : x < y ↔ t < u := by
  refine ⟨fun h => ?_, encode_lt_encode ht hu⟩
  rcases lt_trichotomy t u with htu | rfl | hut
  · exact htu
  · obtain rfl := Option.some.inj (ht.symm.trans hu)
    exact absurd h (List.lt_irrefl x)
  · exact absurd (List.lt_trans h (encode_lt_encode hu ht hut)) (List.lt_irrefl x)

end Utf8
