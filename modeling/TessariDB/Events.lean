import TessariDB.Doubles
import TessariDB.Hex
import TessariDB.Literals
import TessariDB.Sequences
import TessariDB.Timestamps
import TessariDB.Valid

/-!
# Batches of Events

The source a batch of events is sent as (`_events.py`): an array of objects of literals, each kind
an event carries in its one spelling. Every other kind is refused.

`Value.stripped` leaves out of a value the object fields that hold none, at every depth; that is
all of a value that its spelling does not carry.

## Main results

* `literal_eq_ok`: what is rendered is a literal of the language in `TessariDB.Literals`.
* `carried_of_literal`: what an event carries.
* `spelling_injective`: a value is known by its spelling, but for absent fields.
* `batch_spells_its_events`: a batch is known by its text.
-/

namespace TessariDB

open ByteCodec Utf8 Text Calendar Doubles Hex Numerals Timestamps
open Literals (Literal QUOTE BACKSLASH)

/-- A batch holds something an event cannot carry. -/
structure NotAnEvent where
  message : String
  deriving DecidableEq, Repr

/-- What rendering leaves to the platform. -/
structure Platform where
  /-- `repr` of a double. -/
  repr : Double → Str
  /-- The number of digits below which `strftime` fills up a year. -/
  yearWidth : ℕ

mutual

/-- The value without the object fields that hold none, at every depth. -/
def Value.stripped : Value → Value
  | .array items => .array (strippedItems items)
  | .set items => .set (strippedItems items)
  | .object fields => .object (strippedFields fields)
  | .range start stop => .range (strippedBound start) (strippedBound stop)
  | v => v

def strippedItems : List Value → List Value
  | [] => []
  | v :: vs => v.stripped :: strippedItems vs

def strippedFields : List (Str × Value) → List (Str × Value)
  | [] => []
  | (name, v) :: fields =>
      if v.isNone then strippedFields fields else (name, v.stripped) :: strippedFields fields

def strippedBound : Bound Value → Bound Value
  | .unbounded => .unbounded
  | .included v => .included v.stripped
  | .excluded v => .excluded v.stripped

end

theorem strippedItems_eq (vs : List Value) : strippedItems vs = vs.map Value.stripped := by
  induction vs with
  | nil => rfl
  | cons v vs ih => rw [strippedItems, ih, List.map_cons]

theorem strippedFields_eq (fields : List (Str × Value)) : strippedFields fields =
    Dict.mapValues Value.stripped (fields.filter fun field => !field.2.isNone) := by
  induction fields with
  | nil => rfl
  | cons field fields ih =>
      rw [strippedFields, ih]
      split
      · next hnone => rw [List.filter_cons_of_neg (by simp [hnone])]
      · next hheld =>
        rw [List.filter_cons_of_pos (by simpa using hheld)]
        rfl

/-- Two objects without their absent fields are the same when their other fields are, in name
order. -/
theorem same_stripped_object {f g : List (Str × Value)} (hf : Dict.Keyed f) (hg : Dict.Keyed g)
    (h : List.Forall₂ (fun x y => x.1 = y.1 ∧ x.2.stripped.Same y.2.stripped)
      ((Dict.sorted f).filter fun field => !field.2.isNone)
      ((Dict.sorted g).filter fun field => !field.2.isNone)) :
    (Value.object f).stripped.Same (Value.object g).stripped := by
  have hcanon : ∀ {d : List (Str × Value)}, Dict.Keyed d → (Value.object d).stripped.canon =
      .object (Dict.mapValues (fun v => v.stripped.canon)
        ((Dict.sorted d).filter fun field => !field.2.isNone)) := by
    intro d hd
    rw [Value.stripped, Value.canon, canonFields_eq, strippedFields_eq, Dict.sorted_mapValues,
      Dict.sorted_mapValues, Dict.sorted_filter hd, Dict.mapValues, Dict.mapValues, List.map_map]
    rfl
  rw [Value.Same, hcanon hf, hcanon hg, Value.object.injEq, Dict.mapValues, Dict.mapValues,
    ← List.forall₂_eq_eq_eq, List.forall₂_map_left_iff, List.forall₂_map_right_iff]
  exact h.imp fun _ _ hentry => Prod.ext hentry.1 hentry.2

/-! ### Slices -/

/-- `s[:i]`. -/
def sliceTo (s : Str) (i : ℤ) : Str :=
  if 0 ≤ i then s.take i.toNat else s.take (s.length - i.natAbs)

/-- `s[i:]`. -/
def sliceFrom (s : Str) (i : ℤ) : Str :=
  if 0 ≤ i then s.drop i.toNat else s.drop (s.length - i.natAbs)

/-- `s.replace(c, new)`. -/
def replaced (c : CodePoint) (new s : Str) : Str := s.flatMap fun d => if d = c then new else [d]

namespace Events

variable (platform : Platform)

/-- `_quoted`. -/
def quoted (text : Str) : Str :=
  "'" ++ replaced QUOTE "\\'" (replaced BACKSLASH "\\\\" text) ++ "'"

/-- The sign and the digits of a decimal. -/
def numeral (mantissa scale : ℤ) : Str :=
  let sign := if mantissa < 0 then ofString "-" else []
  if scale = 0 then sign ++ digits mantissa.natAbs
  else
    let digits := rjust (scale + 1).toNat (digit 0) (digits mantissa.natAbs)
    sign ++ sliceTo digits (-scale) ++ "." ++ sliceFrom digits (-scale)

/-- `_decimal`. -/
def decimal (mantissa scale : ℤ) : Str := "dec " ++ numeral mantissa scale

/-- `f"{z:0{width}d}"`. -/
def zeroFilled (width : ℕ) (z : ℤ) : Str :=
  if z < 0 then "-" ++ padded (width - 1) z.natAbs else padded width z.natAbs

/-- An instant, with a fraction unless it is on the second. -/
def instantText (m : Moment) (nanos : ℤ) : Str :=
  stamp platform.yearWidth m ++ (if nanos ≠ 0 then "." ++ zeroFilled 9 nanos else []) ++ "Z"

/-- `_instant`. -/
def instant (seconds nanos : ℤ) : Except NotAnEvent Str :=
  match moment seconds with
  | none => .error ⟨"a datetime outside the years 1 to 9999"⟩
  | some m => .ok (instantText platform m nanos)

/-- A field that is left out if it holds none. -/
def held {α : Type} (f : Value → α) (v : Value) : Option α := if v.isNone then none else some (f v)

/-- The fields in name order, without the absent ones. -/
def present {α : Type} (fields : List (Str × Option α)) : List (Str × α) :=
  (Dict.sorted fields).filterMap fun field => field.2.map (Prod.mk field.1)

mutual

/-- `literal`. -/
def literal : Value → Except NotAnEvent Str
  | .nullValue => .ok "NULL"
  | .bool value => .ok (if value then "true" else "false")
  | .integer value => .ok (str value)
  | .float value =>
      if isFinite value then .ok (platform.repr value)
      else .error ⟨"a float that is not finite has no spelling"⟩
  | .decimal mantissa scale => .ok (decimal mantissa scale)
  | .text value => .ok (quoted value)
  | .datetime seconds nanos => do
      let instant ← instant platform seconds nanos
      return "datetime '" ++ instant ++ "'"
  | .uuid value => .ok ("uuid '" ++ hyphenated (hex value) ++ "'")
  | .array items => do
      if items.any Value.isNone then
        .error ⟨"an array cannot hold an absence"⟩
      let parts ← (literals items).mapM id
      return "[" ++ join ", " parts ++ "]"
  | .object fields => do
      let parts ← (present (literalFields fields)).mapM fun field => do
        let held ← field.2
        return quoted field.1 ++ ": " ++ held
      return if parts ≠ [] then "\x7b " ++ join ", " parts ++ " \x7d" else "\x7b\x7d"
  | _ => .error
      ⟨"an event carries null, booleans, numbers, strings, datetimes, uuids, arrays and objects"⟩

def literals : List Value → List (Except NotAnEvent Str)
  | [] => []
  | item :: items => literal item :: literals items

def literalFields : List (Str × Value) → List (Str × Option (Except NotAnEvent Str))
  | [] => []
  | (name, value) :: fields =>
      (name, if value.isNone then none else some (literal value)) :: literalFields fields

end

/-- `batch`. -/
def batch (events : List Value) : Except NotAnEvent Str := do
  let rendered ← events.mapM fun event =>
    match event with
    | .object _ => literal platform event
    | _ => .error ⟨"an event is an object"⟩
  return "[" ++ join ", " rendered ++ "]"

/-! ### The literals behind a text -/

mutual

/-- The literal that a value is spelled as. -/
def spelling : Value → Literal
  | .nullValue => .word "NULL"
  | .bool value => .word (if value then "true" else "false")
  | .integer value => .word (str value)
  | .float value => .word (platform.repr value)
  | .decimal mantissa scale => .tagged "dec" (numeral mantissa scale)
  | .text value => .text value
  | .datetime seconds nanos =>
      .taggedText "datetime" (((moment seconds).map (instantText platform · nanos)).getD [])
  | .uuid value => .taggedText "uuid" (hyphenated (hex value))
  | .array items => .array (spellings items)
  | .object fields => .object (present (spellingFields fields))
  | _ => .text []

def spellings : List Value → List Literal
  | [] => []
  | item :: items => spelling item :: spellings items

def spellingFields : List (Str × Value) → List (Str × Option Literal)
  | [] => []
  | (name, value) :: fields =>
      (name, if value.isNone then none else some (spelling value)) :: spellingFields fields

end

theorem literals_eq (items : List Value) : literals platform items = items.map (literal platform) := by
  induction items with
  | nil => rfl
  | cons item items ih => rw [literals, ih, List.map_cons]

theorem spellings_eq (items : List Value) :
    spellings platform items = items.map (spelling platform) := by
  induction items with
  | nil => rfl
  | cons item items ih => rw [spellings, ih, List.map_cons]

theorem literalFields_eq (fields : List (Str × Value)) :
    literalFields platform fields = Dict.mapValues (held (literal platform)) fields := by
  induction fields with
  | nil => rfl
  | cons field fields ih => rw [literalFields, ih]; rfl

theorem spellingFields_eq (fields : List (Str × Value)) :
    spellingFields platform fields = Dict.mapValues (held (spelling platform)) fields := by
  induction fields with
  | nil => rfl
  | cons field fields ih => rw [spellingFields, ih]; rfl

/-- The fields of an object that are spelled. -/
def kept (fields : List (Str × Value)) : List (Str × Value) :=
  (Dict.sorted fields).filter fun field => !field.2.isNone

theorem present_held {α : Type} (f : Value → α) (fields : List (Str × Value)) :
    present (Dict.mapValues (held f) fields) = Dict.mapValues f (kept fields) := by
  rw [present, Dict.sorted_mapValues, kept]
  induction Dict.sorted fields with
  | nil => rfl
  | cons field fields ih =>
      rw [Dict.mapValues, List.map_cons, ← Dict.mapValues]
      by_cases hnone : field.2.isNone = true
      · rw [List.filterMap_cons_none (by simp [held, hnone]), ih,
          List.filter_cons_of_neg (by simp [hnone])]
      · rw [List.filterMap_cons_some (b := (field.1, f field.2)) (by simp [held, hnone]), ih,
          List.filter_cons_of_pos (by simpa using hnone)]
        rfl

theorem mem_kept {fields : List (Str × Value)} {field : Str × Value} :
    field ∈ kept fields ↔ field ∈ fields ∧ field.2.isNone = false := by
  rw [kept, List.mem_filter, Dict.mem_sorted, Bool.not_eq_true']

/-! ### Quotes, signs and digits -/

/-- **Two replacements, one after the other, escape a text.** -/
theorem quoted_eq (text : Str) : quoted text = Literals.quoted text := by
  have hne : BACKSLASH ≠ QUOTE := by decide
  have hescape : replaced QUOTE "\\'" (replaced BACKSLASH "\\\\" text) =
      text.flatMap Literals.escape := by
    rw [replaced, replaced, List.flatMap_assoc]
    refine congrArg (List.flatMap · text) (funext fun c => ?_)
    by_cases hback : c = BACKSLASH
    · rw [if_pos hback, Literals.escape, if_pos (Or.inl hback), hback]
      decide
    · rw [if_neg hback, List.flatMap_singleton, Literals.escape]
      by_cases hquote : c = QUOTE
      · rw [if_pos hquote, if_pos (Or.inr hquote), hquote]
        decide
      · rw [if_neg hquote, if_neg (not_or.mpr ⟨hback, hquote⟩)]
  rw [quoted, hescape, Literals.quoted]
  rfl

/-- `repr` writes a finite double as a plain numeral with a point or an exponent, and no two
alike. -/
structure PlainRepr : Prop where
  injective : ∀ d e, isFinite d → isFinite e → platform.repr d = platform.repr e → d = e
  plain : ∀ d, isFinite d → ∀ c ∈ platform.repr d,
    IsDigit c ∨ c.val = 0x2B ∨ c.val = 0x2D ∨ c.val = 0x2E ∨ c.val = 0x65
  marked : ∀ d, isFinite d → ∃ c ∈ platform.repr d, c.val = 0x2E ∨ c.val = 0x65

theorem isBare_of_isDigit {c : CodePoint} (h : IsDigit c) : Literals.IsBare c := .inl (.inr h)

theorem isBare_of_mem_str {z : ℤ} : ∀ c ∈ str z, IsDigit c ∨ c.val = 0x2D := by
  intro c hc
  rw [str] at hc
  split at hc
  · rcases List.mem_append.mp hc with hc | hc
    · obtain rfl : c = codePoint 0x2D := List.mem_singleton.mp hc
      exact Or.inr rfl
    · exact Or.inl (isDigit_of_mem_digits c hc)
  · exact Or.inl (isDigit_of_mem_digits c hc)

theorem str_ne_nil (z : ℤ) : str z ≠ [] := by
  rw [str]
  split
  · exact List.cons_ne_nil _ _
  · exact digits_ne_nil _

/-- The digits of a decimal stand where its scale puts the point. -/
theorem numeral_eq (mantissa : ℤ) (scale : ℕ) :
    numeral mantissa scale = positional mantissa scale := by
  cases scale with
  | zero =>
      rw [numeral, if_pos Int.natCast_zero, positional, whole_zero, fraction_zero, fractionText,
        if_pos rfl, List.append_nil]
      rfl
  | succ scale =>
      have hwidth : (((scale + 1 : ℕ) : ℤ) + 1).toNat = scale + 1 + 1 := rfl
      have hneg : ¬ 0 ≤ -((scale + 1 : ℕ) : ℤ) := by omega
      have habs : (-((scale + 1 : ℕ) : ℤ)).natAbs = scale + 1 := by omega
      rw [numeral, if_neg (by omega), positional, fractionText,
        if_neg (fraction_ne_nil (Nat.succ_pos scale))]
      simp only [sliceTo, sliceFrom, if_neg hneg, hwidth, habs, List.append_assoc]
      rfl

/-- **A decimal is known by its numeral.** -/
theorem numeral_injective {m m' : ℤ} {k k' : ℕ} (h : numeral m k = numeral m' k') :
    m = m' ∧ k = k' := by
  rw [numeral_eq, numeral_eq] at h
  exact positional_injective h

/-! ### Instants -/

theorem zeroFilled_of_nonneg {width : ℕ} {z : ℤ} (h : 0 ≤ z) :
    zeroFilled width z = padded width z.natAbs := if_neg (Int.not_lt.mpr h)

/-- **An instant is known by its text.** -/
theorem instantText_injective {m m' : Moment} {nanos nanos' : ℤ} (hpos : 0 ≤ nanos)
    (hpos' : 0 ≤ nanos') (h : instantText platform m nanos = instantText platform m' nanos') :
    m = m' ∧ nanos = nanos' := by
  have hzone : ∀ c ∈ (ofString "Z").head?, ¬ IsDigit c :=
    not_isDigit_head (c := codePoint 0x5A) (s := []) (by decide)
  have hhead : ∀ n : ℤ, ∀ c ∈ ((if n ≠ 0 then "." ++ zeroFilled 9 n else []) ++
      ofString "Z").head?, ¬ IsDigit c := by
    intro n c hc
    split at hc
    · exact not_isDigit_head (c := codePoint 0x2E) (by decide) c hc
    · exact hzone c hc
  rw [instantText, instantText, List.append_assoc, List.append_assoc] at h
  obtain ⟨rfl, hrest⟩ := stamp_append_inj (hhead nanos) (hhead nanos') h
  clear h
  refine ⟨rfl, ?_⟩
  have hpoint : ∀ {s : Str}, (ofString "." ++ s ++ ofString "Z").head? ≠
      ([] ++ ofString "Z").head? := by
    intro s h
    rw [List.append_assoc] at h
    exact absurd (Option.some.inj h) (by decide)
  rw [zeroFilled_of_nonneg hpos, zeroFilled_of_nonneg hpos'] at hrest
  split at hrest <;> split at hrest
  · rw [List.append_assoc, List.append_assoc] at hrest
    have habs := (padded_append_inj hzone hzone (List.append_cancel_left hrest)).1
    omega
  · exact absurd (congrArg List.head? hrest) hpoint
  · exact absurd (congrArg List.head? hrest.symm) hpoint
  · next hzero hzero' => rw [not_not.mp hzero, not_not.mp hzero']

/-! ### Words -/

/-- What a word stands for. -/
inductive WordKind where
  | null
  | bool
  | integer
  | float
  deriving DecidableEq

def wordKind (w : Str) : WordKind :=
  if w = "NULL" then .null
  else if w = "true" ∨ w = "false" then .bool
  else if ∀ c ∈ w, IsDigit c ∨ c.val = 0x2D then .integer
  else .float

theorem ne_word {w : Str} (h : ∀ c ∈ w, IsDigit c ∨ c.val = 0x2B ∨ c.val = 0x2D ∨ c.val = 0x2E ∨
    c.val = 0x65) : w ≠ "NULL" ∧ w ≠ "true" ∧ w ≠ "false" := by
  refine ⟨?_, ?_, ?_⟩
  · rintro rfl
    exact absurd (h (codePoint 0x4E) (by decide)) (by decide)
  · rintro rfl
    exact absurd (h (codePoint 0x74) (by decide)) (by decide)
  · rintro rfl
    exact absurd (h (codePoint 0x66) (by decide)) (by decide)

theorem wordKind_null : wordKind "NULL" = .null := by decide

theorem wordKind_bool (b : Bool) : wordKind (if b then "true" else "false") = .bool := by
  cases b <;> decide

theorem wordKind_str (z : ℤ) : wordKind (str z) = .integer := by
  obtain ⟨hnull, htrue, hfalse⟩ := ne_word fun c hc => (isBare_of_mem_str c hc).imp id
    fun h : c.val = 0x2D => .inr (.inl h)
  rw [wordKind, if_neg hnull, if_neg (not_or.mpr ⟨htrue, hfalse⟩), if_pos isBare_of_mem_str]

variable {platform}

theorem wordKind_repr (hrepr : PlainRepr platform) {d : Double} (hd : isFinite d) :
    wordKind (platform.repr d) = .float := by
  obtain ⟨hnull, htrue, hfalse⟩ := ne_word (hrepr.plain d hd)
  rw [wordKind, if_neg hnull, if_neg (not_or.mpr ⟨htrue, hfalse⟩), if_neg]
  intro hall
  obtain ⟨c, hc, hmark⟩ := hrepr.marked d hd
  have := hall c hc
  rw [IsDigit] at this
  omega

/-! ### What an event carries -/

/-- A value that an event carries, and that the codec could write. -/
inductive Carried : Value → Prop
  | null : Carried .nullValue
  | bool (b : Bool) : Carried (.bool b)
  | integer (z : ℤ) : Carried (.integer z)
  | float {d : Double} (h : isFinite d) : Carried (.float d)
  | decimal (mantissa : ℤ) (scale : ℕ) : Carried (.decimal mantissa scale)
  | text (s : Str) : Carried (.text s)
  | datetime {seconds nanos : ℤ} {m : Moment} (h : moment seconds = some m) (hpos : 0 ≤ nanos) :
      Carried (.datetime seconds nanos)
  | uuid (raw : Bytes) : Carried (.uuid raw)
  | array {items : List Value} (h : ∀ v ∈ items, Carried v) : Carried (.array items)
  | object {fields : List (Str × Value)} (hkeyed : Dict.Keyed fields)
      (h : ∀ field ∈ kept fields, Carried field.2) : Carried (.object fields)

variable (platform)

theorem carried_object {fields : List (Str × Value)} (hkeyed : Dict.Keyed fields)
    (hfields : ∀ field ∈ fields, ∀ s, literal platform field.2 = .ok s → Carried field.2) {s : Str}
    (h : literal platform (.object fields) = .ok s) : Carried (.object fields) := by
  rw [literal] at h
  obtain ⟨parts, hparts, -⟩ := Sequences.bind_eq_ok.mp h
  rw [literalFields_eq, present_held, Sequences.mapM_eq_ok, Dict.mapValues,
    List.forall₂_map_left_iff] at hparts
  refine .object hkeyed fun field hmem => ?_
  obtain ⟨part, -, hpart⟩ := exists_of_mem_forall₂ hparts.flip hmem
  obtain ⟨text, htext, -⟩ := Sequences.bind_eq_ok.mp hpart
  exact hfields field (mem_kept.mp hmem).1 text htext

/-- **What an event carries.** -/
theorem carried_of_literal {v : Value} (hv : v.Valid) : ∀ {s : Str},
    literal platform v = .ok s → Carried v := by
  induction v using Value.induction with
  | step v ih =>
      intro s h
      cases v with
      | nullValue => exact .null
      | bool b => exact .bool b
      | integer z => exact .integer z
      | float d =>
          rw [literal] at h
          split at h
          · next hd => exact .float hd
          · cases h
      | decimal mantissa scale =>
          obtain ⟨scale, rfl⟩ := Int.eq_ofNat_of_zero_le hv.decimal.1
          exact .decimal mantissa scale
      | text s => exact .text s
      | datetime seconds nanos =>
          rw [literal, instant] at h
          cases hm : moment seconds with
          | none =>
              rw [hm] at h
              cases h
          | some m => exact .datetime hm hv.datetime.2.1
      | uuid raw => exact .uuid raw
      | array items =>
          rw [literal] at h
          split at h
          · cases h
          · obtain ⟨parts, hparts, -⟩ := Sequences.bind_eq_ok.mp h
            rw [Sequences.mapM_eq_ok, literals_eq, List.forall₂_map_left_iff] at hparts
            refine .array fun v hmem => ?_
            obtain ⟨s, -, hs⟩ := exists_of_mem_forall₂ hparts.flip hmem
            exact ih v hmem (hv.array v hmem) hs
      | object fields =>
          exact carried_object platform hv.keyed.1 (fun field hmem s =>
            ih field.2 (List.mem_map_of_mem hmem) (hv.object field hmem)) h
      | _ => cases h

theorem isBare_of_plain {c : CodePoint} (h : IsDigit c ∨ c.val = 0x2B ∨ c.val = 0x2D ∨
    c.val = 0x2E ∨ c.val = 0x65) : Literals.IsBare c := by
  rw [IsDigit] at h
  rw [Literals.IsBare, IsWord, IsLetter, IsDigit]
  omega

theorem isBare_of_mem_numeral {mantissa : ℤ} {scale : ℕ} :
    ∀ c ∈ numeral mantissa scale, Literals.IsBare c := by
  have hbare : ∀ {c : CodePoint} {n : ℕ}, c = codePoint n → Literals.IsBare (codePoint n) →
      Literals.IsBare c := fun h hn => h ▸ hn
  intro c hc
  rw [numeral_eq, positional, signText, fractionText, List.mem_append, List.mem_append] at hc
  rcases hc with hc | hc | hc
  · split at hc
    · exact hbare (n := 0x2D) (List.mem_singleton.mp hc) (by decide)
    · cases hc
  · exact isBare_of_isDigit (isDigit_of_mem_whole c hc)
  · split at hc
    · cases hc
    · rcases List.mem_append.mp hc with hc | hc
      · exact hbare (n := 0x2E) (List.mem_singleton.mp hc) (by decide)
      · exact isBare_of_isDigit (isDigit_of_mem_fraction c hc)

theorem numeral_ne_nil (mantissa : ℤ) (scale : ℕ) : numeral mantissa scale ≠ [] := by
  rw [numeral_eq, positional]
  exact List.append_ne_nil_of_right_ne_nil _
    (List.append_ne_nil_of_left_ne_nil (whole_ne_nil _ _) _)

/-- A spelling is well formed. -/
theorem ok_spelling {platform : Platform} (hrepr : PlainRepr platform) {v : Value}
    (hv : Carried v) : (spelling platform v).Ok := by
  induction hv with
  | null => exact ⟨by decide, forall_mem_of_all (by decide)⟩
  | bool b =>
      cases b with
      | false => exact ⟨by decide, forall_mem_of_all (w := "false") (by decide)⟩
      | true => exact ⟨by decide, forall_mem_of_all (w := "true") (by decide)⟩
  | integer z =>
      exact ⟨str_ne_nil z, fun c hc => isBare_of_plain ((isBare_of_mem_str c hc).imp id
        fun h : c.val = 0x2D => .inr (.inl h))⟩
  | @float d h =>
      obtain ⟨c, hc, -⟩ := hrepr.marked d h
      exact ⟨List.ne_nil_of_mem hc, fun c hc => isBare_of_plain (hrepr.plain d h c hc)⟩
  | decimal mantissa scale =>
      exact ⟨⟨by decide, forall_mem_of_all (w := "dec") (by decide)⟩,
        numeral_ne_nil mantissa scale, isBare_of_mem_numeral⟩
  | text s => trivial
  | datetime h hpos => exact ⟨by decide, forall_mem_of_all (w := "datetime") (by decide)⟩
  | uuid raw => exact ⟨by decide, forall_mem_of_all (w := "uuid") (by decide)⟩
  | array h ih =>
      rw [spelling, spellings_eq, Literal.Ok, Literals.Literal.okItems_iff, List.forall_mem_map]
      exact ih
  | object hkeyed h ih =>
      rw [spelling, spellingFields_eq, present_held, Literal.Ok, Literals.Literal.okFields_iff,
        Dict.mapValues, List.forall_mem_map]
      exact ih

/-- A character that needs no escape. -/
def Unescaped (c : CodePoint) : Prop := c ≠ BACKSLASH ∧ c ≠ QUOTE

instance (c : CodePoint) : Decidable (Unescaped c) := instDecidableAnd

/-- A text that needs none. -/
def IsPlain (s : Str) : Prop := ∀ c ∈ s, Unescaped c

theorem isPlain_append {s t : Str} : IsPlain (s ++ t) ↔ IsPlain s ∧ IsPlain t :=
  List.forall_mem_append

theorem isPlain_of_subset {s t : Str} (ht : IsPlain t) (h : ∀ c ∈ s, c ∈ t) : IsPlain s :=
  fun c hc => ht c (h c hc)

theorem quoted_plain {s : Str} (h : IsPlain s) : "'" ++ s ++ "'" = Literals.quoted s := by
  have hescape : s.flatMap Literals.escape = s.flatMap fun c => [c] :=
    List.flatMap_congr fun c hc => if_neg (not_or.mpr (h c hc))
  rw [Literals.quoted, hescape, List.flatMap_singleton']
  rfl

theorem isPlain_padded (width n : ℕ) : IsPlain (padded width n) := by
  have hdigit : ¬ IsDigit BACKSLASH ∧ ¬ IsDigit QUOTE := by decide
  intro c hc
  have := isDigit_of_mem_padded c hc
  exact ⟨fun h => hdigit.1 (h ▸ this), fun h => hdigit.2 (h ▸ this)⟩

theorem isPlain_instantText (m : Moment) {nanos : ℤ} (hpos : 0 ≤ nanos) :
    IsPlain (instantText platform m nanos) := by
  have hhyphen : IsPlain "-" := forall_mem_of_all (by decide)
  have hcolon : IsPlain ":" := forall_mem_of_all (by decide)
  have htime : IsPlain "T" := forall_mem_of_all (by decide)
  have hpoint : IsPlain "." := forall_mem_of_all (by decide)
  have hzone : IsPlain "Z" := forall_mem_of_all (by decide)
  have hfraction : IsPlain (if nanos ≠ 0 then ofString "." ++ zeroFilled 9 nanos else []) := by
    split
    · rw [zeroFilled_of_nonneg hpos]
      exact isPlain_append.mpr ⟨hpoint, isPlain_padded _ _⟩
    · exact List.forall_mem_nil _
  simp only [instantText, stamp, isPlain_append, hhyphen, hcolon, htime, hzone, hfraction,
    isPlain_padded, and_self]

theorem isPlain_hyphenated (raw : Bytes) : IsPlain (hyphenated (hex raw)) := by
  have hdigit : ∀ d < 16, Unescaped (hexDigit d) := by decide
  have hhex : IsPlain (hex raw) := by
    intro c hc
    obtain ⟨d, hd, rfl⟩ := exists_of_mem_hex hc
    exact hdigit d hd
  have hhyphen : IsPlain "-" := forall_mem_of_all (by decide)
  simp only [hyphenated, isPlain_append, hhyphen, and_true,
    isPlain_of_subset hhex fun c hc => List.mem_of_mem_take hc,
    isPlain_of_subset hhex fun c hc => List.mem_of_mem_drop hc,
    isPlain_of_subset hhex fun c hc => List.mem_of_mem_take (List.mem_of_mem_drop hc)]

/-- **What is rendered is a literal.** -/
theorem literal_eq_ok {v : Value} (hv : Carried v) :
    literal platform v = .ok (spelling platform v).spelled := by
  induction hv with
  | null => rfl
  | bool b => rfl
  | integer z => rfl
  | float h =>
      rw [literal, if_pos h]
      rfl
  | decimal mantissa scale => rfl
  | text s =>
      rw [literal, quoted_eq]
      rfl
  | @datetime seconds nanos m h hpos =>
      rw [literal, instant, spelling, h, Option.map_some, Option.getD_some, Literal.spelled,
        ← quoted_plain (isPlain_instantText platform m hpos)]
      rfl
  | uuid raw =>
      rw [literal, spelling, Literal.spelled, ← quoted_plain (isPlain_hyphenated raw)]
      rfl
  | @array items h ih =>
      have hheld : ¬ items.any Value.isNone = true := by
        intro hany
        obtain ⟨v, hv, hnone⟩ := List.any_eq_true.mp hany
        cases h v hv <;> cases hnone
      have hparts : (items.map (literal platform)).mapM id =
          .ok (items.map fun v => (spelling platform v).spelled) := by
        rw [Sequences.mapM_eq_ok, List.forall₂_map_left_iff, List.forall₂_map_right_iff,
          List.forall₂_same]
        exact ih
      rw [literal, if_neg hheld, literals_eq, spelling, Literal.spelled, spellings_eq,
        Literals.Literal.texts_eq, List.map_map]
      exact Sequences.bind_eq_ok.mpr ⟨_, hparts, rfl⟩
  | @object fields hkeyed h ih =>
      have hparts : (Dict.mapValues (literal platform) (kept fields)).mapM (fun field => do
          let held ← field.2
          return quoted field.1 ++ ": " ++ held) = .ok (((kept fields).map fun field =>
            (field.1, spelling platform field.2)).map Literals.Literal.fieldText) := by
        rw [Sequences.mapM_eq_ok, Dict.mapValues, List.forall₂_map_left_iff, List.map_map,
          List.forall₂_map_right_iff, List.forall₂_same]
        intro field hmem
        rw [ih field hmem, quoted_eq]
        rfl
      rw [literal, literalFields_eq, present_held, spelling, Literal.spelled, spellingFields_eq,
        present_held, Literals.Literal.fieldTexts_eq]
      refine Sequences.bind_eq_ok.mpr ⟨_, hparts, ?_⟩
      rw [Dict.mapValues]
      cases ((kept fields).map fun field => (field.1, spelling platform field.2)).map
        Literals.Literal.fieldText <;> rfl

theorem same_stripped_array {items items' : List Value}
    (h : List.Forall₂ (fun v w => v.stripped.Same w.stripped) items items') :
    (Value.array items).stripped.Same (Value.array items').stripped := by
  rw [Value.stripped, Value.stripped, strippedItems_eq, strippedItems_eq, Value.Same, Value.canon,
    Value.canon, canonItems_eq, canonItems_eq, List.map_map, List.map_map, Value.array.injEq,
    ← List.forall₂_eq_eq_eq, List.forall₂_map_left_iff, List.forall₂_map_right_iff]
  exact h

/-- **A value is known by its spelling**, but for absent fields. -/
theorem spelling_injective {platform : Platform} (hrepr : PlainRepr platform) {v : Value}
    (hv : Carried v) : ∀ {w : Value}, Carried w → spelling platform v = spelling platform w →
      v.stripped.Same w.stripped := by
  have hword : ∀ {v w : Str}, Literal.word v = .word w → wordKind v = wordKind w :=
    fun h => congrArg wordKind (Literal.word.inj h)
  induction hv with
  | null =>
      intro w hw h
      cases hw with
      | null => rfl
      | bool b => cases wordKind_null.symm.trans ((hword h).trans (wordKind_bool b))
      | integer z => cases wordKind_null.symm.trans ((hword h).trans (wordKind_str z))
      | float hd => cases wordKind_null.symm.trans ((hword h).trans (wordKind_repr hrepr hd))
      | _ => cases h
  | bool b =>
      intro w hw h
      cases hw with
      | null => cases (wordKind_bool b).symm.trans ((hword h).trans wordKind_null)
      | bool b' =>
          have hne : ofString "true" ≠ ofString "false" := by decide
          cases b <;> cases b'
          · rfl
          · exact absurd (Literal.word.inj h).symm hne
          · exact absurd (Literal.word.inj h) hne
          · rfl
      | integer z => cases (wordKind_bool b).symm.trans ((hword h).trans (wordKind_str z))
      | float hd => cases (wordKind_bool b).symm.trans ((hword h).trans (wordKind_repr hrepr hd))
      | _ => cases h
  | integer z =>
      intro w hw h
      cases hw with
      | null => cases (wordKind_str z).symm.trans ((hword h).trans wordKind_null)
      | bool b => cases (wordKind_str z).symm.trans ((hword h).trans (wordKind_bool b))
      | integer z' =>
          obtain rfl := str_injective (Literal.word.inj h)
          rfl
      | float hd => cases (wordKind_str z).symm.trans ((hword h).trans (wordKind_repr hrepr hd))
      | _ => cases h
  | @float d hd =>
      intro w hw h
      have hkind := wordKind_repr hrepr hd
      cases hw with
      | null => cases hkind.symm.trans ((hword h).trans wordKind_null)
      | bool b => cases hkind.symm.trans ((hword h).trans (wordKind_bool b))
      | integer z => cases hkind.symm.trans ((hword h).trans (wordKind_str z))
      | float hd' =>
          obtain rfl := hrepr.injective _ _ hd hd' (Literal.word.inj h)
          rfl
      | _ => cases h
  | decimal mantissa scale =>
      intro w hw h
      cases hw with
      | decimal mantissa' scale' =>
          obtain ⟨rfl, rfl⟩ := numeral_injective (Literal.tagged.inj h).2
          rfl
      | _ => cases h
  | text s =>
      intro w hw h
      cases hw with
      | text s' =>
          cases h
          rfl
      | _ => cases h
  | @datetime seconds nanos m hm hpos =>
      intro w hw h
      cases hw with
      | @datetime seconds' nanos' m' hm' hpos' =>
          have htext := (Literal.taggedText.inj h).2
          rw [hm, hm'] at htext
          obtain ⟨rfl, rfl⟩ := instantText_injective platform hpos hpos' htext
          rw [moment_injective hm hm']
          rfl
      | uuid raw => exact absurd (Literal.taggedText.inj h).1 (by decide)
      | _ => cases h
  | uuid raw =>
      intro w hw h
      cases hw with
      | datetime hm hpos => exact absurd (Literal.taggedText.inj h).1 (by decide)
      | uuid raw' =>
          obtain rfl := hyphenated_hex_injective (Literal.taggedText.inj h).2
          rfl
      | _ => cases h
  | @array items h ih =>
      intro w hw hspell
      cases hw with
      | @array items' h' =>
          have hitems := Literal.array.inj hspell
          rw [spellings_eq, spellings_eq] at hitems
          exact same_stripped_array (Sequences.map_eq_map_of hitems fun v hv w hw heq =>
            ih v hv (h' w hw) heq)
      | _ => cases hspell
  | @object fields hkeyed h ih =>
      intro w hw hspell
      cases hw with
      | @object fields' hkeyed' h' =>
          have hfields := Literal.object.inj hspell
          rw [spellingFields_eq, spellingFields_eq, present_held, present_held] at hfields
          refine same_stripped_object hkeyed hkeyed' (Sequences.map_eq_map_of hfields ?_)
          intro field hmem other hmem' heq
          obtain ⟨hname, hheld⟩ := Prod.mk.inj heq
          exact ⟨hname, ih field hmem (h' other hmem') hheld⟩
      | _ => cases hspell

/-! ### Batches -/

/-- The events of a batch that is rendered, and the batch. -/
theorem batch_eq_ok {events : List Value} (hvalid : ∀ event ∈ events,
    event.Keyed ∧ ∀ v ∈ event.children, v.Valid) {body : Str} (h : batch platform events = .ok body) :
    (∀ event ∈ events, Carried event) ∧
      body = (Literal.array (events.map (spelling platform))).spelled := by
  obtain ⟨rendered, hrendered, hbody⟩ := Sequences.bind_eq_ok.mp h
  rw [Sequences.mapM_eq_ok] at hrendered
  have hcarried : ∀ event ∈ events, Carried event := by
    intro event hmem
    obtain ⟨hkeyed, hheld⟩ := hvalid event hmem
    obtain ⟨s, -, hs⟩ := exists_of_mem_forall₂ hrendered.flip hmem
    cases event with
    | object fields =>
        exact carried_object platform hkeyed.1 (fun field hfield s =>
          carried_of_literal platform (hheld field.2 (List.mem_map_of_mem hfield))) hs
    | _ => cases hs
  refine ⟨hcarried, ?_⟩
  have hrendered' : rendered = events.map fun event => (spelling platform event).spelled := by
    refine Sequences.forall₂_eq_map hrendered fun event hmem s hs => ?_
    have hok := literal_eq_ok platform (hcarried event hmem)
    cases event with
    | object fields => exact Except.ok.inj (hs.symm.trans hok)
    | _ => cases hs
  cases hbody
  rw [hrendered', Literal.spelled, Literals.Literal.texts_eq, List.map_map]
  rfl

/-- **A batch of events spells exactly those events.** -/
theorem batch_spells_its_events (hrepr : PlainRepr platform) {events events' : List Value}
    (hvalid : ∀ event ∈ events, event.Keyed ∧ ∀ v ∈ event.children, v.Valid)
    (hvalid' : ∀ event ∈ events', event.Keyed ∧ ∀ v ∈ event.children, v.Valid) {body : Str}
    (h : batch platform events = .ok body) (h' : batch platform events' = .ok body) :
    List.Forall₂ (fun v w => v.stripped.Same w.stripped) events events' := by
  obtain ⟨hcarried, hbody⟩ := batch_eq_ok platform hvalid h
  obtain ⟨hcarried', hbody'⟩ := batch_eq_ok platform hvalid' h'
  have hok : ∀ {vs : List Value}, (∀ v ∈ vs, Carried v) →
      (Literal.array (vs.map (spelling platform))).Ok := by
    intro vs hvs
    rw [Literal.Ok, Literals.Literal.okItems_iff, List.forall_mem_map]
    exact fun v hv => ok_spelling hrepr (hvs v hv)
  obtain ⟨heq, -⟩ := Literals.Literal.spelled_append_inj _ (hok hcarried) (hok hcarried')
    (show Literals.Literal.Ends [] from trivial) (show Literals.Literal.Ends [] from trivial)
    (by rw [← hbody, ← hbody'])
  exact Sequences.map_eq_map_of (Literal.array.inj heq) fun v hv w hw hspell =>
    spelling_injective hrepr (hcarried v hv) (hcarried' w hw) hspell

/-- A platform with plain numerals; a half and one is spelled as everywhere. -/
def plainPlatform : Platform where
  repr d := if d = 0x3FF8000000000000 then "1.5" else digits d.toNat ++ "e0"
  yearWidth := 4

theorem plainPlatform_plain : PlainRepr plainPlatform := by
  have hpoint : ∀ n : ℕ, ofString "1.5" ≠ digits n ++ "e0" := by
    intro n h
    have hmem : codePoint 0x2E ∈ digits n ++ ofString "e0" := h ▸ by decide
    rcases List.mem_append.mp hmem with hmem | hmem
    · exact absurd (isDigit_of_mem_digits _ hmem) (by decide)
    · exact absurd hmem (by decide)
  refine ⟨fun d e _ _ h => ?_, fun d _ c hc => ?_, fun d _ => ?_⟩
  · simp only [plainPlatform] at h
    split at h <;> split at h
    · next hd he => rw [hd, he]
    · exact absurd h (hpoint _)
    · exact absurd h.symm (hpoint _)
    · exact UInt64.toNat_inj.mp (digits_injective (List.append_cancel_right h))
  · simp only [plainPlatform] at hc
    split at hc
    · exact forall_mem_of_all (P := fun c => IsDigit c ∨ c.val = 0x2B ∨ c.val = 0x2D ∨
        c.val = 0x2E ∨ c.val = 0x65) (by decide) c hc
    · rcases List.mem_append.mp hc with hc | hc
      · exact .inl (isDigit_of_mem_digits c hc)
      · exact forall_mem_of_all (P := fun c => IsDigit c ∨ c.val = 0x2B ∨ c.val = 0x2D ∨
          c.val = 0x2E ∨ c.val = 0x65) (by decide) c hc
  · simp only [plainPlatform]
    split
    · exact ⟨codePoint 0x2E, by decide, by decide⟩
    · exact ⟨codePoint 0x65, List.mem_append_right _ (by decide), by decide⟩

/-- An absent field leaves no trace. -/
theorem absent_field_spells_nothing :
    List.Forall₂ (fun v w : Value => v.stripped.Same w.stripped)
      [Value.object [("n", .float 0x3FF8000000000000), ("gone", .noneValue)]]
      [Value.object [("n", .float 0x3FF8000000000000)]] :=
  @batch_spells_its_events plainPlatform plainPlatform_plain
    [Value.object [("n", .float 0x3FF8000000000000), ("gone", .noneValue)]]
    [Value.object [("n", .float 0x3FF8000000000000)]]
    (List.forall_mem_singleton.mpr ⟨⟨by decide, trivial, trivial, trivial⟩,
      List.forall_mem_cons.mpr ⟨⟨trivial, _, rfl⟩, List.forall_mem_singleton.mpr ⟨trivial, _, rfl⟩⟩⟩)
    (List.forall_mem_singleton.mpr ⟨⟨by decide, trivial, trivial⟩,
      List.forall_mem_singleton.mpr ⟨trivial, _, rfl⟩⟩)
    "[\x7b 'n': 1.5 \x7d]" (by decide) (by decide)

end Events

end TessariDB
