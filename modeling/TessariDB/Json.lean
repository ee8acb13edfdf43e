import TessariDB.Dict
import TessariDB.Timestamps

/-!
# JSON as the Language Reads It

What `json.loads` makes of a document, what reading it may raise, and the parts of the language
and its library that the readers rest on. `Interpreter` holds what depends on the Unicode version,
the platform or the settings, with what is documented of it; `Interpreter.int` is `int(s)`.

## Main results

* `Interpreter.int_digits`, `Interpreter.int_minus_digits`: ASCII digits denote what they seem to.
-/

namespace TessariDB

open ByteCodec Utf8 Text Calendar

/-! ### Documents -/

/-- A JSON document; the members of an object are a `dict`. -/
inductive Json where
  | null
  | bool (value : Bool)
  | int (value : ℤ)
  | float (value : UInt64)
  | string (value : Str)
  | array (items : List Json)
  | object (members : List (Str × Json))
  deriving Repr

namespace Json

/-- `node is None`. -/
def isNull : Json → Bool
  | .null => true
  | _ => false

/-- `node == word`. -/
def isWord (word : String) : Json → Bool
  | .string value => value = ofString word
  | _ => false

end Json

/-- What reading a document raises. -/
inductive JsonRaised where
  | malformed (message : Str)
  | keyError
  | typeError
  | attributeError
  | valueError (message : Str)
  | overflowError
  | recursionError
  deriving DecidableEq, Repr

/-! ### The language -/

/-- What the model leaves to the interpreter. -/
structure Interpreter where
  /-- The value of a decimal digit of any script. -/
  decimal : CodePoint → Option ℕ
  /-- `c.isdigit()`. -/
  isdigit : CodePoint → Bool
  /-- The characters `int` takes no notice of at both ends. -/
  isspace : CodePoint → Bool
  /-- `sys.get_int_max_str_digits()`; zero is no limit. -/
  maxDigits : ℕ
  /-- `datetime.strptime(s, "%Y-%m-%dT%H:%M:%S")`, `none` for a `ValueError`. -/
  strptime : Str → Option Moment
  /-- `float(s)`, `none` for a `ValueError`. -/
  floatOfStr : Str → Option UInt64
  /-- `repr`. -/
  repr : Json → Str
  /-- What a `ValueError` says of a text that was not converted. -/
  why : Str → Str
  decimal_ascii : ∀ c : CodePoint, c.val < 0x80 →
    decimal c = if IsDigit c then some (c.val - 0x30) else none
  decimal_lt : ∀ c d, decimal c = some d → d < 10
  isdigit_decimal : ∀ c d, decimal c = some d → isdigit c = true
  isdigit_ascii : ∀ c : CodePoint, c.val < 0x80 → isdigit c = decide (IsDigit c)
  isspace_white : ∀ c : CodePoint, c.val = 0x20 ∨ (0x09 ≤ c.val ∧ c.val ≤ 0x0D) → isspace c = true
  isspace_visible : ∀ c : CodePoint, 0x21 ≤ c.val → c.val ≤ 0x7E → isspace c = false
  maxDigits_large : maxDigits = 0 ∨ 640 ≤ maxDigits
  strptime_valid : ∀ s m, strptime s = some m → m.Valid
  strptime_stamp : ∀ m : Moment, m.Valid → 1000 ≤ m.date.year →
    strptime (Timestamps.stamp 4 m) = some m

namespace Interpreter

variable (python : Interpreter)

/-- `s.strip()`. -/
def strip (s : Str) : Str := ((s.dropWhile python.isspace).reverse.dropWhile python.isspace).reverse

/-- The values of digits with single underscores between them. -/
def digitValues (behindDigit : Bool) : Str → Option (List ℕ)
  | [] => if behindDigit then some [] else none
  | c :: rest =>
      match python.decimal c with
      | some d => (digitValues true rest).map (d :: ·)
      | none => if behindDigit ∧ c.val = 0x5F then digitValues false rest else none

/-- The number behind the sign of a numeral. -/
def magnitude (s : Str) : Option ℕ :=
  match python.digitValues false s with
  | none => none
  | some ds =>
      if python.maxDigits ≠ 0 ∧ python.maxDigits < ds.length then none
      else some (ds.foldl (fun n d => 10 * n + d) 0)

/-- `int(s)`, `none` for a `ValueError`. -/
def int (s : Str) : Option ℤ :=
  match python.strip s with
  | [] => none
  | c :: rest =>
      if c.val = 0x2D then (python.magnitude rest).map fun n : ℕ => -(n : ℤ)
      else if c.val = 0x2B then (python.magnitude rest).map fun n : ℕ => (n : ℤ)
      else (python.magnitude (c :: rest)).map fun n : ℕ => (n : ℤ)

/-- So many digits are converted. -/
def Converts (count : ℕ) : Prop := python.maxDigits = 0 ∨ count ≤ python.maxDigits

instance (count : ℕ) : Decidable (python.Converts count) := instDecidableOr

theorem digitValues_digits {s : Str} (hs : ∀ c ∈ s, IsDigit c) :
    python.digitValues true s = some (s.map fun c => c.val - 0x30) := by
  induction s with
  | nil => rfl
  | cons c s ih =>
      rw [List.forall_mem_cons] at hs
      have hc := hs.1
      rw [IsDigit] at hc
      rw [digitValues, python.decimal_ascii c (by omega), if_pos hs.1, ih hs.2]
      rfl

theorem strip_eq {s : Str} (hs : ∀ c ∈ s, python.isspace c = false) : python.strip s = s := by
  have hkeep : ∀ t : Str, (∀ c ∈ t, python.isspace c = false) → t.dropWhile python.isspace = t := by
    intro t ht
    cases t with
    | nil => rfl
    | cons c t => rw [List.dropWhile_cons_of_neg (by rw [ht c List.mem_cons_self]; decide)]
  rw [strip, hkeep s hs, hkeep _ fun c hc => hs c (List.mem_reverse.mp hc), List.reverse_reverse]

theorem isspace_digit {c : CodePoint} (h : IsDigit c) : python.isspace c = false := by
  rw [IsDigit] at h
  exact python.isspace_visible c (by omega) (by omega)

theorem number_eq_foldl (s : Str) :
    (s.map fun c => c.val - 0x30).foldl (fun n d => 10 * n + d) 0 = number s := by
  rw [List.foldl_map, number]

theorem magnitude_digits {s : Str} (hne : s ≠ []) (hs : ∀ c ∈ s, IsDigit c) :
    python.magnitude s = if python.Converts s.length then some (number s) else none := by
  obtain ⟨c, t, rfl⟩ := List.exists_cons_of_ne_nil hne
  have hc := (List.forall_mem_cons.mp hs).1
  have hval := hc
  rw [IsDigit] at hval
  have hfirst : python.digitValues false (c :: t) = python.digitValues true (c :: t) := by
    rw [digitValues, digitValues, python.decimal_ascii c (by omega), if_pos hc]
  have hlimit : (python.maxDigits ≠ 0 ∧
      python.maxDigits < ((c :: t).map fun c : CodePoint => c.val - 0x30).length) ↔
      ¬ python.Converts (c :: t).length := by
    rw [Converts, List.length_map]
    omega
  rw [magnitude, hfirst, digitValues_digits python hs]
  dsimp only
  simp only [hlimit, ite_not, number_eq_foldl]

/-- **ASCII digits denote their number.** -/
theorem int_digits {s : Str} (hne : s ≠ []) (hs : ∀ c ∈ s, IsDigit c) :
    python.int s = if python.Converts s.length then some ((number s : ℕ) : ℤ) else none := by
  obtain ⟨c, t, rfl⟩ := List.exists_cons_of_ne_nil hne
  have hc := (List.forall_mem_cons.mp hs).1
  rw [IsDigit] at hc
  rw [int, strip_eq python fun d hd => isspace_digit python (hs d hd)]
  dsimp only
  rw [if_neg (by omega), if_neg (by omega), magnitude_digits python hne hs]
  split <;> rfl

/-- **A minus sign before them negates it.** -/
theorem int_minus_digits {s : Str} (hne : s ≠ []) (hs : ∀ c ∈ s, IsDigit c) :
    python.int ("-" ++ s) =
      if python.Converts s.length then some (-((number s : ℕ) : ℤ)) else none := by
  have hspace : ∀ c ∈ ofString "-" ++ s, python.isspace c = false := by
    intro c hc
    rcases List.mem_append.mp hc with hc | hc
    · rw [List.mem_singleton.mp hc]
      exact python.isspace_visible _ (by decide) (by decide)
    · exact isspace_digit python (hs c hc)
  have hminus : (codePoint 0x2D).val = 0x2D := by decide
  have hcons : ofString "-" ++ s = codePoint 0x2D :: s := rfl
  rw [int, strip_eq python hspace, hcons]
  dsimp only
  rw [if_pos hminus, magnitude_digits python hne hs]
  split <;> rfl

theorem digitValues_spec {behindDigit : Bool} {s : Str} {ds : List ℕ}
    (h : python.digitValues behindDigit s = some ds) : ds.length ≤ s.length ∧ ∀ d ∈ ds, d < 10 := by
  induction s generalizing behindDigit ds with
  | nil =>
      rw [digitValues] at h
      split at h
      · cases h
        exact ⟨Nat.le_refl _, nofun⟩
      · cases h
  | cons c s ih =>
      rw [digitValues] at h
      split at h
      · next d hd =>
        obtain ⟨ds', hds', rfl⟩ := Option.map_eq_some_iff.mp h
        obtain ⟨hlength, hall⟩ := ih hds'
        exact ⟨Nat.succ_le_succ hlength,
          List.forall_mem_cons.mpr ⟨python.decimal_lt c d hd, hall⟩⟩
      · split at h
        · obtain ⟨hlength, hall⟩ := ih h
          exact ⟨Nat.le_succ_of_le hlength, hall⟩
        · cases h

/-- So many digits denote a number below that power of ten. -/
theorem foldl_digits_lt {ds : List ℕ} (h : ∀ d ∈ ds, d < 10) :
    ds.foldl (fun n d => 10 * n + d) 0 < 10 ^ ds.length := by
  induction ds using List.reverseRecOn with
  | nil => exact Nat.one_pos
  | append_singleton ds d ih =>
      rw [List.forall_mem_append, List.forall_mem_singleton] at h
      have := ih h.1
      rw [List.foldl_append, List.foldl_cons, List.foldl_nil, List.length_append,
        List.length_singleton, pow_succ]
      omega

theorem magnitude_lt {s : Str} {n : ℕ} (h : python.magnitude s = some n) : n < 10 ^ s.length := by
  rw [magnitude] at h
  split at h
  · cases h
  · next ds hds =>
    obtain ⟨hlength, hall⟩ := digitValues_spec python hds
    split at h
    · cases h
    · cases h
      exact (foldl_digits_lt hall).trans_le (Nat.pow_le_pow_right (by omega) hlength)

theorem length_strip_le (s : Str) : (python.strip s).length ≤ s.length := by
  rw [strip, List.length_reverse]
  refine (List.dropWhile_suffix _).length_le.trans ?_
  rw [List.length_reverse]
  exact (List.dropWhile_suffix _).length_le

/-- **A numeral is below the power of ten of its length.** -/
theorem int_lt {s : Str} {z : ℤ} (h : python.int s = some z) : z.natAbs < 10 ^ s.length := by
  have hstrip := length_strip_le python s
  rw [int] at h
  cases hs : python.strip s with
  | nil =>
      rw [hs] at h
      cases h
  | cons c rest =>
      rw [hs] at h
      rw [hs, List.length_cons] at hstrip
      have hpow : 10 ^ rest.length ≤ 10 ^ s.length := Nat.pow_le_pow_right (by omega) (by omega)
      dsimp only at h
      split at h
      · obtain ⟨n, hn, rfl⟩ := Option.map_eq_some_iff.mp h
        have := magnitude_lt python hn
        omega
      split at h
      · obtain ⟨n, hn, rfl⟩ := Option.map_eq_some_iff.mp h
        have := magnitude_lt python hn
        omega
      · obtain ⟨n, hn, rfl⟩ := Option.map_eq_some_iff.mp h
        have := magnitude_lt python hn
        rw [List.length_cons] at this
        exact this.trans_le (Nat.pow_le_pow_right (by omega) hstrip)

/-- The digits of what the codec can hold are few enough. -/
theorem converts_of_le {count : ℕ} (h : count ≤ 640) : python.Converts count := by
  have := python.maxDigits_large
  rw [Converts]
  omega

end Interpreter

end TessariDB
