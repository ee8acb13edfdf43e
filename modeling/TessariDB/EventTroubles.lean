import TessariDB.Events
import TessariDB.Fits
import TessariDB.JsonRestored

/-!
# What Stops an Event

`literal` once more (`_events.py`), with all that can stop it. `TessariDB.Events` renders as if
every integer had a text; an interpreter converts only so many digits, and pads a text only to what
is a length to it. What stands in the way in a value, its *troubles*, are listed in the order in
which rendering comes upon them, and the first of them is what it ends with.

What rendering never looks at is whether a number is in its range on the wire.

## Main results

* `literal_endsWith`: rendering ends with the first trouble of a value.
* `literal_refines`: a text or a refusal is that of `Events.literal`.
* `refused_or_stored_iff`: when a value is either refused or fit to be stored.
-/

namespace TessariDB

open ByteCodec Utf8 Text Calendar Doubles Hex Timestamps Sequences

/-- What rendering an event raises. -/
inductive EventRaised where
  | notAnEvent (e : NotAnEvent)
  | valueError
  | overflowError
  deriving DecidableEq, Repr

namespace EventTroubles

variable (python : Interpreter) (platform : Platform) (maxSize : ℕ)

/-! ### Rendering -/

/-- `str(z)`. -/
def toStr (z : ℤ) : Except EventRaised Str :=
  if python.Converts (digits z.natAbs).length then .ok (str z) else .error .valueError

/-- `f"{z:0{width}d}"`. -/
def zeroFilled (width : ℕ) (z : ℤ) : Except EventRaised Str :=
  if python.Converts (digits z.natAbs).length then .ok (Events.zeroFilled width z)
  else .error .valueError

/-- An argument that is a length, `sys.maxsize` being the largest. -/
def IsSize (z : ℤ) : Prop := -maxSize - 1 ≤ z ∧ z ≤ maxSize

instance (z : ℤ) : Decidable (IsSize maxSize z) := instDecidableAnd

/-- `s.rjust(width, fill)`. -/
def rjust (width : ℤ) (fill : CodePoint) (s : Str) : Except EventRaised Str :=
  if IsSize maxSize width then .ok (Text.rjust width.toNat fill s) else .error .overflowError

/-- `_decimal`. -/
def decimal (mantissa scale : ℤ) : Except EventRaised Str := do
  let digits ← toStr python mantissa.natAbs
  let sign := if mantissa < 0 then ofString "-" else []
  if scale = 0 then return ofString "dec " ++ (sign ++ digits)
  else
    let digits ← rjust maxSize (scale + 1) (digit 0) digits
    return ofString "dec " ++ (sign ++ sliceTo digits (-scale) ++ ofString "." ++ sliceFrom digits (-scale))

/-- The fraction of an instant, if it has one. -/
def fraction (nanos : ℤ) : Except EventRaised Str := do
  if nanos ≠ 0 then
    let filled ← zeroFilled python 9 nanos
    return ofString "." ++ filled
  else return []

/-- `_instant`. -/
def instant (seconds nanos : ℤ) : Except EventRaised Str :=
  match moment seconds with
  | none => .error (.notAnEvent ⟨"a datetime outside the years 1 to 9999"⟩)
  | some m => do
      let fraction ← fraction python nanos
      return stamp platform.yearWidth m ++ fraction ++ "Z"

mutual

/-- `literal`. -/
def literal : Value → Except EventRaised Str
  | .nullValue => .ok "NULL"
  | .bool value => .ok (if value then "true" else "false")
  | .integer value => toStr python value
  | .float value =>
      if isFinite value then .ok (platform.repr value)
      else .error (.notAnEvent ⟨"a float that is not finite has no spelling"⟩)
  | .decimal mantissa scale => decimal python maxSize mantissa scale
  | .text value => .ok (Events.quoted value)
  | .datetime seconds nanos => do
      let instant ← instant python platform seconds nanos
      return "datetime '" ++ instant ++ "'"
  | .uuid value => .ok ("uuid '" ++ hyphenated (hex value) ++ "'")
  | .array items => do
      if items.any Value.isNone then
        .error (.notAnEvent ⟨"an array cannot hold an absence"⟩)
      let parts ← (literals items).mapM id
      return "[" ++ join ", " parts ++ "]"
  | .object fields => do
      let parts ← (Events.present (literalFields fields)).mapM fun field => do
        let held ← field.2
        return Events.quoted field.1 ++ ": " ++ held
      return if parts ≠ [] then "\x7b " ++ join ", " parts ++ " \x7d" else "\x7b\x7d"
  | _ => .error (.notAnEvent
      ⟨"an event carries null, booleans, numbers, strings, datetimes, uuids, arrays and objects"⟩)

def literals : List Value → List (Except EventRaised Str)
  | [] => []
  | item :: items => literal item :: literals items

def literalFields : List (Str × Value) → List (Str × Option (Except EventRaised Str))
  | [] => []
  | (name, value) :: fields =>
      (name, if value.isNone then none else some (literal value)) :: literalFields fields

end

/-! ### Troubles -/

/-- What stands in the way of rendering. -/
inductive Trouble where
  /-- A kind that no event carries. -/
  | kind
  /-- An absence in an array. -/
  | absence
  | notFinite
  /-- A datetime outside the years 1 to 9999. -/
  | year
  /-- An integer of more digits than are converted. -/
  | digits
  /-- A scale that is not the length of anything. -/
  | width
  deriving DecidableEq, Repr

namespace Trouble

/-- What rendering raises over it. -/
def raised : Trouble → EventRaised
  | .kind => .notAnEvent
      ⟨"an event carries null, booleans, numbers, strings, datetimes, uuids, arrays and objects"⟩
  | .absence => .notAnEvent ⟨"an array cannot hold an absence"⟩
  | .notFinite => .notAnEvent ⟨"a float that is not finite has no spelling"⟩
  | .year => .notAnEvent ⟨"a datetime outside the years 1 to 9999"⟩
  | .digits => .valueError
  | .width => .overflowError

/-- Rendering raises this over it. -/
def Raises (t : Trouble) (e : EventRaised) : Prop := t.raised = e

/-- What an event refuses to carry. -/
def Refused (t : Trouble) : Prop := t ≠ .digits ∧ t ≠ .width

theorem raised_eq_notAnEvent {t : Trouble} : (∃ e, t.raised = .notAnEvent e) ↔ t.Refused := by
  cases t <;> simp [raised, Refused]

end Trouble

mutual

/-- The troubles of a value, in the order in which rendering comes upon them. -/
def troubles : Value → List Trouble
  | .nullValue => []
  | .bool _ => []
  | .integer value => lacking (python.Converts (digits value.natAbs).length) .digits
  | .float value => lacking (isFinite value) .notFinite
  | .decimal mantissa scale =>
      lacking (python.Converts (digits mantissa.natAbs).length) .digits ++
        lacking (scale = 0 ∨ IsSize maxSize (scale + 1)) .width
  | .text _ => []
  | .datetime seconds nanos =>
      lacking ((moment seconds).isSome) .year ++
        lacking (nanos = 0 ∨ python.Converts (digits nanos.natAbs).length) .digits
  | .uuid _ => []
  | .array items =>
      lacking (¬ items.any Value.isNone) .absence ++ (itemTroubles items).flatten
  | .object fields => (Events.present (fieldTroubles fields)).flatMap Prod.snd
  | _ => [.kind]

def itemTroubles : List Value → List (List Trouble)
  | [] => []
  | item :: items => troubles item :: itemTroubles items

def fieldTroubles : List (Str × Value) → List (Str × Option (List Trouble))
  | [] => []
  | (name, value) :: fields =>
      (name, if value.isNone then none else some (troubles value)) :: fieldTroubles fields

end

theorem literals_eq (items : List Value) :
    literals python platform maxSize items = items.map (literal python platform maxSize) := by
  induction items with
  | nil => rfl
  | cons item items ih => rw [literals, ih, List.map_cons]

theorem literalFields_eq (fields : List (Str × Value)) :
    literalFields python platform maxSize fields =
      Dict.mapValues (Events.held (literal python platform maxSize)) fields := by
  induction fields with
  | nil => rfl
  | cons field fields ih => rw [literalFields, ih]; rfl

theorem itemTroubles_eq (items : List Value) :
    itemTroubles python maxSize items = items.map (troubles python maxSize) := by
  induction items with
  | nil => rfl
  | cons item items ih => rw [itemTroubles, ih, List.map_cons]

theorem fieldTroubles_eq (fields : List (Str × Value)) :
    fieldTroubles python maxSize fields =
      Dict.mapValues (Events.held (troubles python maxSize)) fields := by
  induction fields with
  | nil => rfl
  | cons field fields ih => rw [fieldTroubles, ih]; rfl

/-! ### The first trouble -/

theorem toStr_endsWith (z : ℤ) :
    EndsWith Trouble.Raises (toStr python z)
      (lacking (python.Converts (digits z.natAbs).length) .digits) :=
  .lacking rfl

theorem decimal_endsWith (mantissa scale : ℤ) :
    EndsWith Trouble.Raises (decimal python maxSize mantissa scale)
      (troubles python maxSize (.decimal mantissa scale)) := by
  rw [decimal, troubles]
  refine (toStr_endsWith python mantissa.natAbs).bind fun digits _ => ?_
  by_cases hscale : scale = 0
  · rw [if_pos hscale, lacking_of (Or.inl hscale)]
    exact .ok _
  · have hwidth : EndsWith Trouble.Raises (rjust maxSize (scale + 1) (digit 0) digits)
        (lacking (IsSize maxSize (scale + 1)) .width) := .lacking rfl
    simp only [hscale, if_false, false_or]
    exact hwidth.map _

theorem fraction_endsWith (nanos : ℤ) :
    EndsWith Trouble.Raises (fraction python nanos)
      (lacking (nanos = 0 ∨ python.Converts (digits nanos.natAbs).length) .digits) := by
  rw [fraction]
  by_cases hnanos : nanos = 0
  · rw [if_neg (not_not.mpr hnanos), lacking_of (Or.inl hnanos)]
    exact .ok []
  · have hfilled : EndsWith Trouble.Raises (zeroFilled python 9 nanos)
        (lacking (python.Converts (digits nanos.natAbs).length) .digits) := .lacking rfl
    simp only [hnanos, ne_eq, not_false_eq_true, if_true, false_or]
    exact hfilled.map _

theorem instant_endsWith (seconds nanos : ℤ) :
    EndsWith Trouble.Raises (instant python platform seconds nanos)
      (troubles python maxSize (.datetime seconds nanos)) := by
  rw [instant, troubles]
  cases moment seconds with
  | none => exact .error rfl
  | some m => exact (fraction_endsWith python nanos).map _

/-- **Rendering ends with the first trouble**, and is done when there is none. -/
theorem literal_endsWith (v : Value) :
    EndsWith Trouble.Raises (literal python platform maxSize v) (troubles python maxSize v) := by
  induction v using Value.induction with
  | step v ih =>
      cases v with
      | nullValue => exact .ok _
      | bool value => exact .ok _
      | integer value => exact toStr_endsWith ..
      | float value => exact .lacking rfl
      | decimal mantissa scale => exact decimal_endsWith ..
      | text value => exact .ok _
      | datetime seconds nanos => exact (instant_endsWith ..).map _
      | uuid value => exact .ok _
      | array items =>
          rw [literal, troubles, literals_eq, itemTroubles_eq]
          have hparts : EndsWith Trouble.Raises
              ((items.map (literal python platform maxSize)).mapM id)
              (items.map (troubles python maxSize)).flatten := by
            refine .mapM ?_
            rw [List.forall₂_map_left_iff, List.forall₂_map_right_iff, List.forall₂_same]
            exact ih
          by_cases hnone : items.any Value.isNone = true
          · rw [if_pos hnone, lacking_of_not (not_not.mpr hnone)]
            exact .error rfl
          · rw [if_neg hnone, lacking_of hnone]
            exact hparts.map _
      | object fields =>
          rw [literal, troubles, literalFields_eq, fieldTroubles_eq, Events.present_held,
            Events.present_held, List.flatMap]
          refine EndsWith.map (.mapM ?_) _
          rw [Dict.mapValues, Dict.mapValues, List.map_map, List.forall₂_map_left_iff,
            List.forall₂_map_right_iff, List.forall₂_same]
          intro field hfield
          exact (ih _ (List.mem_map_of_mem (Events.mem_kept.mp hfield).1)).map _
      | _ => exact .error rfl

/-! ### Without limits -/

/-- A result or a refusal is the other's; what a limit raises is nothing to the other. -/
def Refines {α : Type} (x : Except EventRaised α) (y : Except NotAnEvent α) : Prop :=
  match x with
  | .ok a => y = .ok a
  | .error (.notAnEvent e) => y = .error e
  | .error _ => True

namespace Refines

variable {α β : Type} {x : Except EventRaised α} {y : Except NotAnEvent α}

theorem ok (a : α) : Refines (.ok a) (.ok a) := rfl

theorem bind {f : α → Except EventRaised β} {g : α → Except NotAnEvent β} (h : Refines x y)
    (hf : ∀ a, Refines (f a) (g a)) : Refines (x >>= f) (y >>= g) := by
  cases x with
  | ok a =>
      obtain rfl : y = .ok a := h
      exact hf a
  | error e =>
      cases e with
      | notAnEvent e =>
          obtain rfl : y = .error e := h
          exact rfl
      | valueError => exact trivial
      | overflowError => exact trivial

theorem map (h : Refines x y) (f : α → β) : Refines (do return f (← x)) (do return f (← y)) :=
  h.bind fun a => ok (f a)

theorem mapM {γ : Type} {f : α → Except EventRaised γ} {g : β → Except NotAnEvent γ} {as : List α}
    {bs : List β} (h : List.Forall₂ (fun a b => Refines (f a) (g b)) as bs) :
    Refines (as.mapM f) (bs.mapM g) := by
  induction h with
  | nil => exact ok []
  | cons hhead _ ih =>
      rw [List.mapM_cons, List.mapM_cons]
      exact hhead.bind fun c => ih.map (c :: ·)

/-- Where a limit lets it through. -/
theorem limit {P : Prop} [Decidable P] (a : α) {e : EventRaised}
    (he : e = .valueError ∨ e = .overflowError) :
    Refines (if P then .ok a else .error e) (.ok a) := by
  split
  · exact ok a
  · rcases he with rfl | rfl
    · exact trivial
    · exact trivial

end Refines

theorem decimal_refines (mantissa scale : ℤ) :
    Refines (decimal python maxSize mantissa scale) (.ok (Events.decimal mantissa scale)) := by
  have hstr : str (mantissa.natAbs : ℤ) = digits mantissa.natAbs := if_neg (by omega)
  rw [decimal, toStr, hstr, Events.decimal, Events.numeral]
  by_cases hfits : python.Converts (digits (mantissa.natAbs : ℤ).natAbs).length
  · rw [if_pos hfits]
    by_cases hscale : scale = 0
    · rw [if_pos hscale]
      change Refines (if scale = 0 then _ else _) _
      rw [if_pos hscale]
      exact .ok _
    · rw [if_neg hscale]
      change Refines (if scale = 0 then _ else _) _
      rw [if_neg hscale]
      exact Refines.map (.limit (Text.rjust (scale + 1).toNat (digit 0) (digits mantissa.natAbs))
        (.inr rfl)) _
  · rw [if_neg hfits]
    exact trivial

theorem instant_refines (seconds nanos : ℤ) :
    Refines (instant python platform seconds nanos) (Events.instant platform seconds nanos) := by
  rw [instant, Events.instant]
  cases moment seconds with
  | none => rfl
  | some m =>
      have hfraction : Refines (fraction python nanos)
          (.ok (if nanos ≠ 0 then "." ++ Events.zeroFilled 9 nanos else [])) := by
        rw [fraction]
        split
        · exact Refines.map (.limit _ (.inl rfl)) _
        · exact .ok []
      exact hfraction.map _

/-- **A text or a refusal is what there would be without limits.** -/
theorem literal_refines (v : Value) :
    Refines (literal python platform maxSize v) (Events.literal platform v) := by
  induction v using Value.induction with
  | step v ih =>
      cases v with
      | nullValue => exact .ok _
      | bool value => exact .ok _
      | integer value => exact .limit _ (.inl rfl)
      | float value =>
          rw [literal, Events.literal]
          split
          · exact .ok _
          · rfl
      | decimal mantissa scale => exact decimal_refines ..
      | text value => exact .ok _
      | datetime seconds nanos => exact (instant_refines ..).map _
      | uuid value => exact .ok _
      | array items =>
          rw [literal, Events.literal, literals_eq, Events.literals_eq]
          have hparts : Refines ((items.map (literal python platform maxSize)).mapM id)
              ((items.map (Events.literal platform)).mapM id) := by
            refine .mapM ?_
            rw [List.forall₂_map_left_iff, List.forall₂_map_right_iff, List.forall₂_same]
            exact ih
          by_cases hnone : items.any Value.isNone = true
          · rw [if_pos hnone, if_pos hnone]
            rfl
          · rw [if_neg hnone, if_neg hnone]
            exact hparts.map _
      | object fields =>
          rw [literal, Events.literal, literalFields_eq, Events.literalFields_eq,
            Events.present_held, Events.present_held]
          refine Refines.map (.mapM ?_) _
          rw [Dict.mapValues, Dict.mapValues, List.forall₂_map_left_iff,
            List.forall₂_map_right_iff, List.forall₂_same]
          intro field hfield
          exact (ih _ (List.mem_map_of_mem (Events.mem_kept.mp hfield).1)).map _
      | _ => rfl

/-! ### Refused or stored -/

/-- A value that comes to nothing worse than a refusal: the first of its troubles is one an event
refuses, or it has none and is one to be stored. -/
def RefusedOrStored (v : Value) : Prop :=
  match (troubles python maxSize v).head? with
  | some trouble => trouble.Refused
  | none => v.stripped.Spelled ∧ v.stripped.Fits

/-- **Refused, or fit to be stored.** A value that is rendered can be stored without its absent
fields, and one that is not is refused, exactly when it comes to nothing worse. -/
theorem refused_or_stored_iff (v : Value) :
    ((∀ text, literal python platform maxSize v = .ok text → ∃ raw, encode v.stripped = .ok raw) ∧
      ∀ e, literal python platform maxSize v = .error e → ∃ refusal, e = .notAnEvent refusal) ↔
    RefusedOrStored python maxSize v := by
  have hends := literal_endsWith python platform maxSize v
  rw [RefusedOrStored]
  generalize troubles python maxSize v = ts at hends
  cases ts with
  | nil =>
      obtain ⟨text, htext⟩ := hends
      rw [htext, List.head?_nil, ← Value.encodes_iff]
      constructor
      · intro h
        exact h.1 text rfl
      · intro h
        exact ⟨fun _ _ => h, fun e he => (by cases he)⟩
  | cons trouble ts =>
      obtain ⟨e, he, rfl⟩ := hends
      rw [he, List.head?_cons]
      change _ ↔ trouble.Refused
      rw [← Trouble.raised_eq_notAnEvent]
      constructor
      · intro h
        exact h.2 trouble.raised rfl
      · intro h
        refine ⟨fun text htext => (by cases htext), fun e he => ?_⟩
        cases he
        exact h

/-- An instant a whole second and no nanosecond behind the epoch is written with ten digits behind
the point, and is not one to be stored. -/
theorem late_nanoseconds_are_spelled :
    literal (JsonValues.asciiInterpreter 4300 (by decide)) ⟨fun _ => [], 4⟩ (2 ^ 63 - 1)
        (.datetime 0 1000000000) = .ok (ofString "datetime '1970-01-01T00:00:00.1000000000Z'") ∧
      ¬ ∃ raw, encode (Value.datetime 0 1000000000).stripped = .ok raw := by
  refine ⟨rfl, fun h => ?_⟩
  have hrange := ((Value.encodes_leaf rfl).mp h).2.2.2
  simp [NANOS_PER_SECOND] at hrange

end EventTroubles

end TessariDB
