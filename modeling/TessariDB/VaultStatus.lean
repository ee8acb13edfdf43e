import TessariDB.Calendar
import TessariDB.Fits
import TessariDB.JsonRestored

/-!
# The Status of a Vault

`_vault_frame.py`: the object a vault act is answered with, and what `VaultStatus.read` makes of
it. A `datetime` covers the years 1 to 9999 and a `timedelta` 999999999 days either way, far less
than the seconds of a value on the wire. One of the two conversions stands before the handler, and
the handler does not name what the other raises.

## Main results

* `fromTimestamp_cases`, `timedelta_cases`: what the library's types cover.
* `vault_statuses_are_read_iff`: the values that are read or refused.
* `distant_seal_escapes`: one that is neither.
-/

namespace TessariDB

namespace VaultStatus

open Utf8 Text Calendar

/-! ### The library -/

/-- What a call of the library raises. -/
inductive LibraryRaised where
  | valueError (message : Str)
  | overflowError
  | osError
  deriving DecidableEq, Repr

/-- A `datetime` in UTC, to the microsecond. -/
structure Instant where
  moment : Moment
  microsecond : ℕ
  valid : moment.Valid
  microsecond_lt : microsecond < 10 ^ 6

/-- The microseconds since the epoch. -/
def Instant.micros (i : Instant) : ℤ := i.moment.seconds * 10 ^ 6 + i.microsecond

/-- A day in microseconds. -/
def DAY : ℤ := 86400 * 10 ^ 6

/-- The microseconds of a span that is at most 999999999 days long. -/
def InDays (micros : ℤ) : Prop := -999999999 ≤ micros / DAY ∧ micros / DAY ≤ 999999999

instance (micros : ℤ) : Decidable (InDays micros) := instDecidableAnd

/-- A `timedelta`, as its microseconds. -/
structure Timedelta where
  micros : ℤ
  valid : InDays micros

/-- `timedelta(seconds=…, microseconds=…)`. -/
def timedelta (seconds microseconds : ℤ) : Except LibraryRaised Timedelta :=
  if h : InDays (seconds * 10 ^ 6 + microseconds) then .ok ⟨_, h⟩ else .error .overflowError

/-- The `datetime` of some microseconds since the epoch, if the years 1 to 9999 hold it. -/
def Instant.ofMicros (micros : ℤ) : Option Instant :=
  match h : Calendar.moment (micros / 10 ^ 6) with
  | some m => some ⟨m, (micros % 10 ^ 6).toNat, moment_valid h, by omega⟩
  | none => none

/-- `datetime.__add__`. -/
def Instant.add (i : Instant) (d : Timedelta) : Except LibraryRaised Instant :=
  (Instant.ofMicros (i.micros + d.micros)).elim (.error .overflowError) .ok

/-- `datetime.fromtimestamp(seconds, timezone.utc)`; `outside` is what it raises past its range. -/
def fromTimestamp (outside : ℤ → LibraryRaised) (seconds : ℤ) : Except LibraryRaised Instant :=
  (Instant.ofMicros (seconds * 10 ^ 6)).elim (.error (outside seconds)) .ok

/-! ### The status -/

/-- Whether the node can open secrets right now. -/
inductive SealState where
  | uninitialised
  | sealed
  | unsealed
  deriving DecidableEq, Repr

def SealState.value : SealState → Str
  | .uninitialised => "uninitialised"
  | .sealed => "sealed"
  | .unsealed => "unsealed"

/-- What opens a vault. -/
inductive Custody where
  | own
  | store
  deriving DecidableEq, Repr

def Custody.value : Custody → Str
  | .own => "own"
  | .store => "store"

/-- The node's answer to every vault act. -/
structure Status where
  state : SealState
  sealsAt : Option Instant
  unsealFor : Timedelta
  initialised : Bool
  custody : Option Custody

/-- What `read` raises: `Malformed`, or what the library raised. -/
inductive StatusRaised where
  | malformed (message : Str)
  | escaped (why : LibraryRaised)
  deriving DecidableEq, Repr

variable (python : Interpreter)

/-- The member of an enumeration with a value. -/
def member {α : Type} (members : List α) (spelling : α → Str) (enumeration : String) (value : Str) :
    Except LibraryRaised α :=
  match members.find? fun m => spelling m = value with
  | some m => .ok m
  | none => .error (.valueError
      (python.repr (.string value) ++ " is not a valid " ++ enumeration))

/-- `SealState(value)`. -/
def SealState.ofValue (value : Str) : Except LibraryRaised SealState :=
  member python [.uninitialised, .sealed, .unsealed] SealState.value "SealState" value

/-- `Custody(value)`. -/
def Custody.ofValue (value : Str) : Except LibraryRaised Custody :=
  member python [.own, .store] Custody.value "Custody" value

/-- `except ValueError as why`. -/
def caught {α : Type} : Except LibraryRaised α → Except StatusRaised α
  | .ok a => .ok a
  | .error (.valueError message) =>
      .error (.malformed ("a vault status outside its closed sets: " ++ message))
  | .error why => .error (.escaped why)

variable (outside : ℤ → LibraryRaised)

/-- `seals_at`, before the handler. -/
def readSealsAt : Option Value → Except StatusRaised (Option Instant)
  | some (.datetime seconds nanos) =>
      let at_ : Except LibraryRaised Instant := do
        let instant ← fromTimestamp outside seconds
        let fraction ← timedelta 0 (nanos / 1000)
        instant.add fraction
      (at_.map some).mapError .escaped
  | none | some .noneValue => .ok none
  | some _ => .error (.malformed "seals_at is a datetime")

/-- The word of `custody`, if there is one. -/
def readCustody : Option Value → Except StatusRaised (Option Str)
  | none => .ok none
  | some (.text word) => .ok (some word)
  | some _ => .error (.malformed "custody is a string")

/-- `fields.get("initialised") == Bool(True)`. -/
def isTrue : Option Value → Bool
  | some (.bool b) => b
  | _ => false

/-- `cls(…)`, inside the handler. -/
def construct (state : Str) (sealsAt : Option Instant) (seconds nanos : ℤ)
    (initialised : Option Value) (custody : Option Str) : Except LibraryRaised Status := do
  let state ← SealState.ofValue python state
  let unsealFor ← timedelta seconds (nanos / 1000)
  let custody ← custody.mapM (Custody.ofValue python)
  return ⟨state, sealsAt, unsealFor, isTrue initialised, custody⟩

/-- `VaultStatus.read`. -/
def read : Value → Except StatusRaised Status
  | .object fields =>
      match Dict.get? fields (ofString "state"), Dict.get? fields (ofString "unseal_for") with
      | some (.text state), some (.duration seconds nanos) => do
          let sealsAt ← readSealsAt outside (Dict.get? fields (ofString "seals_at"))
          let custody ← readCustody (Dict.get? fields (ofString "custody"))
          let initialised := Dict.get? fields (ofString "initialised")
          caught (construct python state sealsAt seconds nanos initialised custody)
      | _, _ => .error (.malformed "a vault status carries a state and a period")
  | _ => .error (.malformed "a vault status is an object")

/-! ### What the library covers -/

/-- From the first second of the year 1 to the last of the year 9999. -/
def InYears (seconds : ℤ) : Prop := -62135596800 ≤ seconds ∧ seconds ≤ 253402300799

instance (seconds : ℤ) : Decidable (InYears seconds) := instDecidableAnd

theorem Instant.micros_of_ofMicros {micros : ℤ} {i : Instant}
    (h : Instant.ofMicros micros = some i) : i.micros = micros := by
  rw [ofMicros] at h
  split at h
  · next m hm =>
    cases h
    rw [Instant.micros]
    dsimp only
    rw [seconds_moment hm]
    omega
  · cases h

/-- The instants of the years 1 to 9999 have a `datetime`, and no other has. -/
theorem Instant.exists_ofMicros_iff (micros : ℤ) :
    (∃ i, Instant.ofMicros micros = some i) ↔ InYears (micros / 10 ^ 6) := by
  rw [InYears, ← moment_isSome_iff, ofMicros]
  split
  · next m hm => exact iff_of_true ⟨_, rfl⟩ (by rw [hm]; rfl)
  · next hm => exact iff_of_false (by simp) (by rw [hm]; exact Bool.false_ne_true)

variable {python outside}

/-- What `fromtimestamp` covers. -/
theorem fromTimestamp_cases (outside : ℤ → LibraryRaised) (seconds : ℤ) :
    (InYears seconds ∧
      ∃ i, fromTimestamp outside seconds = .ok i ∧ i.micros = seconds * 10 ^ 6) ∨
    (¬ InYears seconds ∧ fromTimestamp outside seconds = .error (outside seconds)) := by
  have hiff := Instant.exists_ofMicros_iff (seconds * 10 ^ 6)
  rw [Int.mul_ediv_cancel _ (by decide)] at hiff
  rw [fromTimestamp]
  cases hi : Instant.ofMicros (seconds * 10 ^ 6) with
  | some i => exact .inl ⟨hiff.mp ⟨i, hi⟩, i, rfl, Instant.micros_of_ofMicros hi⟩
  | none =>
      refine .inr ⟨fun hyears => ?_, rfl⟩
      obtain ⟨i, hi'⟩ := hiff.mpr hyears
      rw [hi] at hi'
      cases hi'

/-- The fraction of a second of an instant is added within the second. -/
theorem Instant.add_fraction {i : Instant} {seconds : ℤ} (hyears : InYears seconds)
    (hi : i.micros = seconds * 10 ^ 6) {d : Timedelta} (hd : 0 ≤ d.micros ∧ d.micros < 10 ^ 6) :
    ∃ i', i.add d = .ok i' ∧ i'.micros = seconds * 10 ^ 6 + d.micros := by
  have hyears' : InYears ((i.micros + d.micros) / 10 ^ 6) := by
    have hsame : (i.micros + d.micros) / 10 ^ 6 = seconds := by omega
    rwa [hsame]
  obtain ⟨i', hi'⟩ := (exists_ofMicros_iff _).mpr hyears'
  refine ⟨i', by rw [add, hi']; rfl, ?_⟩
  rw [micros_of_ofMicros hi', hi]

/-- What a `timedelta` covers. -/
theorem timedelta_cases (seconds microseconds : ℤ) :
    (InDays (seconds * 10 ^ 6 + microseconds) ∧ ∃ d, timedelta seconds microseconds = .ok d ∧
      d.micros = seconds * 10 ^ 6 + microseconds) ∨
    (¬ InDays (seconds * 10 ^ 6 + microseconds) ∧
      timedelta seconds microseconds = .error .overflowError) := by
  rw [timedelta]
  split
  · next h => exact .inl ⟨h, _, rfl, rfl⟩
  · next h => exact .inr ⟨h, rfl⟩

/-- The nanoseconds of an instant or a period, down to the microsecond. -/
def truncated (seconds nanos : ℤ) : ℤ := (seconds * 10 ^ 9 + nanos) / 1000

theorem truncated_eq (seconds nanos : ℤ) : truncated seconds nanos = seconds * 10 ^ 6 + nanos / 1000 := by
  rw [truncated]
  omega

/-! ### The fields -/

/-- `seals_at` is absent, `NONE`, or an instant of the years 1 to 9999. -/
def SealsAtRead (field : Option Value) : Prop :=
  field = none ∨ field = some .noneValue ∨
    ∃ seconds nanos, field = some (.datetime seconds nanos) ∧ InYears seconds

/-- `seals_at` is an instant of no year that a `datetime` holds. -/
def SealsAtFar (field : Option Value) : Prop :=
  ∃ seconds nanos, field = some (.datetime seconds nanos) ∧ ¬ InYears seconds

/-- The instant `seals_at` carries, to the microsecond. -/
def CarriesSeal (field : Option Value) (sealsAt : Option Instant) : Prop :=
  ((field = none ∨ field = some .noneValue) ∧ sealsAt = none) ∨
    ∃ seconds nanos i, field = some (.datetime seconds nanos) ∧ sealsAt = some i ∧
      i.micros = truncated seconds nanos

theorem readSealsAt_cases (outside : ℤ → LibraryRaised) (field : Option Value)
    (hfits : ∀ v ∈ field, Fits.value v) :
    (SealsAtRead field ∧ ∃ at_, readSealsAt outside field = .ok at_ ∧ CarriesSeal field at_) ∨
    (SealsAtFar field ∧ ∃ why, readSealsAt outside field = .error (.escaped why)) ∨
    (¬ SealsAtRead field ∧ ¬ SealsAtFar field ∧
      ∃ message, readSealsAt outside field = .error (.malformed message)) := by
  cases field with
  | none => exact .inl ⟨.inl rfl, none, rfl, .inl ⟨.inl rfl, rfl⟩⟩
  | some v =>
      cases v with
      | noneValue => exact .inl ⟨.inr (.inl rfl), none, rfl, .inl ⟨.inr rfl, rfl⟩⟩
      | datetime seconds nanos =>
          obtain ⟨hpos, hlt⟩ := (hfits _ rfl).2
          rw [NANOS_PER_SECOND] at hlt
          rw [readSealsAt]
          rcases fromTimestamp_cases outside seconds with ⟨hyears, i, hfrom, hi⟩ | ⟨hfar, hfrom⟩
          · have hdays : InDays (0 * 10 ^ 6 + nanos / 1000) := by
              rw [InDays, DAY]
              omega
            obtain ⟨i', hadd, hi'⟩ := Instant.add_fraction hyears hi
              (d := ⟨0 * 10 ^ 6 + nanos / 1000, hdays⟩) (by dsimp only; omega)
            refine .inl ⟨.inr (.inr ⟨seconds, nanos, rfl, hyears⟩), some i', ?_,
              .inr ⟨seconds, nanos, i', rfl, rfl, ?_⟩⟩
            · simp only [hfrom, timedelta, hdays, dif_pos, hadd, Bind.bind, Except.bind]
              rfl
            · rw [hi', truncated_eq]
              dsimp only
              omega
          · refine .inr (.inl ⟨⟨seconds, nanos, rfl, hfar⟩, outside seconds, ?_⟩)
            rw [hfrom]
            rfl
      | _ => exact .inr (.inr ⟨by simp [SealsAtRead], by simp [SealsAtFar], _, rfl⟩)

/-- `custody` is absent, or a text. -/
def CustodyRead (field : Option Value) : Prop := field = none ∨ ∃ word, field = some (.text word)

theorem readCustody_cases (field : Option Value) :
    (CustodyRead field ∧ ∃ word, readCustody field = .ok word) ∨
    (¬ CustodyRead field ∧ ∃ message, readCustody field = .error (.malformed message)) := by
  cases field with
  | none => exact .inl ⟨.inl rfl, none, rfl⟩
  | some v =>
      cases v with
      | text word => exact .inl ⟨.inr ⟨word, rfl⟩, some word, rfl⟩
      | _ => exact .inr ⟨by simp [CustodyRead], _, rfl⟩

/-- One of the three words of a state. -/
def IsState (word : Str) : Prop := ∃ state : SealState, state.value = word

theorem sealState_cases (python : Interpreter) (word : Str) :
    (IsState word ∧ ∃ state, SealState.ofValue python word = .ok state) ∨
    (¬ IsState word ∧ ∃ message, SealState.ofValue python word = .error (.valueError message)) := by
  rw [SealState.ofValue, member]
  split
  · next state hfind =>
    exact .inl ⟨⟨state, by simpa using List.find?_some hfind⟩, state, rfl⟩
  · next hfind =>
    refine .inr ⟨?_, _, rfl⟩
    rintro ⟨state, rfl⟩
    refine absurd (List.find?_eq_none.mp hfind state ?_) (by simp)
    cases state <;> decide

/-- `Custody` of any word is a custody, or a `ValueError`. -/
theorem custody_cases (python : Interpreter) (word : Option Str) :
    (∃ custody, word.mapM (Custody.ofValue python) = .ok custody) ∨
      ∃ message, word.mapM (Custody.ofValue python) = .error (.valueError message) := by
  cases word with
  | none => exact .inl ⟨none, rfl⟩
  | some word =>
      rw [Option.mapM_some, Custody.ofValue, member]
      split
      · exact .inl ⟨_, rfl⟩
      · exact .inr ⟨_, rfl⟩

/-! ### The status -/

/-- The period is at most 999999999 days long, either way. -/
def PeriodInDays (seconds : ℤ) : Prop := -999999999 ≤ seconds / 86400 ∧ seconds / 86400 ≤ 999999999

/-- The fraction of a second makes no difference to the days. -/
theorem inDays_iff {seconds nanos : ℤ} (hnanos : Fits.nanos nanos) :
    InDays (seconds * 10 ^ 6 + nanos / 1000) ↔ PeriodInDays seconds := by
  obtain ⟨hpos, hlt⟩ := hnanos
  rw [NANOS_PER_SECOND] at hlt
  have hday : (seconds * 10 ^ 6 + nanos / 1000) / DAY = seconds / 86400 := by
    rw [DAY]
    omega
  rw [InDays, PeriodInDays, hday]

/-- What the handler lets out: a period that is too long, of a status whose state is one. -/
theorem construct_cases (python : Interpreter) (state : Str) (sealsAt : Option Instant)
    {seconds nanos : ℤ} (hnanos : Fits.nanos nanos) (initialised : Option Value)
    (custody : Option Str) :
    (¬ (IsState state ∧ ¬ PeriodInDays seconds) ∧
      ((∃ status, caught (construct python state sealsAt seconds nanos initialised custody) =
          .ok status ∧ status.sealsAt = sealsAt ∧
          status.unsealFor.micros = truncated seconds nanos) ∨
        ∃ message, caught (construct python state sealsAt seconds nanos initialised custody) =
          .error (.malformed message))) ∨
    ((IsState state ∧ ¬ PeriodInDays seconds) ∧
      caught (construct python state sealsAt seconds nanos initialised custody) =
        .error (.escaped .overflowError)) := by
  have hperiod := timedelta_cases seconds (nanos / 1000)
  rw [inDays_iff hnanos, ← truncated_eq] at hperiod
  rw [construct]
  rcases sealState_cases python state with ⟨hstate, s, hs⟩ | ⟨hstate, message, hs⟩
  · rcases hperiod with ⟨hdays, d, hd, hmicros⟩ | ⟨hdays, hd⟩
    · refine .inl ⟨fun h => h.2 hdays, ?_⟩
      rcases custody_cases python custody with ⟨c, hc⟩ | ⟨message, hc⟩
      · exact .inl ⟨⟨s, sealsAt, d, isTrue initialised, c⟩, by rw [hs, hd, hc]; rfl, rfl, hmicros⟩
      · exact .inr ⟨_, by rw [hs, hd, hc]; rfl⟩
    · exact .inr ⟨⟨hstate, hdays⟩, by rw [hs, hd]; rfl⟩
  · exact .inl ⟨fun h => hstate h.1, .inr ⟨_, by rw [hs]; rfl⟩⟩

/-- An object with a state and a period. -/
structure IsStatus (value : Value) (fields : List (Str × Value)) (state : Str)
    (seconds nanos : ℤ) : Prop where
  object : value = .object fields
  state : Dict.get? fields (ofString "state") = some (.text state)
  unsealFor : Dict.get? fields (ofString "unseal_for") = some (.duration seconds nanos)

/-- A seal or a period that the library does not cover is come to: the instant at once, the period
when nothing was refused before it. -/
def Distant (value : Value) : Prop :=
  ∃ fields state seconds nanos, IsStatus value fields state seconds nanos ∧
    (SealsAtFar (Dict.get? fields (ofString "seals_at")) ∨
      (SealsAtRead (Dict.get? fields (ofString "seals_at")) ∧
        CustodyRead (Dict.get? fields (ofString "custody")) ∧
        IsState state ∧ ¬ PeriodInDays seconds))

/-- The status holds the instant and the period the value carries, to the microsecond. -/
def Carries (value : Value) (status : Status) : Prop :=
  ∃ fields state seconds nanos, IsStatus value fields state seconds nanos ∧
    CarriesSeal (Dict.get? fields (ofString "seals_at")) status.sealsAt ∧
    status.unsealFor.micros = truncated seconds nanos

/-- A value is read as what it carries, or refused. -/
def ReadOrRefused (python : Interpreter) (outside : ℤ → LibraryRaised) (value : Value) : Prop :=
  (∃ status, read python outside value = .ok status ∧ Carries value status) ∨
    ∃ message, read python outside value = .error (.malformed message)

theorem isStatus_unique {value : Value} {fields fields' : List (Str × Value)} {state state' : Str}
    {seconds seconds' nanos nanos' : ℤ} (h : IsStatus value fields state seconds nanos)
    (h' : IsStatus value fields' state' seconds' nanos') :
    fields = fields' ∧ state = state' ∧ seconds = seconds' := by
  obtain ⟨rfl, hstate, hperiod⟩ := h
  obtain ⟨hfields, hstate', hperiod'⟩ := h'
  cases hfields
  rw [hstate] at hstate'
  rw [hperiod] at hperiod'
  cases hstate'
  cases hperiod'
  exact ⟨rfl, rfl, rfl⟩

/-- What is done with a status. -/
theorem IsStatus.read_eq (python : Interpreter) (outside : ℤ → LibraryRaised) {value : Value}
    {fields : List (Str × Value)} {state : Str} {seconds nanos : ℤ}
    (h : IsStatus value fields state seconds nanos) :
    read python outside value = (do
      let sealsAt ← readSealsAt outside (Dict.get? fields (ofString "seals_at"))
      let custody ← readCustody (Dict.get? fields (ofString "custody"))
      caught (construct python state sealsAt seconds nanos
        (Dict.get? fields (ofString "initialised")) custody)) := by
  obtain ⟨rfl, hstate, hperiod⟩ := h
  rw [read, hstate, hperiod]

/-- Whatever is no status is refused. -/
theorem read_refused (python : Interpreter) (outside : ℤ → LibraryRaised) {value : Value}
    (h : ∀ fields state seconds nanos, ¬ IsStatus value fields state seconds nanos) :
    ∃ message, read python outside value = .error (.malformed message) := by
  cases value with
  | object fields =>
      rw [read]
      split
      · next state seconds nanos hstate hperiod =>
        exact absurd ⟨rfl, hstate, hperiod⟩ (h fields state seconds nanos)
      · exact ⟨_, rfl⟩
  | _ => exact ⟨_, rfl⟩

theorem not_sealsAtFar_of_read {field : Option Value} (h : SealsAtRead field) :
    ¬ SealsAtFar field := by
  rintro ⟨seconds, nanos, rfl, hfar⟩
  rcases h with h | h | ⟨seconds', nanos', h, hyears⟩
  · cases h
  · cases h
  · cases h
    exact hfar hyears

theorem IsStatus.distant_iff {value : Value} {fields : List (Str × Value)} {state : Str}
    {seconds nanos : ℤ} (h : IsStatus value fields state seconds nanos) :
    Distant value ↔ SealsAtFar (Dict.get? fields (ofString "seals_at")) ∨
      (SealsAtRead (Dict.get? fields (ofString "seals_at")) ∧
        CustodyRead (Dict.get? fields (ofString "custody")) ∧
        IsState state ∧ ¬ PeriodInDays seconds) := by
  constructor
  · rintro ⟨fields', state', seconds', nanos', h', hdistant⟩
    obtain ⟨rfl, rfl, rfl⟩ := isStatus_unique h h'
    exact hdistant
  · exact fun hdistant => ⟨fields, state, seconds, nanos, h, hdistant⟩

theorem not_readOrRefused_of_escaped {python : Interpreter} {outside : ℤ → LibraryRaised}
    {value : Value} {why : LibraryRaised}
    (h : read python outside value = .error (.escaped why)) :
    ¬ ReadOrRefused python outside value := by
  rintro (⟨status, hok, -⟩ | ⟨message, hmalformed⟩)
  · rw [h] at hok
    cases hok
  · rw [h] at hmalformed
    cases hmalformed

/-- The fields of what the codec can carry. -/
theorem fits_get? {fields : List (Str × Value)} (h : (Value.object fields).Fits) (key : Str) :
    ∀ v ∈ Dict.get? fields key, Fits.value v := fun v hv =>
  (h.inner v (List.mem_map_of_mem (f := Prod.snd) (Dict.mem_of_get? hv))).here

/-- **Which vault statuses are read.** Of what the codec can carry, a value is read as the status it
says or refused, exactly unless it is a status whose instant or whose period is too far off. -/
theorem vault_statuses_are_read_iff (python : Interpreter) (outside : ℤ → LibraryRaised)
    {value : Value} (hfits : value.Fits) :
    ReadOrRefused python outside value ↔ ¬ Distant value := by
  by_cases hstatus : ∃ fields state seconds nanos, IsStatus value fields state seconds nanos
  · obtain ⟨fields, state, seconds, nanos, h⟩ := hstatus
    obtain rfl := h.object
    have hnanos : Fits.nanos nanos := (fits_get? hfits _ _ h.unsealFor).2
    have hread := h.read_eq python outside
    rw [h.distant_iff]
    rcases readSealsAt_cases outside _ (fits_get? hfits (ofString "seals_at")) with
      ⟨hseal, sealsAt, hsealsAt, hcarries⟩ | ⟨hfar, why, hsealsAt⟩ | ⟨hseal, hfar, message, hsealsAt⟩
    · have hfar := not_sealsAtFar_of_read hseal
      rw [hsealsAt] at hread
      rcases readCustody_cases (Dict.get? fields (ofString "custody")) with
        ⟨hcustody, word, hword⟩ | ⟨hcustody, message, hword⟩
      · rw [hword] at hread
        rcases construct_cases python state sealsAt hnanos
          (Dict.get? fields (ofString "initialised")) word with
            ⟨hnear, ⟨status, hok, hsame, hmicros⟩ | ⟨message, hrefused⟩⟩ | ⟨hlong, hescaped⟩
        · refine iff_of_true (.inl ⟨status, hread.trans hok, ?_⟩) ?_
          · exact ⟨fields, state, seconds, nanos, h, hsame ▸ hcarries, hmicros⟩
          · rintro (h' | ⟨-, -, h'⟩)
            exacts [hfar h', hnear h']
        · refine iff_of_true (.inr ⟨message, hread.trans hrefused⟩) ?_
          rintro (h' | ⟨-, -, h'⟩)
          exacts [hfar h', hnear h']
        · exact iff_of_false (not_readOrRefused_of_escaped (hread.trans hescaped))
            (not_not.mpr (.inr ⟨hseal, hcustody, hlong⟩))
      · rw [hword] at hread
        refine iff_of_true (.inr ⟨message, hread⟩) ?_
        rintro (h' | ⟨-, h', -⟩)
        exacts [hfar h', hcustody h']
    · rw [hsealsAt] at hread
      exact iff_of_false (not_readOrRefused_of_escaped hread) (not_not.mpr (.inl hfar))
    · rw [hsealsAt] at hread
      refine iff_of_true (.inr ⟨message, hread⟩) ?_
      rintro (h' | ⟨h', -⟩)
      exacts [hfar h', hseal h']
  · have hnone : ∀ fields state seconds nanos, ¬ IsStatus value fields state seconds nanos :=
      fun fields state seconds nanos h => hstatus ⟨fields, state, seconds, nanos, h⟩
    refine iff_of_true (.inr (read_refused python outside hnone)) ?_
    rintro ⟨fields, state, seconds, nanos, h, -⟩
    exact hnone fields state seconds nanos h

/-- A vault that is unsealed until an instant. -/
def unsealedUntil (seconds : ℤ) : Value :=
  .object [(ofString "state", .text "unsealed"), (ofString "unseal_for", .duration 600 0),
    (ofString "seals_at", .datetime seconds 0)]

/-- Unsealed until September 2026. -/
theorem vault_statuses_are_read_unsealed :
    ReadOrRefused (JsonValues.asciiInterpreter 0 JsonValues.unlimited) (fun _ => .overflowError)
      (unsealedUntil 1790000000) ↔ ¬ Distant (unsealedUntil 1790000000) :=
  vault_statuses_are_read_iff _ _ (Value.encodes_iff.mp ⟨_, rfl⟩).2

/-- The last second the wire can say is carried by the codec, and reading it ends in what the
library raises. -/
theorem distant_seal_escapes :
    (unsealedUntil (2 ^ 63 - 1)).Fits ∧
      ¬ ReadOrRefused (JsonValues.asciiInterpreter 0 JsonValues.unlimited)
        (fun _ => .osError) (unsealedUntil (2 ^ 63 - 1)) := by
  have hread : read (JsonValues.asciiInterpreter 0 JsonValues.unlimited) (fun _ => .osError)
      (unsealedUntil (2 ^ 63 - 1)) = .error (.escaped .osError) := rfl
  exact ⟨(Value.encodes_iff.mp ⟨_, rfl⟩).2, not_readOrRefused_of_escaped hread⟩

end VaultStatus

end TessariDB
