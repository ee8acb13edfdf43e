import TessariDB.Codec

/-!
# The Client's Bodies

The bodies of the three frames a client sends: Request (`Connection._request`), Subscribe
(`Connection.subscribe`) and Vault (`_vault_frame.py`). Each has a reader here that takes the
fields in the order they are written; what it returns is the message of the arguments, their
normal form, and two lists of arguments make one body exactly when their messages agree.

Optional fields are marked in three ways: by a flag byte, by there being bytes left at all,
and by an empty text that holds a place.

## Main results

* `RequestArgs.read_body`, `SubscribeArgs.read_body`, `VaultArgs.read_body`: each body reads
  back as its message, to the last byte.
* `bodies_say_one_thing`: which arguments are told apart.
-/

namespace TessariDB

open ByteCodec Utf8 Get

/-- A value behind the length of its encoding. -/
def Writer.encoded (v : Value) : Writer :=
  match encode v with
  | .ok raw => Writer.lenbytes raw
  | .error e => .error e

/-- A user and a password behind a flag. -/
def Writer.credentials : Option (Str × Str) → Writer
  | none => Writer.u8 0
  | some (user, password) => Writer.u8 1 ++ (Writer.text user ++ Writer.text password)

/-- The parameters of a request, in their order. -/
def Writer.parameters (ps : List (Str × Value)) : Writer :=
  Writer.u32 ps.length ++ Put.concat (ps.map fun p => Writer.text p.1 ++ Writer.encoded p.2)

/-- A user, with an absent password as an empty one. -/
def presented (credentials : Option (Str × Option Str)) : Option (Str × Str) :=
  credentials.map fun c => (c.1, c.2.getD [])

/-! ### Request -/

/-- What a request is built from. -/
structure RequestArgs where
  script : Str
  /-- The user and password this request presents, if it presents any. -/
  credentials : Option (Str × Option Str)
  parameters : List (Str × Value)
  keyed : ∀ p ∈ parameters, p.2.Keyed

def requestBody (script : Str) (credentials : Option (Str × Str))
    (parameters : List (Str × Value)) : Writer :=
  Writer.text script ++ (Writer.credentials credentials ++ Writer.parameters parameters)

def RequestArgs.body (a : RequestArgs) : Writer :=
  requestBody a.script (presented a.credentials) a.parameters

/-! ### Subscribe -/

/-- The arguments of `subscribe`. -/
structure SubscribeArgs where
  from_ : ℤ
  table : Option Str
  cursor : Option Str
  condition : Option Str
  parameters : Option (List (Str × Value))
  keyed : (Value.object (parameters.getD [])).Keyed

def Writer.table : Option Str → Writer
  | none => Writer.u8 0
  | some table => Writer.u8 1 ++ Writer.text table

/-- The cursor, and the condition after it; a condition needs the cursor's place filled. -/
def Writer.narrowing (cursor condition : Option Str) (parameters : Option (List (Str × Value))) :
    Writer :=
  (if cursor.isSome ∨ condition.isSome then Writer.text (cursor.getD []) else .ok []) ++
    match condition with
    | none => .ok []
    | some condition => Writer.text condition ++ Writer.encoded (.object (parameters.getD []))

def subscribeBody (from_ : ℤ) (table cursor condition : Option Str)
    (parameters : Option (List (Str × Value))) : Writer :=
  Writer.u64 from_ ++ (Writer.table table ++ Writer.narrowing cursor condition parameters)

def SubscribeArgs.body (a : SubscribeArgs) : Writer :=
  subscribeBody a.from_ a.table a.cursor a.condition a.parameters

/-! ### Vault -/

/-- The acts of the vault frame. -/
inductive Act where
  | status
  | unseal
  | seal
  | change
  | declare
  deriving DecidableEq, Repr

/-- `_ACTS`. -/
def Act.code : Act → ℕ
  | .status => 1
  | .unseal => 2
  | .seal => 3
  | .change => 4
  | .declare => 5

/-- The store, or one vault by its namespace, database and name. -/
def Writer.place (act : Act) : Option (Str × Str × Str) → Writer
  | none =>
      if act = .declare then
        .error (.valueError "a declaration names its vault (protocol §3.14, act 5)")
      else
        Writer.u8 0
  | some (namespace_, database, name) =>
      Writer.u8 1 ++ (Writer.text namespace_ ++ (Writer.text database ++ Writer.text name))

/-- The fields an act carries. -/
def Writer.actFields (act : Act) (passphrase current new : Option Str) : Writer :=
  match act with
  | .unseal => Writer.text (passphrase.getD [])
  | .change => Writer.text (current.getD []) ++ Writer.text (new.getD [])
  | .declare => Writer.text (passphrase.getD [])
  | _ => .ok []

def frameBody (credentials : Option (Str × Str)) (act : Act) (passphrase current new : Option Str)
    (place : Option (Str × Str × Str)) : Writer :=
  Writer.credentials credentials ++
    (Writer.place act place ++
      (Writer.u8 act.code ++ Writer.actFields act passphrase current new))

/-- What a vault frame is built from. -/
structure VaultArgs where
  credentials : Option (Str × Option Str)
  act : Act
  passphrase : Option Str
  current : Option Str
  new : Option Str
  place : Option (Str × Str × Str)

def VaultArgs.body (a : VaultArgs) : Writer :=
  frameBody (presented a.credentials) a.act a.passphrase a.current a.new a.place

/-! ### Reading the parts back -/

namespace Bodies

open Decode (counted counted_inverts)

def encoded : Reader Value := do
  let raw ← Reader.lenbytes "a value"
  Get.ofExcept (decode raw)

def credentials : Reader (Option (Str × Str)) := do
  let flag ← Reader.u8 "a credentials flag"
  if flag = 0 then
    return none
  else do
    let user ← Reader.text "a user"
    let password ← Reader.text "a password"
    return some (user, password)

def parameter : Reader (Str × Value) := do
  let name ← Reader.text "a parameter name"
  let v ← encoded
  return (name, v)

def table : Reader (Option Str) := do
  let flag ← Reader.u8 "a table flag"
  if flag = 0 then
    return none
  else
    return some (← Reader.text "a table")

def place : Reader (Option (Str × Str × Str)) := do
  let flag ← Reader.u8 "a target flag"
  if flag = 0 then
    return none
  else do
    let namespace_ ← Reader.text "a namespace"
    let database ← Reader.text "a database"
    let name ← Reader.text "a vault"
    return some (namespace_, database, name)

def act : Reader Act := do
  let code ← Reader.u8 "an act"
  match code with
  | 1 => return .status
  | 2 => return .unseal
  | 3 => return .seal
  | 4 => return .change
  | 5 => return .declare
  | _ => Get.fail ⟨"an unknown act"⟩

def actFields : Act → Reader (List Str)
  | .unseal => do
      let passphrase ← Reader.text "a passphrase"
      return [passphrase]
  | .change => do
      let current ← Reader.text "a passphrase"
      let new ← Reader.text "a passphrase"
      return [current, new]
  | .declare => do
      let passphrase ← Reader.text "a passphrase"
      return [passphrase]
  | _ => return []

theorem encoded_inverts {v : Value} (hv : v.Keyed) :
    encoded.Inverts (Writer.encoded v) v.canon := by
  intro b hb
  rcases henc : encode v with e | raw
  · rw [Writer.encoded, henc] at hb
    cases hb
  · rw [Writer.encoded, henc] at hb
    have hdecode : decode raw = .ok v.canon :=
      decode_eq_ok.mpr (readValue_reads hv henc).eq_ok
    have hread := (Reader.lenbytes_inverts "a value" raw b hb).bind
      (f := fun raw => Get.ofExcept (decode raw)) (reads_ofExcept hdecode)
    rwa [List.append_nil] at hread

theorem credentials_inverts (c : Option (Str × Str)) :
    credentials.Inverts (Writer.credentials c) c := by
  rcases c with - | ⟨user, password⟩
  · rw [Writer.credentials, ← Put.append_ok_nil (Writer.u8 0)]
    exact (Reader.u8_inverts _ 0).bind (inverts_nil _)
  · exact (Reader.u8_inverts _ 1).bind
      ((Reader.text_inverts _ user).bind ((Reader.text_inverts _ password).map _))

theorem parameters_inverts {ps : List (Str × Value)} (h : ∀ p ∈ ps, p.2.Keyed) :
    (counted "a parameter count" parameter).Inverts (Writer.parameters ps)
      (Dict.mapValues Value.canon ps) := by
  have hparameter : ∀ p ∈ ps,
      parameter.Inverts (Writer.text p.1 ++ Writer.encoded p.2) (p.1, p.2.canon) := fun p hp =>
    (Reader.text_inverts _ p.1).bind ((encoded_inverts (h p hp)).map _)
  exact inverts_of_below fun k => counted_inverts _ fun p hp => (hparameter p hp).below

theorem table_inverts (t : Option Str) : table.Inverts (Writer.table t) t := by
  rcases t with - | t
  · rw [Writer.table, ← Put.append_ok_nil (Writer.u8 0)]
    exact (Reader.u8_inverts _ 0).bind (inverts_nil _)
  · exact (Reader.u8_inverts _ 1).bind ((Reader.text_inverts _ t).map _)

theorem place_inverts (a : Act) (p : Option (Str × Str × Str)) :
    place.Inverts (Writer.place a p) p := by
  rcases p with - | ⟨namespace_, database, name⟩
  · intro b hb
    rw [Writer.place] at hb
    split at hb
    · cases hb
    · rw [← Put.append_ok_nil (Writer.u8 0)] at hb
      exact (Reader.u8_inverts _ 0).bind (inverts_nil none) b hb
  · exact (Reader.u8_inverts _ 1).bind ((Reader.text_inverts _ namespace_).bind
      ((Reader.text_inverts _ database).bind ((Reader.text_inverts _ name).map _)))

theorem act_inverts (a : Act) : act.Inverts (Writer.u8 a.code) a := by
  rw [← Put.append_ok_nil (Writer.u8 _)]
  refine (Reader.u8_inverts _ _).bind ?_
  cases a <;> exact inverts_nil _

/-- The fields an act carries, with what is absent as empty. -/
def fieldsOf (act : Act) (passphrase current new : Option Str) : List Str :=
  match act with
  | .unseal => [passphrase.getD []]
  | .change => [current.getD [], new.getD []]
  | .declare => [passphrase.getD []]
  | _ => []

theorem actFields_inverts (a : Act) (passphrase current new : Option Str) :
    (actFields a).Inverts (Writer.actFields a passphrase current new)
      (fieldsOf a passphrase current new) := by
  match a with
  | .unseal => exact (Reader.text_inverts _ _).map _
  | .change => exact (Reader.text_inverts _ _).bind ((Reader.text_inverts _ _).map _)
  | .declare => exact (Reader.text_inverts _ _).map _
  | .status | .seal => exact inverts_nil _

end Bodies

/-! ### Whole bodies -/

/-- What a Request body says. -/
structure RequestMessage where
  script : Str
  credentials : Option (Str × Str)
  parameters : List (Str × Value)

def readRequest : Reader RequestMessage := do
  let script ← Reader.text "a script"
  let credentials ← Bodies.credentials
  let parameters ← Decode.counted "a parameter count" Bodies.parameter
  return ⟨script, credentials, parameters⟩

def RequestArgs.message (a : RequestArgs) : RequestMessage :=
  ⟨a.script, presented a.credentials, Dict.mapValues Value.canon a.parameters⟩

theorem RequestArgs.read_body {a : RequestArgs} {raw : Bytes} (h : a.body = .ok raw) :
    readRequest raw = .ok (a.message, []) := by
  have hinverts : readRequest.Inverts a.body a.message :=
    (Reader.text_inverts _ a.script).bind ((Bodies.credentials_inverts _).bind
      ((Bodies.parameters_inverts a.keyed).map _))
  exact (hinverts raw h).eq_ok

/-- What a Subscribe body says. -/
structure SubscribeMessage where
  from_ : ℕ
  table : Option Str
  cursor : Option Str
  /-- The condition with the object of its parameters. -/
  condition : Option (Str × Value)

def readSubscribe : Reader SubscribeMessage := do
  let from_ ← Reader.u64 "a position"
  let table ← Bodies.table
  if ← Get.exhausted then
    return ⟨from_, table, none, none⟩
  else do
    let cursor ← Reader.text "a cursor"
    if ← Get.exhausted then
      return ⟨from_, table, some cursor, none⟩
    else do
      let condition ← Reader.text "a condition"
      let parameters ← Bodies.encoded
      return ⟨from_, table, some cursor, some (condition, parameters)⟩

def SubscribeArgs.message (a : SubscribeArgs) : SubscribeMessage where
  from_ := a.from_.toNat
  table := a.table
  cursor := if a.condition.isSome then some (a.cursor.getD []) else a.cursor
  condition := a.condition.map fun c => (c, (Value.object (a.parameters.getD [])).canon)

/-- Two fields of `subscribe` that are always there. -/
theorem SubscribeArgs.read_start (a : SubscribeArgs) {b c : Bytes}
    (hb : Writer.u64 a.from_ = .ok b) (hc : Writer.table a.table = .ok c) (s : Bytes) :
    readSubscribe (b ++ (c ++ s)) =
      (if s.isEmpty then pure ⟨a.from_.toNat, a.table, none, none⟩ else
        Reader.text "a cursor" >>= fun cursor => Get.exhausted >>= fun ended =>
          if ended then pure ⟨a.from_.toNat, a.table, some cursor, none⟩ else
            Reader.text "a condition" >>= fun condition => Bodies.encoded >>= fun parameters =>
              pure ⟨a.from_.toNat, a.table, some cursor, some (condition, parameters)⟩ :
        Reader SubscribeMessage) s := by
  rw [readSubscribe, bind_of_ok (Reader.u64_inverts _ _ b hb (c ++ s)),
    bind_of_ok (Bodies.table_inverts _ c hc s), exhausted_bind]

theorem SubscribeArgs.read_body {a : SubscribeArgs} {raw : Bytes} (h : a.body = .ok raw) :
    readSubscribe raw = .ok (a.message, []) := by
  obtain ⟨b, d, hb, hd, rfl⟩ := Put.append_eq_ok.mp h
  obtain ⟨c, s, hc, hs, rfl⟩ := Put.append_eq_ok.mp hd
  obtain ⟨s₁, s₂, hs₁, hs₂, rfl⟩ := Put.append_eq_ok.mp hs
  rw [a.read_start hb hc]
  -- A text has a length in front of it, so it is never nothing.
  have hne : ∀ {t : Str} {x : Bytes}, Writer.text t = .ok x → ∀ y, (x ++ y).isEmpty = false := by
    intro t x hx y
    rcases x with - | ⟨z, x⟩
    · cases (Reader.text_inverts "" t [] hx).eq_ok
    · rfl
  rcases hcond : a.condition with - | condition
  · rw [hcond] at hs₁ hs₂
    obtain rfl := Except.ok.inj hs₂
    rcases hcursor : a.cursor with - | cursor
    · rw [hcursor] at hs₁
      obtain rfl := Except.ok.inj hs₁
      simp [SubscribeArgs.message, hcond, hcursor]
    · rw [hcursor] at hs₁
      have hcur := Reader.text_inverts "a cursor" cursor s₁ hs₁
      rw [hne hs₁, if_neg Bool.false_ne_true, List.append_nil, bind_of_ok hcur.eq_ok]
      simp [SubscribeArgs.message, hcond, hcursor, exhausted_bind]
  · rw [hcond] at hs₁ hs₂
    obtain ⟨x, y, hx, hy, rfl⟩ := Put.append_eq_ok.mp hs₂
    rw [if_pos (by simp)] at hs₁
    have hcur := Reader.text_inverts "a cursor" _ s₁ hs₁
    have hcondition := Reader.text_inverts "a condition" condition x hx
    have hparameters := Bodies.encoded_inverts a.keyed y hy
    rw [hne hs₁, if_neg Bool.false_ne_true, bind_of_ok (hcur _), exhausted_bind, hne hx,
      if_neg Bool.false_ne_true, bind_of_ok (hcondition _), bind_of_ok hparameters.eq_ok]
    simp [SubscribeArgs.message, hcond]

/-- What a Vault body says. -/
structure VaultMessage where
  credentials : Option (Str × Str)
  place : Option (Str × Str × Str)
  act : Act
  fields : List Str
  deriving DecidableEq

def readVault : Reader VaultMessage := do
  let credentials ← Bodies.credentials
  let place ← Bodies.place
  let act ← Bodies.act
  let fields ← Bodies.actFields act
  return ⟨credentials, place, act, fields⟩

def VaultArgs.message (a : VaultArgs) : VaultMessage :=
  ⟨presented a.credentials, a.place, a.act, Bodies.fieldsOf a.act a.passphrase a.current a.new⟩

theorem VaultArgs.read_body {a : VaultArgs} {raw : Bytes} (h : a.body = .ok raw) :
    readVault raw = .ok (a.message, []) := by
  have hinverts : readVault.Inverts a.body a.message :=
    (Bodies.credentials_inverts _).bind ((Bodies.place_inverts a.act a.place).bind
      ((Bodies.act_inverts a.act).bind
        ((Bodies.actFields_inverts a.act a.passphrase a.current a.new).map _)))
  exact (hinverts raw h).eq_ok

/-! ### Which arguments make one body -/

/-- The same user and password, an absent password and an empty one alike. -/
def SameCredentials : Option (Str × Option Str) → Option (Str × Option Str) → Prop
  | none, none => True
  | some (user, password), some (user', password') =>
      user = user' ∧ password.getD [] = password'.getD []
  | _, _ => False

theorem sameCredentials_iff {c c' : Option (Str × Option Str)} :
    SameCredentials c c' ↔ presented c = presented c' := by
  rcases c with - | ⟨u, p⟩ <;> rcases c' with - | ⟨u', p'⟩ <;> simp [SameCredentials, presented]

/-- Requests that are told apart by nothing but the order of fields inside an object. -/
def RequestArgs.Same (a a' : RequestArgs) : Prop :=
  a.script = a'.script ∧ SameCredentials a.credentials a'.credentials ∧
    List.Forall₂ (fun p q => p.1 = q.1 ∧ p.2.Same q.2) a.parameters a'.parameters

/-- Without a condition its parameters do not count; with one, absent parameters are none and
an absent cursor is an empty one. -/
def SubscribeArgs.Same (a a' : SubscribeArgs) : Prop :=
  a.from_ = a'.from_ ∧ a.table = a'.table ∧ a.condition = a'.condition ∧
    if a.condition.isSome then
      a.cursor.getD [] = a'.cursor.getD [] ∧
        (Value.object (a.parameters.getD [])).Same (.object (a'.parameters.getD []))
    else a.cursor = a'.cursor

/-- The secrets that the act carries are the same, an absent one and an empty one alike. -/
def VaultArgs.SameSecrets (a a' : VaultArgs) : Act → Prop
  | .unseal | .declare => a.passphrase.getD [] = a'.passphrase.getD []
  | .change => a.current.getD [] = a'.current.getD [] ∧ a.new.getD [] = a'.new.getD []
  | .status | .seal => True

def VaultArgs.Same (a a' : VaultArgs) : Prop :=
  SameCredentials a.credentials a'.credentials ∧ a.place = a'.place ∧ a.act = a'.act ∧
    a.SameSecrets a' a.act

theorem VaultArgs.sameSecrets_iff {a a' : VaultArgs} (act : Act) :
    a.SameSecrets a' act ↔ Bodies.fieldsOf act a.passphrase a.current a.new =
      Bodies.fieldsOf act a'.passphrase a'.current a'.new := by
  cases act <;> simp [SameSecrets, Bodies.fieldsOf]

theorem actFields_eq (act : Act) (passphrase current new : Option Str) :
    Writer.actFields act passphrase current new =
      Put.concat ((Bodies.fieldsOf act passphrase current new).map Writer.text) := by
  cases act <;> simp [Writer.actFields, Bodies.fieldsOf]

theorem encoded_canon {v : Value} (hv : v.Keyed) : Writer.encoded v.canon = Writer.encoded v := by
  rw [Writer.encoded, Writer.encoded, encode_canon hv]

theorem encoded_congr {v w : Value} (hv : v.Keyed) (hw : w.Keyed) (h : v.Same w) :
    Writer.encoded v = Writer.encoded w := by
  rw [← encoded_canon hv, ← encoded_canon hw, h]

theorem forall₂_same_iff {ps qs : List (Str × Value)} :
    List.Forall₂ (fun p q => p.1 = q.1 ∧ p.2.Same q.2) ps qs ↔
      Dict.mapValues Value.canon ps = Dict.mapValues Value.canon qs := by
  induction ps generalizing qs with
  | nil => cases qs <;> simp [Dict.mapValues]
  | cons p ps ih =>
      rcases qs with - | ⟨q, qs⟩
      · simp [Dict.mapValues]
      · rw [List.forall₂_cons, ih]
        simp [Dict.mapValues, Value.Same, and_assoc]

theorem parameters_canon {ps : List (Str × Value)} (h : ∀ p ∈ ps, p.2.Keyed) :
    Writer.parameters (Dict.mapValues Value.canon ps) = Writer.parameters ps := by
  have hmap : (Dict.mapValues Value.canon ps).map
      (fun p => Writer.text p.1 ++ Writer.encoded p.2) =
        ps.map fun p => Writer.text p.1 ++ Writer.encoded p.2 := by
    rw [Dict.mapValues, List.map_map]
    refine List.map_congr_left fun p hp => ?_
    exact congrArg (Writer.text p.1 ++ ·) (encoded_canon (h p hp))
  rw [Writer.parameters, Writer.parameters, hmap, Dict.mapValues, List.length_map]

theorem parameters_congr {ps qs : List (Str × Value)} (hps : ∀ p ∈ ps, p.2.Keyed)
    (hqs : ∀ q ∈ qs, q.2.Keyed)
    (h : List.Forall₂ (fun p q => p.1 = q.1 ∧ p.2.Same q.2) ps qs) :
    Writer.parameters ps = Writer.parameters qs := by
  rw [← parameters_canon hps, ← parameters_canon hqs, forall₂_same_iff.mp h]

theorem RequestArgs.body_eq_iff {a a' : RequestArgs} {raw raw' : Bytes} (h : a.body = .ok raw)
    (h' : a'.body = .ok raw') : raw = raw' ↔ a.Same a' := by
  constructor
  · rintro rfl
    have hmessage := (Prod.mk.inj (Except.ok.inj ((read_body h).symm.trans (read_body h')))).1
    obtain ⟨hscript, hcredentials, hparameters⟩ := RequestMessage.mk.inj hmessage
    exact ⟨hscript, sameCredentials_iff.mpr hcredentials, forall₂_same_iff.mpr hparameters⟩
  · rintro ⟨hscript, hcredentials, hparameters⟩
    have hbody : a.body = a'.body := by
      rw [body, body, requestBody, requestBody, hscript, sameCredentials_iff.mp hcredentials,
        parameters_congr a.keyed a'.keyed hparameters]
    exact Except.ok.inj (h.symm.trans (hbody.trans h'))

theorem SubscribeArgs.body_eq_iff {a a' : SubscribeArgs} {raw raw' : Bytes}
    (h : a.body = .ok raw) (h' : a'.body = .ok raw') : raw = raw' ↔ a.Same a' := by
  constructor
  · rintro rfl
    have hmessage := (Prod.mk.inj (Except.ok.inj ((read_body h).symm.trans (read_body h')))).1
    obtain ⟨hfrom, htable, hcursor, hcondition⟩ := SubscribeMessage.mk.inj hmessage
    obtain ⟨b, c, hb, -, -⟩ := Put.append_eq_ok.mp h
    obtain ⟨b', c', hb', -, -⟩ := Put.append_eq_ok.mp h'
    obtain ⟨⟨hpos, -⟩, -⟩ := Writer.u64_eq_ok.mp hb
    obtain ⟨⟨hpos', -⟩, -⟩ := Writer.u64_eq_ok.mp hb'
    refine ⟨by omega, htable, ?_⟩
    rcases hc : a.condition with - | condition <;> rcases hc' : a'.condition with - | condition'
    · simpa [hc, hc'] using hcursor
    · simp [hc, hc'] at hcondition
    · simp [hc, hc'] at hcondition
    · simp only [hc, hc', Option.map_some, Option.some.injEq, Prod.mk.injEq] at hcondition
      simp only [hc, hc', Option.isSome_some, if_true, Option.some.injEq] at hcursor
      exact ⟨congrArg some hcondition.1, by simpa using ⟨hcursor, hcondition.2⟩⟩
  · rintro ⟨hfrom, htable, hcondition, hrest⟩
    have hnarrowing : Writer.narrowing a.cursor a.condition a.parameters =
        Writer.narrowing a'.cursor a'.condition a'.parameters := by
      rw [← hcondition]
      rcases hc : a.condition with - | condition
      · have hcursor : a.cursor = a'.cursor := by simpa [hc] using hrest
        rw [hcursor]
        rfl
      · simp only [hc, Option.isSome_some, if_true] at hrest
        simp [Writer.narrowing, hrest.1, encoded_congr a.keyed a'.keyed hrest.2]
    have hbody : a.body = a'.body := by
      rw [body, body, subscribeBody, subscribeBody, hfrom, htable, hnarrowing]
    exact Except.ok.inj (h.symm.trans (hbody.trans h'))

theorem VaultArgs.body_eq_iff {a a' : VaultArgs} {raw raw' : Bytes} (h : a.body = .ok raw)
    (h' : a'.body = .ok raw') : raw = raw' ↔ a.Same a' := by
  constructor
  · rintro rfl
    have hmessage := (Prod.mk.inj (Except.ok.inj ((read_body h).symm.trans (read_body h')))).1
    obtain ⟨hcredentials, hplace, hact, hfields⟩ := VaultMessage.mk.inj hmessage
    rw [← hact] at hfields
    exact ⟨sameCredentials_iff.mpr hcredentials, hplace, hact,
      (sameSecrets_iff a.act).mpr hfields⟩
  · rintro ⟨hcredentials, hplace, hact, hsecrets⟩
    have hbody : a.body = a'.body := by
      rw [body, body, frameBody, frameBody, sameCredentials_iff.mp hcredentials, hplace,
        actFields_eq, actFields_eq, (sameSecrets_iff a.act).mp hsecrets, hact]
    exact Except.ok.inj (h.symm.trans (hbody.trans h'))

/-- **Every outgoing body says one thing.** The reader of a body takes all of it and returns
the message of the arguments it was built from, and two lists of arguments make one body
exactly when they are the same arguments. -/
theorem bodies_say_one_thing :
    (∀ (a : RequestArgs) (raw : Bytes), a.body = .ok raw →
      readRequest raw = .ok (a.message, []) ∧
      ∀ (a' : RequestArgs) (raw' : Bytes), a'.body = .ok raw' → (raw = raw' ↔ a.Same a')) ∧
    (∀ (a : SubscribeArgs) (raw : Bytes), a.body = .ok raw →
      readSubscribe raw = .ok (a.message, []) ∧
      ∀ (a' : SubscribeArgs) (raw' : Bytes), a'.body = .ok raw' → (raw = raw' ↔ a.Same a')) ∧
    ∀ (a : VaultArgs) (raw : Bytes), a.body = .ok raw →
      readVault raw = .ok (a.message, []) ∧
      ∀ (a' : VaultArgs) (raw' : Bytes), a'.body = .ok raw' → (raw = raw' ↔ a.Same a') :=
  ⟨fun _ _ h => ⟨RequestArgs.read_body h, fun _ _ h' => RequestArgs.body_eq_iff h h'⟩,
    fun _ _ h => ⟨SubscribeArgs.read_body h, fun _ _ h' => SubscribeArgs.body_eq_iff h h'⟩,
    fun _ _ h => ⟨VaultArgs.read_body h, fun _ _ h' => VaultArgs.body_eq_iff h h'⟩⟩

/-- A user with an empty script and one without a password, and a vault act that ignores its
passphrase. -/
theorem bodies_say_one_thing_absent :
    readRequest [0, 0, 0, 0, 1, 0, 0, 0, 1, 0x75, 0, 0, 0, 0, 0, 0, 0, 0] =
        .ok (⟨[], some (ofString "u", []), []⟩, []) ∧
      readSubscribe [0, 0, 0, 0, 0, 0, 0, 7, 0] = .ok (⟨7, none, none, none⟩, []) ∧
      readVault [0, 0, 1] = .ok (⟨none, none, .status, []⟩, []) := by
  obtain ⟨hrequest, hsubscribe, hvault⟩ := bodies_say_one_thing
  exact ⟨(hrequest ⟨[], some (ofString "u", none), [], nofun⟩ _ rfl).1,
    (hsubscribe ⟨7, none, none, none, none, ⟨List.nodup_nil, trivial⟩⟩ _ rfl).1,
    (hvault ⟨none, .status, some (ofString "p"), none, none, none⟩ _ rfl).1⟩

/-- Parameters given without a condition are in no body, and neither is whether parameters
were given at all beside one. -/
theorem subscribe_body_forgets_parameters :
    subscribeBody 0 none none none (some [(ofString "a", .nullValue)]) =
        .ok [0, 0, 0, 0, 0, 0, 0, 0, 0] ∧
      subscribeBody 0 none none none none = .ok [0, 0, 0, 0, 0, 0, 0, 0, 0] ∧
      (∃ raw, subscribeBody 0 none none (some []) none = .ok raw ∧
        subscribeBody 0 none none (some []) (some []) = .ok raw) ∧
      some [(ofString "a", Value.nullValue)] ≠ none ∧
      (none : Option (List (Str × Value))) ≠ some [] :=
  ⟨rfl, rfl, ⟨_, rfl, rfl⟩, nofun, nofun⟩

end TessariDB
