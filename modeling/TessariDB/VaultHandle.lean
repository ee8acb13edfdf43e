import TessariDB.Follow
import TessariDB.Handles
import TessariDB.VaultStatus

/-!
# The Vault

`vault.py`: the acts of the store and of one vault, each a frame of its own, and the statements of
a vault with what is made of their answers. An act is answered with a status; a statement goes the
way of every other, redirects included.

`Vault.Call` is one call of these functions, or of `execute` on the same connection, and `results`
what a caller sees of a sequence of them.
-/

namespace TessariDB

open ByteCodec ByteStream Utf8

/-- The first minor whose nodes read a declaration. -/
def Frames.DECLARE_MINOR : ℕ := 6

/-- What leaves a function of `vault.py`. -/
inductive VaultRaised where
  | rejected (why : Rejected)
  | raised (why : Raised)
  | status (why : VaultStatus.StatusRaised)
  deriving DecidableEq

/-- What a function of `vault.py` does. -/
abbrev Vaulting := EStateM VaultRaised (Connection × World)

/-- `IdLike`. -/
inductive IdLike where
  | str (text : Str)
  | int (n : ℤ)
  | value (v : Value)

/-- `_id`. -/
def IdLike.id : IdLike → Value
  | .str text => .text text
  | .int n => .integer n
  | .value v => v

/-- One page of a vault's record ids. -/
structure Page where
  ids : List Value
  next : Option Value

namespace Vault

/-- What the connection does. -/
def lift {α : Type} (m : Client α) : Vaulting α := m.adaptExcept .raised

/-- A value, or an exception, that was computed without the connection. -/
def attempt {α : Type} (x : Except VaultRaised α) : Vaulting α := settle x

/-- What is rendered, or refused before anything is sent. -/
def rendering {α : Type} (x : Except Rejected α) : Vaulting α := attempt (x.mapError .rejected)

/-! ### What an answer says -/

def malformed {α : Type} (message : String) : Except VaultRaised α :=
  .error (.raised (.malformed message))

/-- `type(answered).__name__`, of the last outcome if there is one. -/
def typeName : Option Outcome → String
  | none => "NoneType"
  | some .done => "Done"
  | some (.records _) => "Records"
  | some (.valueOutcome _ _) => "ValueOutcome"
  | some (.keys _) => "Keys"
  | some (.removed _) => "Removed"
  | some (.unknown _ _) => "Unknown"

/-- What a vault statement answered. -/
def answerOf (reply : Reply) : Except VaultRaised Value :=
  match reply.outcomes.getLast? with
  | some (.valueOutcome _ value) => .ok value
  | some .done => malformed "a vault read answered no value"
  | other =>
      let name := typeName other
      malformed s!"a vault statement answered {name}"

/-- The fields of an object, and none of anything else. -/
def fieldsOf : Value → List (Str × Value)
  | .object fields => fields
  | _ => []

/-- The array of an audit. -/
def auditOf (report : Value) : Except VaultRaised (List Value) :=
  match Dict.get? (fieldsOf report) (ofString "audit") with
  | some (.array entries) => .ok entries
  | _ => malformed "an audit answer holds an array"

def pageOf (report : Value) : Except VaultRaised Page :=
  match Dict.get? (fieldsOf report) (ofString "records") with
  | some (.array ids) =>
      match Dict.get? (fieldsOf report) (ofString "next") with
      | none | some .noneValue => .ok ⟨ids, none⟩
      | some following => .ok ⟨ids, some following⟩
  | _ => malformed "a listing holds an array of ids"

def revealedOf : Value → Except VaultRaised (List (Str × Value))
  | .object fields => .ok fields
  | _ => malformed "a reveal answers an object"

/-- The key material of one recipient. -/
def keyOf : Value → Except VaultRaised Bytes
  | .bytes key => .ok key
  | _ => malformed "recipients are names to bytes"

def recipientsOf (report : Value) : Except VaultRaised (List (Str × Bytes)) :=
  match Dict.get? (fieldsOf report) (ofString "recipients") with
  | some (.object held) => held.mapM fun (name, key) => return (name, ← keyOf key)
  | _ => malformed "recipients are names to bytes"

/-! ### Calls -/

section

variable (python : Interpreter) (outside : ℤ → VaultStatus.LibraryRaised)

/-- An act, and the status it is answered with. -/
def act (body : Option (Str × Str) → Writer) : Vaulting VaultStatus.Status := do
  let value ← lift (Connection.vault body)
  attempt ((VaultStatus.read python outside value).mapError .status)

/-- `vault_status`. -/
def storeStatus : Vaulting VaultStatus.Status :=
  act python outside fun credentials => frameBody credentials .status none none none none

/-- `unseal`, of the store. -/
def storeUnseal (passphrase : Str) : Vaulting VaultStatus.Status :=
  act python outside fun credentials =>
    frameBody credentials .unseal (some passphrase) none none none

/-- `seal`, of the store. -/
def storeSeal : Vaulting VaultStatus.Status :=
  act python outside fun credentials => frameBody credentials .seal none none none none

/-- `change_passphrase`, of the store. -/
def storeChangePassphrase (current new : Str) : Vaulting VaultStatus.Status :=
  act python outside fun credentials =>
    frameBody credentials .change none (some current) (some new) none

variable (s : VaultStatements)

/-- `_place`. -/
def place : Str × Str × Str := (s.inNamespace.text, s.inDatabase.text, s.vault.text)

/-- `_act`. -/
def actOn (kind : Act) (passphrase current new : Option Str) : Vaulting VaultStatus.Status :=
  act python outside fun credentials =>
    frameBody credentials kind passphrase current new (some (place s))

def status : Vaulting VaultStatus.Status := actOn python outside s .status none none none

def unseal_ (passphrase : Str) : Vaulting VaultStatus.Status :=
  actOn python outside s .unseal (some passphrase) none none

def seal_ : Vaulting VaultStatus.Status := actOn python outside s .seal none none none

def changePassphrase (current new : Str) : Vaulting VaultStatus.Status :=
  actOn python outside s .change none (some current) (some new)

/-- `declare`. -/
def declare (passphrase : Str) : Vaulting VaultStatus.Status := do
  let (c, _) ← get
  if c.minor < Frames.DECLARE_MINOR then
    throw (.raised (.nodeTooOld c.minor Frames.DECLARE_MINOR "the vault frame's declare act"))
  else
    actOn python outside s .declare (some passphrase) none none

end

/-- `execute` with what was rendered. -/
def send (r : Rendered Value) : Vaulting Reply := lift (Connection.execute r.script r.parameters)

/-- `_value`. -/
def value (r : Rendered Value) : Vaulting Value := do
  let reply ← send r
  attempt (answerOf reply)

/-- `vault_audit`. -/
def audit (inNamespace inDatabase : Str) (by_ : Option Str) : Vaulting (List Value) := do
  let r ← rendering (auditStatement inNamespace inDatabase by_)
  let report ← value r
  attempt (auditOf report)

variable (s : VaultStatements)

def list (after : Option Value) (limit : Option ℤ) : Vaulting Page := do
  let r ← rendering (s.list after limit)
  let report ← value r
  attempt (pageOf report)

def reveal (record : IdLike) (fields : List Str) : Vaulting (List (Str × Value)) := do
  let r ← rendering (s.reveal record.id fields)
  let revealed ← value r
  attempt (revealedOf revealed)

def write (record : IdLike) (fields : List (Str × Value)) : Vaulting Unit := do
  let r ← rendering (s.write record.id fields)
  discard (send r)

def recipients (record : IdLike) : Vaulting (List (Str × Bytes)) := do
  let report ← value (s.recipients record.id)
  attempt (recipientsOf report)

def addRecipient (record : IdLike) (name : Str) (key : Bytes) : Vaulting Unit :=
  discard (send (s.addRecipient record.id name key))

def removeRecipient (record : IdLike) (name : Str) : Vaulting Unit :=
  discard (send (s.removeRecipient record.id name))

end Vault

/-! ### Sequences of calls -/

/-- A call over one connection, with the vault it is about. -/
inductive Vault.Call where
  | execute (script : Str) (parameters : List (Str × Value))
  | storeStatus
  | storeUnseal (passphrase : Str)
  | storeSeal
  | storeChangePassphrase (current new : Str)
  | audit (inNamespace inDatabase : Str) (by_ : Option Str)
  | status (s : VaultStatements)
  | unseal (s : VaultStatements) (passphrase : Str)
  | seal (s : VaultStatements)
  | changePassphrase (s : VaultStatements) (current new : Str)
  | declare (s : VaultStatements) (passphrase : Str)
  | list (s : VaultStatements) (after : Option Value) (limit : Option ℤ)
  | reveal (s : VaultStatements) (record : IdLike) (fields : List Str)
  | write (s : VaultStatements) (record : IdLike) (fields : List (Str × Value))
  | recipients (s : VaultStatements) (record : IdLike)
  | addRecipient (s : VaultStatements) (record : IdLike) (name : Str) (key : Bytes)
  | removeRecipient (s : VaultStatements) (record : IdLike) (name : Str)

/-- What a call returns. -/
inductive Vault.Answer where
  | reply (reply : Reply)
  | status (status : VaultStatus.Status)
  | values (values : List Value)
  | page (page : Page)
  | fields (fields : List (Str × Value))
  | keys (keys : List (Str × Bytes))
  | nothing

namespace Vault.Call

variable (python : Interpreter) (outside : ℤ → VaultStatus.LibraryRaised)

def perform : Vault.Call → Vaulting Vault.Answer
  | .execute script ps => .reply <$> Vault.send ⟨script, ps⟩
  | .storeStatus => .status <$> Vault.storeStatus python outside
  | .storeUnseal passphrase => .status <$> Vault.storeUnseal python outside passphrase
  | .storeSeal => .status <$> Vault.storeSeal python outside
  | .storeChangePassphrase current new =>
      .status <$> Vault.storeChangePassphrase python outside current new
  | .audit inNamespace inDatabase by_ => .values <$> Vault.audit inNamespace inDatabase by_
  | .status s => .status <$> Vault.status python outside s
  | .unseal s passphrase => .status <$> Vault.unseal_ python outside s passphrase
  | .seal s => .status <$> Vault.seal_ python outside s
  | .changePassphrase s current new =>
      .status <$> Vault.changePassphrase python outside s current new
  | .declare s passphrase => .status <$> Vault.declare python outside s passphrase
  | .list s after limit => .page <$> Vault.list s after limit
  | .reveal s record fields => .fields <$> Vault.reveal s record fields
  | .write s record fields => (fun _ => .nothing) <$> Vault.write s record fields
  | .recipients s record => .keys <$> Vault.recipients s record
  | .addRecipient s record name key =>
      (fun _ => .nothing) <$> Vault.addRecipient s record name key
  | .removeRecipient s record name =>
      (fun _ => .nothing) <$> Vault.removeRecipient s record name

/-- What the caller of a sequence of calls sees, and the state behind it; a caller may go on after
an exception. -/
def results : List Vault.Call → Connection × World →
    List (Except VaultRaised Vault.Answer) × (Connection × World)
  | [], cw => ([], cw)
  | call :: calls, cw =>
      let result := call.perform python outside cw
      let rest := results calls (after result)
      (outcome result :: rest.1, rest.2)

end Vault.Call

end TessariDB
