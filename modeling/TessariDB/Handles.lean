import TessariDB.Query
import TessariDB.Sequences
import TessariDB.Value

/-!
# The Handles' Statements

The statements the four handles send, each rendered in one place: `_Statements` of `queue.py`,
of `consumer.py`, of `cache.py` with the container calls of `_container_statements.py`, and of
`vault.py`. A handle is built from names that were checked, and every statement begins with
the `USE` of its own tenancy.

A delay is a float number of seconds; `millis` is `int(delay * 1000)`, the arithmetic of floats
being a parameter.
-/

namespace TessariDB

open ByteCodec Utf8 Text

/-! ### Names and labels -/

/-- `_NAME.match`: `[A-Za-z_][A-Za-z0-9_]*\Z`. -/
def MatchesName (name : Str) : Prop :=
  match name with
  | [] => False
  | c :: rest => IsLetter c ∧ rest.dropWhile (fun d => decide (IsWord d)) = []

instance (name : Str) : Decidable (MatchesName name) :=
  match name with
  | [] => inferInstanceAs (Decidable False)
  | _ :: _ => inferInstanceAs (Decidable (_ ∧ _))

theorem isName_of_matches {name : Str} (h : MatchesName name) : IsName name := by
  cases name with
  | nil => exact h
  | cons c rest =>
      refine ⟨h.1, fun d hd => ?_⟩
      simpa using List.dropWhile_eq_nil_iff.mp h.2 d hd

/-- A name of a cache or a consumer. -/
def patternName (what : String) (name : Str) : Except Rejected Name :=
  if h : MatchesName name then .ok ⟨name, isName_of_matches h⟩
  else .error (.builderError ⟨.notAName, what, name⟩)

/-- A character a worker or a group may be named with. -/
def IsLabelChar (c : CodePoint) : Prop := IsWord c ∨ c.val = 0x2E ∨ c.val = 0x3A ∨ c.val = 0x2D

instance (c : CodePoint) : Decidable (IsLabelChar c) := instDecidableOr

/-- `_WORKER.match` and `_GROUP.match`: `[A-Za-z0-9_.:-]{1,128}\Z`. -/
def IsLabel (label : Str) : Prop :=
  1 ≤ label.length ∧ label.length ≤ 128 ∧ ∀ c ∈ label, IsLabelChar c

instance (label : Str) : Decidable (IsLabel label) :=
  haveI : Decidable (∀ c ∈ label, IsLabelChar c) := List.decidableBAll IsLabelChar label
  inferInstanceAs (Decidable (_ ∧ _ ∧ _))

/-- A worker's or a group's name that was checked. -/
structure Label where
  text : Str
  valid : IsLabel text

def checkLabel (what : String) (label : Str) : Except Rejected Label :=
  if h : IsLabel label then .ok ⟨label, h⟩ else .error (.builderError ⟨.notAName, what, label⟩)

/-- The `USE` sent with every statement. -/
def tenancy (inNamespace inDatabase : Name) : Str :=
  "USE NAMESPACE " ++ inNamespace.text ++ "; USE DATABASE " ++ inDatabase.text ++ "; "

/-- A span of time, as the store holds it. -/
structure Duration where
  seconds : ℤ
  nanos : ℤ
  deriving DecidableEq, Repr

def Duration.value (d : Duration) : Value := .duration d.seconds d.nanos

/-- The milliseconds of a delay, `0` where none was given. -/
def millisOf (millis : Double → Except Rejected ℤ) (delay : Option Double) : Except Rejected ℤ :=
  delay.elim (.ok 0) millis

/-- `given[name] = value`, of the parameters beside a script. -/
def Rendered.given {V : Type} (r : Rendered V) (name : String) (value : V) : Rendered V :=
  { r with parameters := Dict.set r.parameters name value }

/-! ### The queue -/

def CEILING : ℤ := 500

structure QueueStatements where
  inNamespace : Name
  inDatabase : Name
  queue : Name
  worker : Label

namespace QueueStatements

def new (inNamespace inDatabase queue worker : Str) : Except Rejected QueueStatements := do
  let inNamespace ← checkName "a namespace" inNamespace
  let inDatabase ← checkName "a database" inDatabase
  let queue ← checkName "a queue" queue
  let worker ← checkLabel "a worker" worker
  return ⟨inNamespace, inDatabase, queue, worker⟩

variable (s : QueueStatements)

def tenancy : Str := TessariDB.tenancy s.inNamespace s.inDatabase

def claim {V : Type} (count : ℤ) (narrowing : Option (Filter V)) :
    Except Rejected (Rendered V) :=
  if 1 ≤ count ∧ count ≤ CEILING then
    let (narrowed, parameters) := renderWhere narrowing []
    .ok ⟨s.tenancy ++ "USE CONSUMER '" ++ s.worker.text ++ "'; CLAIM " ++ str count ++ " FROM " ++
      s.queue.text ++ narrowed ++ ";", parameters⟩
  else .error (.builderError ⟨.notACount, "a count", str count⟩)

def done (identity : Str) : Str :=
  s.tenancy ++ "DELETE " ++ s.queue.text ++ ":" ++ identity ++ ";"

def release (millis : Double → Except Rejected ℤ) (identity : Str) (after : Option Double) :
    Except Rejected Str := do
  let n ← millisOf millis after
  let tail := if 0 < n then " NOT BEFORE " ++ str n ++ "ms" else []
  return s.tenancy ++ "RELEASE " ++ s.queue.text ++ ":" ++ identity ++ " FOR CONSUMER '" ++
    s.worker.text ++ "'" ++ tail ++ ";"

end QueueStatements

/-! ### The consumer -/

structure ConsumerStatements where
  inNamespace : Name
  inDatabase : Name
  topic : Name
  group : Label

namespace ConsumerStatements

def new (inNamespace inDatabase topic group : Str) : Except Rejected ConsumerStatements := do
  let inNamespace ← patternName "a namespace" inNamespace
  let inDatabase ← patternName "a database" inDatabase
  let topic ← patternName "a topic" topic
  let group ← checkLabel "a group" group
  return ⟨inNamespace, inDatabase, topic, group⟩

variable (s : ConsumerStatements)

def tenancy : Str := TessariDB.tenancy s.inNamespace s.inDatabase

def read (limit : ℤ) : Str :=
  s.tenancy ++ "READ FROM " ++ s.topic.text ++ " FOR CONSUMER '" ++ s.group.text ++ "' LIMIT " ++
    str limit ++ ";"

/-- `_settle`. -/
def settle (verb : Str) (positions : List ℤ) (tail : Str) : Rendered Value :=
  let names := (List.range positions.length).map fun index => "p" ++ digits index
  ⟨s.tenancy ++ verb ++ " " ++ s.topic.text ++ " FOR CONSUMER '" ++ s.group.text ++ "' AT " ++
      join ", " (names.map fun name => "$" ++ name) ++ tail ++ ";",
    Dict.ofPairs (names.zip (positions.map Value.integer))⟩

def ack (positions : List ℤ) : Rendered Value := s.settle "ACK" positions []

def nack (millis : Double → Except Rejected ℤ) (positions : List ℤ) (delay : Option Double) :
    Except Rejected (Rendered Value) := do
  let n ← millisOf millis delay
  let tail := if 0 < n then " DELAY " ++ str n ++ "ms" else []
  return s.settle "NACK" positions tail

end ConsumerStatements

/-! ### The cache -/

/-- `_Statements` of a cache, with the container calls mixed in. -/
structure CacheStatements where
  inNamespace : Name
  inDatabase : Name
  space : Name

namespace CacheStatements

def new (inNamespace inDatabase space : Str) : Except Rejected CacheStatements := do
  let inNamespace ← patternName "a namespace" inNamespace
  let inDatabase ← patternName "a database" inDatabase
  let space ← patternName "a space" space
  return ⟨inNamespace, inDatabase, space⟩

variable (s : CacheStatements)

def tenancy : Str := TessariDB.tenancy s.inNamespace s.inDatabase

/-- `_keyed`, and `_bound` of the container calls. -/
def keyed (statement key : Str) : Rendered Value :=
  ⟨s.tenancy ++ statement, [("k", .text key)]⟩

/-- `_keyed`, with a holder. -/
def held (statement key holder : Str) (ttl : Option Duration) : Rendered Value :=
  let r := (s.keyed statement key).given "h" (.text holder)
  ttl.elim r fun ttl => r.given "t" ttl.value

def get (key : Str) : Rendered Value := s.keyed ("GET " ++ s.space.text ++ ":$k;") key

/-- `set`; `condition` is the clause the handle's own method writes. -/
def set (key : Str) (value : Value) (condition : Str) (expected : Option Value)
    (ttl : Option Duration) : Rendered Value :=
  let expiry : Str := if ttl.isSome then " EXPIRE $t" else ([] : Str)
  let r := (s.keyed ("SET " ++ s.space.text ++ ":$k = $v" ++ condition ++ expiry ++ ";") key).given
    "v" value
  let r := expected.elim r fun expected => r.given "e" expected
  ttl.elim r fun ttl => r.given "t" ttl.value

def delete (key : Str) : Rendered Value :=
  s.keyed ("DELETE " ++ s.space.text ++ ":$k RETURN BEFORE;") key

def incr (key : Str) (by_ : ℤ) : Rendered Value :=
  (s.keyed ("INCR " ++ s.space.text ++ ":$k BY $n;") key).given "n" (.integer by_)

def ttl (key : Str) : Rendered Value := s.keyed ("RETURN TTL " ++ s.space.text ++ ":$k;") key

def expire (key : Str) (ttl : Duration) : Rendered Value :=
  (s.keyed ("EXPIRE " ++ s.space.text ++ ":$k $t;") key).given "t" ttl.value

def persist (key : Str) : Rendered Value := s.keyed ("PERSIST " ++ s.space.text ++ ":$k;") key

/-- `keys`; an empty prefix is no prefix. -/
def keys (before after : Option Str) (limit : ℤ) : Rendered Value :=
  let r : Rendered Value := ⟨s.tenancy ++ "KEYS FROM " ++ s.space.text, []⟩
  let r := (before.filter (· ≠ [])).elim r fun before =>
    { r with script := r.script ++ " PREFIX $p" }.given "p" (.text before)
  let r := after.elim r fun after =>
    { r with script := r.script ++ " AFTER $a" }.given "a" (.text after)
  { r with script := r.script ++ " LIMIT " ++ str limit ++ ";" }

def lock (key holder : Str) (ttl : Duration) : Rendered Value :=
  s.held ("SET " ++ s.space.text ++ ":$k = $h IF ABSENT EXPIRE $t;") key holder ttl

def extend (key holder : Str) (ttl : Duration) : Rendered Value :=
  s.held ("SET " ++ s.space.text ++ ":$k = $h IF = $h EXPIRE $t;") key holder ttl

def release (key holder : Str) : Rendered Value :=
  s.held ("SET " ++ s.space.text ++ ":$k = 'free' IF = $h EXPIRE 1ms;") key holder none

/-! ### The container calls -/

/-- The hole of a statement that takes a list. -/
def HOLE : Str := "\x7blist\x7d"

/-- The loop of `format`, with the characters of a hole still to skip. -/
def formatLoop (list : Str) : ℕ → Str → Str
  | _, [] => []
  | skip + 1, _ :: rest => formatLoop list skip rest
  | 0, c :: rest =>
      if HOLE.isPrefixOf (c :: rest) then list ++ formatLoop list (HOLE.length - 1) rest
      else c :: formatLoop list 0 rest

/-- `statement.format(list=list)`, for a statement without other brackets. -/
def format (statement list : Str) : Str := formatLoop list 0 statement

/-- `_numbered`. -/
def numberedGiven (statement key : Str) (initial : String) (values : List Value) :
    Rendered Value :=
  let given := values.zipIdx.foldl
    (fun given value => Dict.set given (initial ++ digits value.2) value.1)
    [(ofString "k", Value.text key)]
  let names := values.mapIdx fun index _ => "$" ++ ofString initial ++ digits index
  ⟨s.tenancy ++ format statement (join ", " names), given⟩

/-- `_paired`. -/
def pairedGiven (statement key : Str) (left right : String) (pairs : List (Value × Value)) :
    Rendered Value :=
  let given := pairs.zipIdx.foldl
    (fun given pair => Dict.set (Dict.set given (left ++ digits pair.2) pair.1.1)
      (right ++ digits pair.2) pair.1.2)
    [(ofString "k", Value.text key)]
  let written := pairs.mapIdx fun index _ =>
    "$" ++ ofString left ++ digits index ++ " = $" ++ ofString right ++ digits index
  ⟨s.tenancy ++ format statement (join ", " written), given⟩

/-- The end of a list that is worked on. -/
def listEnd (front : Bool) : Str := if front then "FRONT" else "BACK"

def listPush (key : Str) (values : List Value) (front : Bool) : Rendered Value :=
  s.numberedGiven ("LIST PUSH " ++ s.space.text ++ ":$k " ++ listEnd front ++ " \x7blist\x7d;") key
    "v" values

def listPop (key : Str) (front : Bool) (count : Option ℤ) : Rendered Value :=
  match count with
  | none => s.keyed ("LIST POP " ++ s.space.text ++ ":$k " ++ listEnd front ++ ";") key
  | some count =>
      (s.keyed ("LIST POP " ++ s.space.text ++ ":$k " ++ listEnd front ++ " LIMIT $n;") key).given
        "n" (.integer count)

def listRange (key : Str) (start count : ℤ) : Rendered Value :=
  ((s.keyed ("RETURN array::slice(GET " ++ s.space.text ++ ":$k, $i, $n);") key).given
    "i" (.integer start)).given "n" (.integer count)

def listAt (key : Str) (index : ℤ) : Rendered Value :=
  (s.keyed ("RETURN array::at(GET " ++ s.space.text ++ ":$k, $i);") key).given "i" (.integer index)

def listLen (key : Str) : Rendered Value :=
  s.keyed ("RETURN array::len(GET " ++ s.space.text ++ ":$k);") key

def listRemove (key : Str) (value : Value) (count : Option ℤ) : Rendered Value :=
  let limit : Str := if count.isNone then ([] : Str) else " LIMIT $n"
  let r := (s.keyed ("LIST REMOVE " ++ s.space.text ++ ":$k $v" ++ limit ++ ";") key).given
    "v" value
  count.elim r fun count => r.given "n" (.integer count)

def listTrim (key : Str) (start stop : ℤ) : Rendered Value :=
  ((s.keyed ("LIST TRIM " ++ s.space.text ++ ":$k FROM $i TO $j;") key).given
    "i" (.integer start)).given "j" (.integer stop)

def hashSet (key : Str) (fields : List (Str × Value)) : Rendered Value :=
  s.pairedGiven ("HASH SET " ++ s.space.text ++ ":$k \x7blist\x7d;") key "f" "v"
    (fields.map fun field => (.text field.1, field.2))

def hashGet (key field : Str) : Rendered Value :=
  (s.keyed ("RETURN object::get(GET " ++ s.space.text ++ ":$k, $f);") key).given "f" (.text field)

def hashRemove (key : Str) (fields : List Str) : Rendered Value :=
  s.numberedGiven ("HASH REMOVE " ++ s.space.text ++ ":$k \x7blist\x7d;") key "f"
    (fields.map Value.text)

def hashIncr (key field : Str) (by_ : ℤ) : Rendered Value :=
  ((s.keyed ("HASH INCR " ++ s.space.text ++ ":$k $f BY $n;") key).given "f" (.text field)).given
    "n" (.integer by_)

def hashLen (key : Str) : Rendered Value :=
  s.keyed ("RETURN object::len(GET " ++ s.space.text ++ ":$k);") key

def members (verb key : Str) (members : List Value) : Rendered Value :=
  s.numberedGiven ("MEMBERS " ++ verb ++ " " ++ s.space.text ++ ":$k \x7blist\x7d;") key "v" members

def membersHas (key : Str) (member : Value) : Rendered Value :=
  (s.keyed ("RETURN $v IN GET " ++ s.space.text ++ ":$k;") key).given "v" member

def membersLen (key : Str) : Rendered Value :=
  s.keyed ("RETURN set::len(GET " ++ s.space.text ++ ":$k);") key

def scoresAdd (key : Str) (scores : List (Str × Double)) : Rendered Value :=
  s.pairedGiven ("SCORES ADD " ++ s.space.text ++ ":$k \x7blist\x7d;") key "m" "c"
    (scores.map fun score => (.text score.1, .float score.2))

def scoresIncr (key member : Str) (by_ : Double) : Rendered Value :=
  ((s.keyed ("SCORES INCR " ++ s.space.text ++ ":$k $m BY $c;") key).given "m" (.text member)).given
    "c" (.float by_)

def scoresRemove (key : Str) (members : List Str) : Rendered Value :=
  s.numberedGiven ("SCORES REMOVE " ++ s.space.text ++ ":$k \x7blist\x7d;") key "m"
    (members.map Value.text)

def scoresOf (function key member : Str) : Rendered Value :=
  (s.keyed ("RETURN scores::" ++ function ++ "(GET " ++ s.space.text ++ ":$k, $m);") key).given
    "m" (.text member)

def scoresRange (key : Str) (start stop : ℤ) : Rendered Value :=
  ((s.keyed ("RETURN scores::range(GET " ++ s.space.text ++ ":$k, $i, $j);") key).given
    "i" (.integer start)).given "j" (.integer stop)

def scoresBetween (key : Str) (low high : Option Double) : Rendered Value :=
  let lowText : Str := if low.isNone then "NONE" else "$lo"
  let highText : Str := if high.isNone then "NONE" else "$hi"
  let r := s.keyed ("RETURN scores::between(GET " ++ s.space.text ++ ":$k, " ++ lowText ++ ", " ++
    highText ++ ");") key
  let r := low.elim r fun low => r.given "lo" (.float low)
  high.elim r fun high => r.given "hi" (.float high)

end CacheStatements

/-! ### The vault -/

def MOST_IDS : ℤ := 10000

/-- `_tenancy` of the vault. -/
def checkedTenancy (inNamespace inDatabase : Str) : Except Rejected (Name × Name) := do
  let inNamespace ← checkName "a namespace" inNamespace
  let inDatabase ← checkName "a database" inDatabase
  return (inNamespace, inDatabase)

/-- `audit_statement`. -/
def auditStatement (inNamespace inDatabase : Str) (by_ : Option Str) :
    Except Rejected (Rendered Value) := do
  let (inNamespace, inDatabase) ← checkedTenancy inNamespace inDatabase
  match by_ with
  | none => return ⟨tenancy inNamespace inDatabase ++ "INFO FOR AUDIT;", []⟩
  | some by_ =>
      let actor ← checkName "an actor" by_
      return ⟨tenancy inNamespace inDatabase ++ "INFO FOR AUDIT BY " ++ actor.text ++ ";", []⟩

/-- The check of `_sorted_fields`, in the order the fields are given in. -/
def checkFieldNames (names : List Str) : Except Rejected (List Name) :=
  names.mapM (checkName "a field")

theorem checkFieldNames_ok_iff {names : List Str} :
    (∃ checked, checkFieldNames names = .ok checked) ↔ ∀ name ∈ names, IsName name := by
  rw [checkFieldNames, Sequences.exists_mapM_ok]
  exact forall₂_congr fun _ _ => checkName_ok_iff

structure VaultStatements where
  inNamespace : Name
  inDatabase : Name
  vault : Name

namespace VaultStatements

def new (inNamespace inDatabase vault : Str) : Except Rejected VaultStatements := do
  let (inNamespace, inDatabase) ← checkedTenancy inNamespace inDatabase
  let vault ← checkName "a vault" vault
  return ⟨inNamespace, inDatabase, vault⟩

variable (s : VaultStatements)

def tenancy : Str := TessariDB.tenancy s.inNamespace s.inDatabase

def list (after : Option Value) (limit : Option ℤ) : Except Rejected (Rendered Value) := do
  let (clauses, given) := after.elim (([] : Str), []) fun after =>
    (" AFTER " ++ s.vault.text ++ ":$after", [(ofString "after", after)])
  let clauses ← match limit with
    | none => pure clauses
    | some limit =>
        if 1 ≤ limit ∧ limit ≤ MOST_IDS then pure (clauses ++ " LIMIT " ++ str limit)
        else throw (.notAVaultArgument "bad-limit" "a listing asks for 1 to 10000 ids")
  return ⟨s.tenancy ++ "INFO FOR VAULT " ++ s.vault.text ++ " RECORDS" ++ clauses ++ ";", given⟩

/-- The fields a reveal names, each quoted. -/
def which (names : List Str) : Str :=
  if names = [] then ofString "*" else join ", " (names.map fun name => "'" ++ name ++ "'")

def reveal (record : Value) (fields : List Str) : Except Rejected (Rendered Value) := do
  let _ ← checkFieldNames fields
  return ⟨s.tenancy ++ "REVEAL " ++ which (fields.insertionSort (· ≤ ·)) ++ " FROM " ++
    s.vault.text ++ ":$id;", [("id", record)]⟩

def write (record : Value) (fields : List (Str × Value)) : Except Rejected (Rendered Value) := do
  if fields = [] then
    throw (.notAVaultArgument "no-fields" "a write sets at least one field")
  let _ ← checkFieldNames (Dict.keys fields)
  let items := Dict.sorted fields
  let pairs := items.mapIdx fun index item => "'" ++ item.1 ++ "': $f" ++ digits index
  let given := items.zipIdx.foldl
    (fun given item => Dict.set given ("f" ++ digits item.2) item.1.2) [(ofString "id", record)]
  return ⟨s.tenancy ++ "UPSERT " ++ s.vault.text ++ ":$id MERGE \x7b " ++ join ", " pairs ++ " \x7d;",
    given⟩

def recipients (record : Value) : Rendered Value :=
  ⟨s.tenancy ++ "INFO FOR RECIPIENTS OF " ++ s.vault.text ++ ":$id;", [("id", record)]⟩

def addRecipient (record : Value) (name : Str) (key : Bytes) : Rendered Value :=
  ⟨s.tenancy ++ "ADD RECIPIENT $name TO " ++ s.vault.text ++ ":$id KEY $key;",
    [("id", record), ("name", .text name), ("key", .bytes key)]⟩

def removeRecipient (record : Value) (name : Str) : Rendered Value :=
  ⟨s.tenancy ++ "REMOVE RECIPIENT $name FROM " ++ s.vault.text ++ ":$id;",
    [("id", record), ("name", .text name)]⟩

end VaultStatements

end TessariDB
