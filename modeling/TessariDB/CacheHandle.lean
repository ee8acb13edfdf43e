import TessariDB.CacheRenderers
import TessariDB.Doubles
import TessariDB.Follow
import TessariDB.Lease
import TessariDB.Quoting

/-!
# The Cache

`cache.py` and the container calls of `_containers.py` over a connection. A method checks its
arguments, executes one statement and makes something of the last outcome that is answered. Only
`get_or_set` takes more than one statement; it is written in `TessariDB.GetOrSet`.

`CacheMethod` is one call of a method as data, and `planned` what the method plans once its
arguments are checked: a statement, and what it makes of the outcomes.

## Main results

* `perform_eq`: a method, as it is written, is one statement between the check of its arguments and
  the reading of its answer.
-/

namespace TessariDB

open ByteCodec ByteStream Utf8 Text

/-- `MOST_KEYS`. -/
def MOST_KEYS : ℤ := 1000

/-- A number of a caller where a whole one is wanted; `other` is no `int`, and a `bool` is none. -/
inductive IntLike where
  | int (n : ℤ)
  | other

/-- A number of a caller where a score is wanted; a `bool` is `other`. -/
inductive ScoreLike where
  | int (n : ℤ)
  | float (x : Double)
  | other

/-- What leaves a method of a cache: a refusal before anything is sent, an error of the connection,
or an answer that is none to what was asked. -/
inductive CacheRaised where
  | rejected (why : Rejected)
  | raised (why : Raised)
  | statementAnswered (what : String) (answered : Option Outcome)
  | valueAnswered (what : String) (found : Value)

/-- What a method of a cache does. -/
abbrev Caching := EStateM CacheRaised (Connection × World)

namespace CacheHandle

/-! ### Arguments -/

def refused {α : Type} (reason : String) : Except Rejected α := .error (.notACacheArgument reason)

/-- `_some`. -/
def some_ {α : Type} (items : List α) (reason : String) : Except Rejected Unit :=
  if items.length = 0 then refused reason else return ()

/-- `_whole`. -/
def whole (number : IntLike) (reason : String) (negative : Bool) : Except Rejected ℤ :=
  match number with
  | .int n => if ¬ negative ∧ n < 0 then refused reason else return n
  | .other => refused reason

/-- `_finite`, and the float that the score becomes. -/
def finite (float : ℤ → Except Rejected Double) (score : ScoreLike) : Except Rejected Double :=
  match score with
  | .int n => float n
  | .float x => if Doubles.isFinite x then return x else refused "a score is a finite number"
  | .other => refused "a score is a finite number"

/-- The check of `keys`. -/
def checkedLimit (limit : IntLike) : Except Rejected ℤ :=
  match limit with
  | .int n =>
      if 1 ≤ n ∧ n ≤ MOST_KEYS then return n
      else refused "a key listing asks for 1 to 1000 keys"
  | .other => refused "a key listing asks for 1 to 1000 keys"

/-- The holder of a lock. -/
def checkedHolder (holder : Option Str) (token : Str) : Except Rejected Str :=
  if holder = some [] then refused "a lock's holder is not empty" else return holder.getD token

/-! ### Answers -/

/-- The value of the last outcome. -/
def answered (outcomes : List Outcome) : Except CacheRaised Value :=
  match outcomes.getLast? with
  | some (.valueOutcome _ value) => .ok value
  | some .done => .ok .noneValue
  | other => .error (.statementAnswered "a cache statement" other)

def boolOf (what : String) : Value → Except CacheRaised Bool
  | .bool b => .ok b
  | found => .error (.valueAnswered what found)

/-- `_integer`. -/
def integerOf (what : String) : Value → Except CacheRaised ℤ
  | .integer n => .ok n
  | found => .error (.valueAnswered what found)

def scoreOf : Value → Except CacheRaised Double
  | .float x => .ok x
  | found => .error (.valueAnswered "a score" found)

/-- `_length`. -/
def lengthOf : Value → Except CacheRaised ℤ
  | .noneValue => .ok 0
  | found => integerOf "a container call" found

/-- `_present`. -/
def presentOf : Value → Option Value
  | .noneValue => none
  | found => some found

/-- `_items`. -/
def itemsOf : Value → Except CacheRaised (List Value)
  | .noneValue => .ok []
  | .array items => .ok items
  | found => .error (.valueAnswered "a container read" found)

/-- One pair of a ranking. -/
def rankedOf : Value → Except CacheRaised (Str × Double)
  | .array [.text member, .float score] => .ok (member, score)
  | pair => .error (.valueAnswered "a ranking read" pair)

/-- `_ranked`. -/
def rankingOf (found : Value) : Except CacheRaised (List (Str × Double)) := do
  let items ← itemsOf found
  items.mapM rankedOf

/-- What `ttl` answers. -/
def lastingOf : Value → Except CacheRaised Value
  | .duration seconds nanos => .ok (.duration seconds nanos)
  | .noneValue => .ok .noneValue
  | .nullValue => .ok .nullValue
  | found => .error (.valueAnswered "a ttl" found)

/-- What `hash_get_all` answers. -/
def hashOf : Value → Except CacheRaised (List (Str × Value))
  | .noneValue => .ok []
  | .object fields => .ok fields
  | found => .error (.valueAnswered "a hash read" found)

/-- What `members_all` answers. -/
def setOf : Value → Except CacheRaised (List Value)
  | .noneValue => .ok []
  | .set items => .ok items
  | found => .error (.valueAnswered "a set read" found)

/-- A part of a ranking that is not there is nothing. -/
def orNone {α : Type} (read : Value → Except CacheRaised α) :
    Value → Except CacheRaised (Option α)
  | .noneValue => .ok none
  | found => some <$> read found

/-- What `keys` answers. -/
def keysOf (outcomes : List Outcome) : Except CacheRaised (List Str) :=
  match outcomes.getLast? with
  | some (.keys keys) => .ok (keys.map Quoting.unquoted)
  | other => .error (.statementAnswered "a key listing" other)

/-! ### Statements -/

def lift {α : Type} (m : Client α) : Caching α := m.adaptExcept .raised

/-- A value, or an exception, that takes no connection. -/
def attempt {α : Type} (x : Except CacheRaised α) : Caching α := settle x

def checked {α : Type} (x : Except Rejected α) : Caching α := attempt (x.mapError .rejected)

/-- `execute` with what was rendered. -/
def execute (r : Rendered Value) : Caching (List Outcome) := do
  let reply ← lift (Connection.execute r.script r.parameters)
  return reply.outcomes

/-- `_value`. -/
def value (r : Rendered Value) : Caching Value := do
  let outcomes ← execute r
  attempt (answered outcomes)

/-- `_flag`. -/
def flag (r : Rendered Value) : Caching Bool := do
  let found ← value r
  attempt (boolOf "a conditional write" found)

/-! ### The methods -/

section

/- `roundNanos` is `round(ttl * 1_000_000_000)` of a float, and `float` is `float(n)` of an `int`,
which raises where no float is that large. -/
variable (roundNanos : Double → Except Rejected ℤ) (float : ℤ → Except Rejected Double)
  (s : CacheStatements)

/-- `None if ttl is None else _duration(ttl)`. -/
def lasting (ttl : Option TtlLike) : Except Rejected (Option Duration) :=
  ttl.mapM (ttlDuration roundNanos)

def get (key : Str) : Caching (Option Value) := do
  let found ← value (s.get key)
  return presentOf found

def set (key : Str) (v : Value) (ttl : Option TtlLike) : Caching Unit := do
  let lasting ← checked (lasting roundNanos ttl)
  let _ ← value (s.set key v "" none lasting)

def setIfAbsent (key : Str) (v : Value) (ttl : Option TtlLike) : Caching Bool := do
  let lasting ← checked (lasting roundNanos ttl)
  flag (s.set key v " IF ABSENT" none lasting)

def setIfPresent (key : Str) (v : Value) (ttl : Option TtlLike) : Caching Bool := do
  let lasting ← checked (lasting roundNanos ttl)
  flag (s.set key v " IF PRESENT" none lasting)

def compareAndSet (key : Str) (expected v : Value) (ttl : Option TtlLike) : Caching Bool := do
  let lasting ← checked (lasting roundNanos ttl)
  flag (s.set key v " IF = $e" (some expected) lasting)

def delete (key : Str) : Caching Bool := do
  let found ← value (s.delete key)
  return !found.isNone

def incr (key : Str) (by_ : ℤ) : Caching ℤ := do
  let found ← value (s.incr key by_)
  attempt (integerOf "an increment" found)

def ttl (key : Str) : Caching Value := do
  let found ← value (s.ttl key)
  attempt (lastingOf found)

def expire (key : Str) (ttl : TtlLike) : Caching Bool := do
  let lasting ← checked (ttlDuration roundNanos ttl)
  flag (s.expire key lasting)

def persist (key : Str) : Caching Bool := flag (s.persist key)

def keys (before after : Option Str) (limit : IntLike) : Caching (List Str) := do
  let limit ← checked (checkedLimit limit)
  let outcomes ← execute (s.keys before after limit)
  attempt (keysOf outcomes)

/-- `lock`; `token` is the `secrets.token_hex(16)` of this call. -/
def lock (key : Str) (ttl : TtlLike) (holder : Option Str) (token : Str) :
    Caching (Option Lease) := do
  let holder ← checked (checkedHolder holder token)
  let lasting ← checked (ttlDuration roundNanos ttl)
  let stored ← flag (s.lock key holder lasting)
  return if stored then some ⟨key, holder, lasting⟩ else none

/-- `Lease.extend`. -/
def extend (lease : Lease) (ttl : Option TtlLike) : Caching Bool := do
  let lasting ← checked (lease.lasting roundNanos ttl)
  flag (s.extend lease.key lease.holder lasting)

/-- `Lease.release`. -/
def release (lease : Lease) : Caching Bool := flag (s.release lease.key lease.holder)

/-! ### The containers -/

def listPush (key : Str) (values : List Value) (front : Bool) : Caching ℤ := do
  checked (some_ values "a push needs a value")
  let found ← value (s.listPush key values front)
  attempt (integerOf "a container call" found)

def listPop (key : Str) (front : Bool) : Caching (Option Value) := do
  let found ← value (s.listPop key front none)
  return presentOf found

def listPopMany (key : Str) (count : IntLike) (front : Bool) : Caching (List Value) := do
  let count ← checked (whole count "a count is not negative" false)
  let found ← value (s.listPop key front (some count))
  attempt (itemsOf found)

def listRange (key : Str) (start count : IntLike) : Caching (List Value) := do
  let start ← checked (whole start "a range starts at or after the first element" false)
  let count ← checked (whole count "a count is not negative" false)
  let found ← value (s.listRange key start count)
  attempt (itemsOf found)

def listAt (key : Str) (index : IntLike) : Caching (Option Value) := do
  let index ← checked (whole index "a position is a whole number" true)
  let found ← value (s.listAt key index)
  return presentOf found

def listLen (key : Str) : Caching ℤ := do
  let found ← value (s.listLen key)
  attempt (lengthOf found)

def listRemove (key : Str) (v : Value) (count : Option IntLike) : Caching ℤ := do
  let count ← checked (count.mapM fun count => whole count "a count is not negative" false)
  let found ← value (s.listRemove key v count)
  attempt (integerOf "a container call" found)

def listTrim (key : Str) (start stop : ℤ) : Caching Unit := do
  let _ ← value (s.listTrim key start stop)

def hashSet (key : Str) (fields : List (Str × Value)) : Caching ℤ := do
  checked (some_ fields "a hash write needs a field")
  let found ← value (s.hashSet key fields)
  attempt (integerOf "a container call" found)

def hashGet (key field : Str) : Caching (Option Value) := do
  let found ← value (s.hashGet key field)
  return presentOf found

def hashGetAll (key : Str) : Caching (List (Str × Value)) := do
  let found ← value (s.get key)
  attempt (hashOf found)

def hashRemove (key : Str) (fields : List Str) : Caching ℤ := do
  checked (some_ fields "a hash removal needs a field")
  let found ← value (s.hashRemove key fields)
  attempt (integerOf "a container call" found)

def hashIncr (key field : Str) (by_ : IntLike) : Caching ℤ := do
  let n ← checked (whole by_ "an increment is a whole number" true)
  let found ← value (s.hashIncr key field n)
  attempt (integerOf "a container call" found)

def hashLen (key : Str) : Caching ℤ := do
  let found ← value (s.hashLen key)
  attempt (lengthOf found)

def membersAdd (key : Str) (members : List Value) : Caching ℤ := do
  checked (some_ members "a set write needs a member")
  let found ← value (s.members "ADD" key members)
  attempt (integerOf "a container call" found)

def membersRemove (key : Str) (members : List Value) : Caching ℤ := do
  checked (some_ members "a set removal needs a member")
  let found ← value (s.members "REMOVE" key members)
  attempt (integerOf "a container call" found)

def membersHas (key : Str) (member : Value) : Caching Bool := do
  let found ← value (s.membersHas key member)
  attempt (boolOf "a membership" found)

def membersAll (key : Str) : Caching (List Value) := do
  let found ← value (s.get key)
  attempt (setOf found)

def membersLen (key : Str) : Caching ℤ := do
  let found ← value (s.membersLen key)
  attempt (lengthOf found)

def scoresAdd (key : Str) (scores : List (Str × ScoreLike)) : Caching ℤ := do
  checked (some_ scores "a ranking write needs a member")
  let scores ← checked (scores.mapM fun score => return (score.1, ← finite float score.2))
  let found ← value (s.scoresAdd key scores)
  attempt (integerOf "a container call" found)

def scoresIncr (key member : Str) (by_ : ScoreLike) : Caching Double := do
  let x ← checked (finite float by_)
  let found ← value (s.scoresIncr key member x)
  attempt (scoreOf found)

def scoresRemove (key : Str) (members : List Str) : Caching ℤ := do
  checked (some_ members "a ranking removal needs a member")
  let found ← value (s.scoresRemove key members)
  attempt (integerOf "a container call" found)

def scoresScore (key member : Str) : Caching (Option Double) := do
  let found ← value (s.scoresOf "score" key member)
  attempt (orNone scoreOf found)

def scoresRank (key member : Str) : Caching (Option ℤ) := do
  let found ← value (s.scoresOf "rank" key member)
  attempt (orNone (integerOf "a container call") found)

def scoresRange (key : Str) (start stop : ℤ) : Caching (List (Str × Double)) := do
  let found ← value (s.scoresRange key start stop)
  attempt (rankingOf found)

def scoresBetween (key : Str) (low high : Option Double) : Caching (List (Str × Double)) := do
  let found ← value (s.scoresBetween key low high)
  attempt (rankingOf found)

end

end CacheHandle

/-! ### Calls of methods -/

/-- A call of one of the methods. -/
inductive CacheMethod where
  | get (key : Str)
  | set (key : Str) (v : Value) (ttl : Option TtlLike)
  | setIfAbsent (key : Str) (v : Value) (ttl : Option TtlLike)
  | setIfPresent (key : Str) (v : Value) (ttl : Option TtlLike)
  | compareAndSet (key : Str) (expected v : Value) (ttl : Option TtlLike)
  | delete (key : Str)
  | incr (key : Str) (by_ : ℤ)
  | ttl (key : Str)
  | expire (key : Str) (ttl : TtlLike)
  | persist (key : Str)
  | keys (before after : Option Str) (limit : IntLike)
  | lock (key : Str) (ttl : TtlLike) (holder : Option Str) (token : Str)
  | extend (lease : Lease) (ttl : Option TtlLike)
  | release (lease : Lease)
  | listPush (key : Str) (values : List Value) (front : Bool)
  | listPop (key : Str) (front : Bool)
  | listPopMany (key : Str) (count : IntLike) (front : Bool)
  | listRange (key : Str) (start count : IntLike)
  | listAt (key : Str) (index : IntLike)
  | listLen (key : Str)
  | listRemove (key : Str) (v : Value) (count : Option IntLike)
  | listTrim (key : Str) (start stop : ℤ)
  | hashSet (key : Str) (fields : List (Str × Value))
  | hashGet (key field : Str)
  | hashGetAll (key : Str)
  | hashRemove (key : Str) (fields : List Str)
  | hashIncr (key field : Str) (by_ : IntLike)
  | hashLen (key : Str)
  | membersAdd (key : Str) (items : List Value)
  | membersRemove (key : Str) (items : List Value)
  | membersHas (key : Str) (member : Value)
  | membersAll (key : Str)
  | membersLen (key : Str)
  | scoresAdd (key : Str) (scores : List (Str × ScoreLike))
  | scoresIncr (key member : Str) (by_ : ScoreLike)
  | scoresRemove (key : Str) (items : List Str)
  | scoresScore (key member : Str)
  | scoresRank (key member : Str)
  | scoresRange (key : Str) (start stop : ℤ)
  | scoresBetween (key : Str) (low high : Option Double)

/-- What a method returns. -/
inductive CacheAnswer where
  | nothing
  | found (found : Option Value)
  | value (found : Value)
  | flag (flag : Bool)
  | integer (n : ℤ)
  | keys (keys : List Str)
  | lease (lease : Option Lease)
  | values (values : List Value)
  | fields (fields : List (Str × Value))
  | score (x : Double)
  | ranked (x : Option Double)
  | rank (n : Option ℤ)
  | ranking (pairs : List (Str × Double))

namespace CacheMethod

variable (roundNanos : Double → Except Rejected ℤ) (float : ℤ → Except Rejected Double)

def perform (s : CacheStatements) : CacheMethod → Caching CacheAnswer
  | .get key => .found <$> CacheHandle.get s key
  | .set key v span => (fun _ => .nothing) <$> CacheHandle.set roundNanos s key v span
  | .setIfAbsent key v span => .flag <$> CacheHandle.setIfAbsent roundNanos s key v span
  | .setIfPresent key v span => .flag <$> CacheHandle.setIfPresent roundNanos s key v span
  | .compareAndSet key expected v span =>
      .flag <$> CacheHandle.compareAndSet roundNanos s key expected v span
  | .delete key => .flag <$> CacheHandle.delete s key
  | .incr key n => .integer <$> CacheHandle.incr s key n
  | .ttl key => .value <$> CacheHandle.ttl s key
  | .expire key span => .flag <$> CacheHandle.expire roundNanos s key span
  | .persist key => .flag <$> CacheHandle.persist s key
  | .keys before after limit => .keys <$> CacheHandle.keys s before after limit
  | .lock key span holder token => .lease <$> CacheHandle.lock roundNanos s key span holder token
  | .extend lease span => .flag <$> CacheHandle.extend roundNanos s lease span
  | .release lease => .flag <$> CacheHandle.release s lease
  | .listPush key values front => .integer <$> CacheHandle.listPush s key values front
  | .listPop key front => .found <$> CacheHandle.listPop s key front
  | .listPopMany key count front => .values <$> CacheHandle.listPopMany s key count front
  | .listRange key start count => .values <$> CacheHandle.listRange s key start count
  | .listAt key index => .found <$> CacheHandle.listAt s key index
  | .listLen key => .integer <$> CacheHandle.listLen s key
  | .listRemove key v count => .integer <$> CacheHandle.listRemove s key v count
  | .listTrim key start stop => (fun _ => .nothing) <$> CacheHandle.listTrim s key start stop
  | .hashSet key fields => .integer <$> CacheHandle.hashSet s key fields
  | .hashGet key field => .found <$> CacheHandle.hashGet s key field
  | .hashGetAll key => .fields <$> CacheHandle.hashGetAll s key
  | .hashRemove key fields => .integer <$> CacheHandle.hashRemove s key fields
  | .hashIncr key field n => .integer <$> CacheHandle.hashIncr s key field n
  | .hashLen key => .integer <$> CacheHandle.hashLen s key
  | .membersAdd key items => .integer <$> CacheHandle.membersAdd s key items
  | .membersRemove key items => .integer <$> CacheHandle.membersRemove s key items
  | .membersHas key member => .flag <$> CacheHandle.membersHas s key member
  | .membersAll key => .values <$> CacheHandle.membersAll s key
  | .membersLen key => .integer <$> CacheHandle.membersLen s key
  | .scoresAdd key scores => .integer <$> CacheHandle.scoresAdd float s key scores
  | .scoresIncr key member x => .score <$> CacheHandle.scoresIncr float s key member x
  | .scoresRemove key items => .integer <$> CacheHandle.scoresRemove s key items
  | .scoresScore key member => .ranked <$> CacheHandle.scoresScore s key member
  | .scoresRank key member => .rank <$> CacheHandle.scoresRank s key member
  | .scoresRange key start stop => .ranking <$> CacheHandle.scoresRange s key start stop
  | .scoresBetween key low high => .ranking <$> CacheHandle.scoresBetween s key low high

/-! ### One statement each -/

/-- The statement a method asks for, and what it makes of the outcomes. -/
abbrev Plan := CacheCall × (List Outcome → Except CacheRaised CacheAnswer)

/-- A plan that reads the value of the last outcome. -/
def plan {α : Type} (call : CacheCall) (read : Value → Except CacheRaised α)
    (make : α → CacheAnswer) : Plan :=
  (call, fun outcomes => do return make (← read (← CacheHandle.answered outcomes)))

def planFlag (call : CacheCall) : Plan :=
  plan call (CacheHandle.boolOf "a conditional write") .flag

def planInteger (call : CacheCall) : Plan :=
  plan call (CacheHandle.integerOf "a container call") .integer

/-- A conditional or plain `SET`. -/
def planSet (key : Str) (v : Value) (condition : Str) (expected : Option Value)
    (ttl : Option TtlLike) : Except Rejected Plan := do
  let lasting ← CacheHandle.lasting roundNanos ttl
  return planFlag (.set key v condition expected lasting)

/-- A statement that takes a list which must not be empty. -/
def planSome {α : Type} (items : List α) (reason : String) (call : CacheCall) :
    Except Rejected Plan := do
  CacheHandle.some_ items reason
  return planInteger call

open CacheHandle in
/-- What a method plans, once its arguments are checked. -/
def planned : CacheMethod → Except Rejected Plan
  | .get key => return plan (.get key) (fun found => .ok (presentOf found)) .found
  | .set key v span => do
      let lasting ← lasting roundNanos span
      return plan (.set key v "" none lasting) .ok fun _ => .nothing
  | .setIfAbsent key v span => planSet roundNanos key v " IF ABSENT" none span
  | .setIfPresent key v span => planSet roundNanos key v " IF PRESENT" none span
  | .compareAndSet key expected v span => planSet roundNanos key v " IF = $e" (some expected) span
  | .delete key => return plan (.delete key) (fun found => .ok !found.isNone) .flag
  | .incr key n => return plan (.incr key n) (integerOf "an increment") .integer
  | .ttl key => return plan (.ttl key) lastingOf .value
  | .expire key span => do
      let lasting ← ttlDuration roundNanos span
      return planFlag (.expire key lasting)
  | .persist key => return planFlag (.persist key)
  | .keys before after limit => do
      let limit ← checkedLimit limit
      -- An empty prefix is none.
      let before := before.filter (· ≠ [])
      return (.keys before after limit, fun outcomes => .keys <$> keysOf outcomes)
  | .lock key span holder token => do
      let holder ← checkedHolder holder token
      let lasting ← ttlDuration roundNanos span
      return plan (.lock key holder lasting) (boolOf "a conditional write") fun stored =>
        .lease (if stored then some ⟨key, holder, lasting⟩ else none)
  | .extend lease span => do
      let lasting ← lease.lasting roundNanos span
      return planFlag (.extend lease.key lease.holder lasting)
  | .release lease => return planFlag (.release lease.key lease.holder)
  | .listPush key values front =>
      planSome values "a push needs a value" (.listPush key values front)
  | .listPop key front =>
      return plan (.listPop key front none) (fun found => .ok (presentOf found)) .found
  | .listPopMany key count front => do
      let count ← whole count "a count is not negative" false
      return plan (.listPop key front (some count)) itemsOf .values
  | .listRange key start count => do
      let start ← whole start "a range starts at or after the first element" false
      let count ← whole count "a count is not negative" false
      return plan (.listRange key start count) itemsOf .values
  | .listAt key index => do
      let index ← whole index "a position is a whole number" true
      return plan (.listAt key index) (fun found => .ok (presentOf found)) .found
  | .listLen key => return plan (.listLen key) lengthOf .integer
  | .listRemove key v count => do
      let count ← count.mapM fun count => whole count "a count is not negative" false
      return planInteger (.listRemove key v count)
  | .listTrim key start stop => return plan (.listTrim key start stop) .ok fun _ => .nothing
  | .hashSet key fields => planSome fields "a hash write needs a field" (.hashSet key fields)
  | .hashGet key field =>
      return plan (.hashGet key field) (fun found => .ok (presentOf found)) .found
  | .hashGetAll key => return plan (.get key) hashOf .fields
  | .hashRemove key fields =>
      planSome fields "a hash removal needs a field" (.hashRemove key fields)
  | .hashIncr key field n => do
      let n ← whole n "an increment is a whole number" true
      return planInteger (.hashIncr key field n)
  | .hashLen key => return plan (.hashLen key) lengthOf .integer
  | .membersAdd key items =>
      planSome items "a set write needs a member" (.members "ADD" key items)
  | .membersRemove key items =>
      planSome items "a set removal needs a member" (.members "REMOVE" key items)
  | .membersHas key member => return plan (.membersHas key member) (boolOf "a membership") .flag
  | .membersAll key => return plan (.get key) setOf .values
  | .membersLen key => return plan (.membersLen key) lengthOf .integer
  | .scoresAdd key scores => do
      some_ scores "a ranking write needs a member"
      let scores ← scores.mapM fun score => return (score.1, ← finite float score.2)
      return planInteger (.scoresAdd key scores)
  | .scoresIncr key member x => do
      let x ← finite float x
      return plan (.scoresIncr key member x) scoreOf .score
  | .scoresRemove key items =>
      planSome items "a ranking removal needs a member" (.scoresRemove key items)
  | .scoresScore key member => return plan (.scoresOf "score" key member) (orNone scoreOf) .ranked
  | .scoresRank key member =>
      return plan (.scoresOf "rank" key member) (orNone (integerOf "a container call")) .rank
  | .scoresRange key start stop => return plan (.scoresRange key start stop) rankingOf .ranking
  | .scoresBetween key low high => return plan (.scoresBetween key low high) rankingOf .ranking

end CacheMethod

/-! ### Checks, statements and readings -/

namespace CacheHandle

variable {α β : Type}

theorem attempt_bind (x : Except CacheRaised α) (f : α → Except CacheRaised β) :
    (attempt x >>= fun a => attempt (f a)) = attempt (x >>= f) := by
  cases x <;> rfl

theorem map_attempt (k : α → β) (x : Except CacheRaised α) :
    k <$> attempt x = attempt (k <$> x) := by
  cases x <;> rfl

theorem checked_bind (x : Except Rejected α) (f : α → Except Rejected β) :
    checked (x >>= f) = (checked x >>= fun a => checked (f a)) := by
  cases x <;> rfl

theorem checked_pure (a : α) : checked (pure a) = (pure a : Caching α) := rfl

end CacheHandle

namespace CacheMethod

variable (roundNanos : Double → Except Rejected ℤ) (float : ℤ → Except Rejected Double)
  (s : CacheStatements)

open CacheHandle

/-- A plan that is carried out. -/
def carried (p : Plan) : Caching CacheAnswer := do
  let outcomes ← execute (p.1.render s)
  attempt (p.2 outcomes)

theorem carried_plan {α : Type} (call : CacheCall) (read : Value → Except CacheRaised α)
    (make : α → CacheAnswer) : carried s (plan call read make) =
      make <$> (value (call.render s) >>= fun found => attempt (read found)) := by
  have hread : ∀ x : Except CacheRaised Value,
      (do return make (← read (← x)) : Except CacheRaised CacheAnswer) = make <$> (x >>= read) := by
    intro x
    cases x with
    | error e => rfl
    | ok found =>
        change (read found >>= fun a => pure (make a)) = make <$> read found
        cases read found <;> rfl
  simp only [carried, plan, value, bind_assoc, attempt_bind, map_bind, map_attempt, hread]

/-- **A method is one statement** between the check of its arguments and the reading of its answer.
-/
theorem perform_eq (m : CacheMethod) :
    m.perform roundNanos float s = checked (m.planned roundNanos float) >>= carried s := by
  cases m with
  | keys before after limit =>
      have hprefix : ∀ limit, s.keys (before.filter (· ≠ [])) after limit =
          s.keys before after limit := by
        intro limit
        rw [CacheStatements.keys, CacheStatements.keys, Option.filter_filter]
        simp only [Bool.and_self]
      simp only [perform, planned, CacheHandle.keys, checked_bind, checked_pure, pure_bind,
        bind_assoc, map_bind, map_attempt, carried, CacheCall.render, hprefix]
  | set key v ttl =>
      simp only [perform, planned, CacheHandle.set, checked_bind, checked_pure, pure_bind,
        bind_assoc, carried_plan, map_bind]
      rfl
  | setIfAbsent key v ttl | setIfPresent key v ttl | compareAndSet key expected v ttl =>
      simp only [perform, planned, planSet, planFlag, checked_bind, checked_pure, pure_bind,
        bind_assoc, carried_plan, map_bind, CacheHandle.setIfAbsent, CacheHandle.setIfPresent,
        CacheHandle.compareAndSet, CacheHandle.flag]
      rfl
  | expire key ttl | extend lease ttl =>
      simp only [perform, planned, planFlag, checked_bind, checked_pure, pure_bind, bind_assoc,
        carried_plan, map_bind, CacheHandle.expire, CacheHandle.extend, CacheHandle.flag]
      rfl
  | lock key ttl holder token =>
      simp only [perform, planned, CacheHandle.lock, CacheHandle.flag, checked_bind, checked_pure,
        pure_bind, bind_assoc, carried_plan, map_bind]
      rfl
  | listPush key values front | hashSet key fields | hashRemove key fields | membersAdd key items
  | membersRemove key items | scoresRemove key items =>
      simp only [perform, planned, planSome, planInteger, checked_bind, checked_pure, pure_bind,
        bind_assoc, carried_plan, map_bind, CacheHandle.listPush, CacheHandle.hashSet,
        CacheHandle.hashRemove, CacheHandle.membersAdd, CacheHandle.membersRemove,
        CacheHandle.scoresRemove]
      rfl
  | listPopMany key count front | listRange key start count | listAt key index
  | listRemove key v count | hashIncr key field n | scoresAdd key scores
  | scoresIncr key member x =>
      simp only [perform, planned, planInteger, checked_bind, checked_pure, pure_bind,
        bind_assoc, carried_plan, map_bind, CacheHandle.listPopMany, CacheHandle.listRange,
        CacheHandle.listAt, CacheHandle.listRemove, CacheHandle.hashIncr, CacheHandle.scoresAdd,
        CacheHandle.scoresIncr]
      rfl
  | listTrim key start stop =>
      simp only [perform, planned, CacheHandle.listTrim, checked_pure, pure_bind, carried_plan,
        map_bind]
      rfl
  | _ =>
      simp only [perform, planned, planFlag, checked_pure, pure_bind, carried_plan]
      rfl

end CacheMethod

end TessariDB
