import TessariDB.Answer
import TessariDB.Expiring
import TessariDB.Handles

/-!
# Leases

A lock of the cache is a key that holds its holder's name for a while (`cache.py`).
`Cache.lock` writes the name where the key is absent; the `Lease` it grants writes it again to
hold on for longer, and writes `'free'` for one millisecond to give the lock back, both only
while the key holds the name.

The store is the one the handle relies on. It reads the `SET` it is sent and runs it on the
key at one instant, by the rules of an expiring cell. What the callers may count on is kept
beside it: until when each of them holds the lock, by the answers it was given.

## Main results

* `execute_lock`, `execute_extend`, `execute_release`: what the three statements do.
* `Kept.next`: every call, and every passing of time, keeps who holds the lock in step with
  what the key says, as long as no caller is named `free`.
* `leases_answer_their_holder`: a lease answers its own holder and nobody else, in every order
  of the calls, exactly when no caller is named `free`.
-/

namespace TessariDB

open ByteCodec Utf8 Text Expiring

/-! ### The calls -/

/-- A `TtlLike`; `other` is neither seconds nor a `timedelta`, and a `bool` is none. -/
inductive TtlLike where
  | timedelta (days seconds microseconds : ℤ)
  | seconds (value : ℤ)
  | float (value : Double)
  | other
  deriving DecidableEq, Repr

/-- The nanoseconds of a duration. -/
def Duration.nanosTotal (d : Duration) : ℤ := d.seconds * 1000000000 + d.nanos

/-- What a call on a lock raises: an argument refused before it is sent, or an answer that is
none to a conditional write. -/
inductive LeaseError where
  | rejected (why : Rejected)
  | statementAnswered (answered : Option Outcome)
  | writeAnswered (found : Value)

/-- A lock held by a caller until its ttl passes. -/
structure Lease where
  key : Str
  holder : Str
  ttl : Duration
  deriving DecidableEq, Repr

/-- `_value`, of the outcomes answered. -/
def valueOf (outcomes : List Outcome) : Except LeaseError Value :=
  match outcomes.getLast? with
  | some (.valueOutcome _ value) => .ok value
  | some .done => .ok .noneValue
  | answered => .error (.statementAnswered answered)

/-- `_flag`, of the outcomes answered. -/
def flagOf (outcomes : List Outcome) : Except LeaseError Bool := do
  match ← valueOf outcomes with
  | .bool value => return value
  | found => throw (.writeAnswered found)

section Calls

/- `roundNanos` is `round(ttl * 1_000_000_000)` of a float, and `execute` is the connection's,
over a store in the state `σ`. -/
variable (roundNanos : Double → Except Rejected ℤ) {σ : Type}
  (execute : Rendered Value → σ → List Outcome × σ) (s : CacheStatements)

/-- `_duration`. -/
def ttlDuration (ttl : TtlLike) : Except Rejected Duration := do
  let nanosTotal ← match ttl with
    | .timedelta days seconds microseconds =>
        pure (((days * 86400 + seconds) * 1000000 + microseconds) * 1000)
    | .seconds value => pure (value * 1000000000)
    | .float value => roundNanos value
    | .other => throw (.notACacheArgument "a ttl is seconds or a timedelta")
  if nanosTotal ≤ 0 then
    throw (.notACacheArgument
      "a ttl must be positive: a zero or negative one would remove the key")
  else
    return ⟨nanosTotal / 1000000000, nanosTotal % 1000000000⟩

/-- `Cache._flag`: send a conditional write, and read whether it stored. -/
def flag (r : Rendered Value) (store : σ) : Except LeaseError Bool × σ :=
  let (outcomes, store) := execute r store
  (flagOf outcomes, store)

/-- `Cache.lock`; `token` is the `secrets.token_hex(16)` of this call. -/
def lock (key : Str) (ttl : TtlLike) (holder : Option Str) (token : Str) (store : σ) :
    Except LeaseError (Option Lease) × σ :=
  if holder = some [] then
    (.error (.rejected (.notACacheArgument "a lock's holder is not empty")), store)
  else
    let holder := holder.getD token
    match ttlDuration roundNanos ttl with
    | .error why => (.error (.rejected why), store)
    | .ok lasting =>
        let (stored, store) := flag execute (s.lock key holder lasting) store
        (stored.map fun stored => if stored then some ⟨key, holder, lasting⟩ else none, store)

namespace Lease

variable (lease : Lease)

/-- How long `extend` holds on for; its own ttl when none is given. -/
def lasting (ttl : Option TtlLike) : Except Rejected Duration :=
  ttl.elim (.ok lease.ttl) (ttlDuration roundNanos)

/-- `Lease.extend`. -/
def extend (ttl : Option TtlLike) (store : σ) : Except LeaseError Bool × σ :=
  match lease.lasting roundNanos ttl with
  | .error why => (.error (.rejected why), store)
  | .ok lasting => flag execute (s.extend lease.key lease.holder lasting) store

/-- `Lease.release`. -/
def release (store : σ) : Except LeaseError Bool × σ :=
  flag execute (s.release lease.key lease.holder) store

end Lease

end Calls

/-! ### The store -/

/-- A value a statement names: a parameter, or a text in quotes. -/
inductive Operand where
  | given (name : Str)
  | text (literal : Str)
  deriving DecidableEq, Repr

/-- The `IF` of a `SET`. -/
inductive WriteIf where
  | always
  | absent
  | present
  | equals (expected : Operand)
  deriving DecidableEq, Repr

/-- The `EXPIRE` of a `SET`: a parameter, or milliseconds. -/
inductive Expiry where
  | given (name : Str)
  | millis (n : ℕ)
  deriving DecidableEq, Repr

/-- What a `SET` does to the key it names. -/
structure SetStatement where
  value : Operand
  condition : WriteIf
  expiry : Option Expiry
  deriving DecidableEq, Repr

namespace SetStatement

/-- The words of a script, its last semicolon left out. -/
def words (script : Str) : List Str := script.dropLast.splitOn (codePoint 0x20)

def readOperand : Str → Option Operand
  | [] => none
  | c :: rest =>
      if c.val = 0x24 then some (.given rest)
      else if c.val = 0x27 then some (.text rest.dropLast)
      else none

def readExpiry : List Str → Option (Option Expiry)
  | [] => some none
  | [expire, w] =>
      if expire = ofString "EXPIRE" then
        match readOperand w with
        | some (.given name) => some (some (.given name))
        | _ =>
            if w.drop (w.length - 2) = ofString "ms" then
              some (some (.millis (number (w.take (w.length - 2)))))
            else none
      else none
  | _ => none

def readClause : List Str → Option (WriteIf × List Str)
  | w :: clause :: rest =>
      if w = ofString "IF" then
        if clause = ofString "ABSENT" then some (.absent, rest)
        else if clause = ofString "PRESENT" then some (.present, rest)
        else if clause = ofString "=" then
          match rest with
          | [] => none
          | expected :: rest => (readOperand expected).map fun e => (.equals e, rest)
        else none
      else some (.always, w :: clause :: rest)
  | rest => some (.always, rest)

/-- What follows `SET space:$k`. -/
def readAssignment : List Str → Option SetStatement
  | equals :: value :: rest =>
      if equals = ofString "=" then do
        let value ← readOperand value
        let (condition, rest) ← readClause rest
        let expiry ← readExpiry rest
        return ⟨value, condition, expiry⟩
      else none
  | _ => none

/-- Read a `SET`, after the six words that say which database is meant. -/
def read (script : Str) : Option SetStatement :=
  match (words script).drop 6 with
  | set :: _ :: assignment => if set = ofString "SET" then readAssignment assignment else none
  | _ => none

end SetStatement

def Operand.value (given : List (Str × Value)) : Operand → Option Value
  | .given name => Dict.get? given name
  | .text literal => some (.text literal)

/-- Whether a value is an expected one; only texts are compared here. -/
def Value.isText (expected value : Value) : Bool :=
  match expected, value with
  | .text s, .text t => decide (s = t)
  | _, _ => false

def WriteIf.condition (given : List (Str × Value)) : WriteIf → Option (Condition Value)
  | .always => some .always
  | .absent => some .absent
  | .present => some .present
  | .equals expected => (expected.value given).map fun e => .holding e.isText

/-- The instant an expiry lets a key live until. -/
def Expiry.until_ (now : ℤ) (given : List (Str × Value)) : Expiry → Option ℤ
  | .given name =>
      match Dict.get? given name with
      | some (.duration seconds nanos) => some (now + (⟨seconds, nanos⟩ : Duration).nanosTotal)
      | _ => none
  | .millis n => some (now + n * 1000000)

/-- The store, as far as one key goes: the time it is, and what the key holds. -/
structure Store where
  now : ℤ
  cell : Option (Entry Value)

/-- Run a `SET` on the key, and answer whether it stored. -/
def Store.run (store : Store) (given : List (Str × Value)) (statement : SetStatement) :
    Option (Bool × Store) := do
  let value ← statement.value.value given
  let condition ← statement.condition.condition given
  let expires ← match statement.expiry with
    | none => some none
    | some expiry => (expiry.until_ store.now given).map some
  let (stored, cell) := write store.now condition ⟨value, expires⟩ store.cell
  return (stored, { store with cell })

/-- The answer to a script of two `USE`s and a `SET`. -/
def Store.execute (r : Rendered Value) (store : Store) : List Outcome × Store :=
  match (SetStatement.read r.script).bind (store.run r.parameters) with
  | none => ([], store)
  | some (stored, store) => ([.done, .done, .valueOutcome [] (.bool stored)], store)

/-! ### The three statements -/

namespace SetStatement

theorem space_notMem {s : Str} (h : ∀ c ∈ s, IsWord c) : codePoint 0x20 ∉ s :=
  fun hs => absurd (h _ hs) (by decide)

/-- The words before an assignment. -/
def heading (s : CacheStatements) : List Str :=
  [ofString "USE", ofString "NAMESPACE", s.inNamespace.text ++ ";", ofString "USE",
    ofString "DATABASE", s.inDatabase.text ++ ";", ofString "SET", s.space.text ++ ":$k"]

theorem space_notMem_heading (s : CacheStatements) :
    ∀ w ∈ heading s, codePoint 0x20 ∉ w := by
  have hname : ∀ (name : Name) (mark : Str), codePoint 0x20 ∉ mark →
      codePoint 0x20 ∉ name.text ++ mark := fun name mark hmark hmem =>
    (List.mem_append.mp hmem).elim (space_notMem name.words) hmark
  simp only [heading, List.forall_mem_cons]
  refine ⟨by decide, by decide, hname _ _ (by decide), by decide,
    by decide, hname _ _ (by decide), by decide,
    hname _ _ (by decide), List.forall_mem_nil _⟩

/-- A script is its words with blanks between them and a semicolon behind them. -/
theorem words_intercalate {ws : List Str} (hne : ws ≠ [])
    (hspace : ∀ w ∈ ws, codePoint 0x20 ∉ w) :
    words ([codePoint 0x20].intercalate ws ++ ";") = ws := by
  have hsemicolon : ofString ";" = [codePoint 0x3B] := by decide
  rw [words, hsemicolon, List.dropLast_concat, List.splitOn_intercalate _ _ hne]
  exact hspace

/-- A script that sets a key is read by the words of its assignment. -/
theorem read_script (s : CacheStatements) (assignment : List Str) (tail : Str)
    (hne : assignment ≠ []) (hspace : ∀ w ∈ assignment, codePoint 0x20 ∉ w)
    (htail : tail = ":$k " ++ [codePoint 0x20].intercalate assignment ++ ";") :
    read (s.tenancy ++ ("SET " ++ s.space.text ++ tail)) = readAssignment assignment := by
  have huse : ofString "USE NAMESPACE " =
      "USE" ++ codePoint 0x20 :: ("NAMESPACE" ++ [codePoint 0x20]) := by decide
  have hdatabase : ofString "; USE DATABASE " = ";" ++ codePoint 0x20 ::
      ("USE" ++ codePoint 0x20 :: ("DATABASE" ++ [codePoint 0x20])) := by decide
  have hset : ofString "SET " = "SET" ++ [codePoint 0x20] := by decide
  have hend : ofString "; " = ";" ++ [codePoint 0x20] := by decide
  have hkey : ofString ":$k " = ":$k" ++ [codePoint 0x20] := by decide
  have hscript : s.tenancy ++ ("SET " ++ s.space.text ++ tail) =
      [codePoint 0x20].intercalate (heading s ++ assignment) ++ ";" := by
    obtain ⟨w, ws, rfl⟩ := List.exists_cons_of_ne_nil hne
    rw [htail, CacheStatements.tenancy, tenancy, huse, hdatabase, hset, hend, hkey, heading]
    simp only [List.intercalate_cons_cons, List.append_assoc, List.cons_append, List.nil_append]
  have hwords : words (s.tenancy ++ ("SET " ++ s.space.text ++ tail)) = heading s ++ assignment := by
    rw [hscript, words_intercalate (by simp [hne])]
    exact List.forall_mem_append.mpr ⟨space_notMem_heading s, hspace⟩
  rw [read, hwords, heading]
  simp

end SetStatement

/-- The answer to a `SET` that was run. -/
def Store.answered (store : Store) (written : Bool × Option (Entry Value)) :
    List Outcome × Store :=
  ([.done, .done, .valueOutcome [] (.bool written.1)], { store with cell := written.2 })

/-- What a script does, from what it reads as and the values it names. -/
theorem Store.execute_of_read {r : Rendered Value} {statement : SetStatement}
    (hread : SetStatement.read r.script = some statement) {store : Store} {value : Value}
    {condition : Condition Value} {until_ : ℤ}
    (hvalue : statement.value.value r.parameters = some value)
    (hcondition : statement.condition.condition r.parameters = some condition)
    (hexpiry : ∃ expiry, statement.expiry = some expiry ∧
      expiry.until_ store.now r.parameters = some until_) :
    store.execute r = store.answered (write store.now condition ⟨value, some until_⟩ store.cell) := by
  obtain ⟨expiry, hexpiry, huntil⟩ := hexpiry
  have hrun : store.run r.parameters statement =
      some ((write store.now condition ⟨value, some until_⟩ store.cell).1,
        { store with cell := (write store.now condition ⟨value, some until_⟩ store.cell).2 }) := by
    simp only [run, hvalue, hcondition, hexpiry, huntil, Option.bind_eq_bind, Option.bind_some,
      Option.map_some, Option.pure_def]
  simp only [execute, hread, Option.bind_some, hrun, answered]

theorem read_lock (s : CacheStatements) (key holder : Str) (ttl : Duration) :
    SetStatement.read (s.lock key holder ttl).script =
      some ⟨.given "h", .absent, some (.given "t")⟩ := by
  have h := SetStatement.read_script s
    [ofString "=", ofString "$h", ofString "IF", ofString "ABSENT", ofString "EXPIRE",
      ofString "$t"] ":$k = $h IF ABSENT EXPIRE $t;"
    (List.cons_ne_nil _ _) (by decide) (by decide)
  exact h.trans (by decide)

theorem read_extend (s : CacheStatements) (key holder : Str) (ttl : Duration) :
    SetStatement.read (s.extend key holder ttl).script =
      some ⟨.given "h", .equals (.given "h"), some (.given "t")⟩ := by
  have h := SetStatement.read_script s
    [ofString "=", ofString "$h", ofString "IF", ofString "=", ofString "$h", ofString "EXPIRE",
      ofString "$t"] ":$k = $h IF = $h EXPIRE $t;"
    (List.cons_ne_nil _ _) (by decide) (by decide)
  exact h.trans (by decide)

theorem read_release (s : CacheStatements) (key holder : Str) :
    SetStatement.read (s.release key holder).script =
      some ⟨.text "free", .equals (.given "h"), some (.millis 1)⟩ := by
  have h := SetStatement.read_script s
    [ofString "=", ofString "'free'", ofString "IF", ofString "=", ofString "$h", ofString "EXPIRE",
      ofString "1ms"] ":$k = 'free' IF = $h EXPIRE 1ms;"
    (List.cons_ne_nil _ _) (by decide) (by decide)
  exact h.trans (by decide)

/-- The condition that the key holds this holder's name. -/
abbrev held (holder : Str) : Condition Value := .holding (Value.isText (.text holder))

/-- A name is written where the key reads as absent. -/
theorem execute_lock (s : CacheStatements) (store : Store) (key holder : Str) (ttl : Duration) :
    store.execute (s.lock key holder ttl) = store.answered (write store.now .absent
      ⟨.text holder, some (store.now + ttl.nanosTotal)⟩ store.cell) :=
  Store.execute_of_read (read_lock s key holder ttl) rfl rfl ⟨_, rfl, rfl⟩

/-- A name is written again where the key holds it. -/
theorem execute_extend (s : CacheStatements) (store : Store) (key holder : Str) (ttl : Duration) :
    store.execute (s.extend key holder ttl) = store.answered (write store.now (held holder)
      ⟨.text holder, some (store.now + ttl.nanosTotal)⟩ store.cell) :=
  Store.execute_of_read (read_extend s key holder ttl) rfl rfl ⟨_, rfl, rfl⟩

/-- `'free'` is written for a millisecond where the key holds the name. -/
theorem execute_release (s : CacheStatements) (store : Store) (key holder : Str) :
    store.execute (s.release key holder) = store.answered (write store.now (held holder)
      ⟨.text "free", some (store.now + 1000000)⟩ store.cell) :=
  Store.execute_of_read (read_release s key holder) rfl rfl ⟨_, rfl, rfl⟩

theorem flag_of_execute {r : Rendered Value} {store : Store}
    {written : Bool × Option (Entry Value)} (h : store.execute r = store.answered written) :
    flag Store.execute r store = (.ok written.1, { store with cell := written.2 }) := by
  rw [flag, h]
  rfl

/-! ### The callers -/

/-- The store, the leases granted so far, and until when each caller holds the lock: until
the ttl it was last granted is over, unless it gave the lock back. -/
structure LockWorld where
  store : Store
  leases : List Lease
  hold : Str → Option ℤ

/-- A call, or a passing of time. -/
inductive Move where
  | lock (holder : Option Str) (token : Str) (ttl : TtlLike)
  | extend (lease : Lease) (ttl : Option TtlLike)
  | release (lease : Lease)
  | pass (nanos : ℕ)

section Runs

variable (roundNanos : Double → Except Rejected ℤ) (s : CacheStatements) (key : Str)

namespace LockWorld

/-- Nothing was called yet, and the key is absent. -/
def start (now : ℤ) : LockWorld := ⟨⟨now, none⟩, [], fun _ => none⟩

/-- Whether a caller has a lease that neither lapsed nor was released. -/
def current (world : LockWorld) (holder : Str) : Bool :=
  (world.hold holder).any fun until_ => decide (world.store.now < until_)

/-- The world after a move. -/
def next (world : LockWorld) : Move → LockWorld
  | .lock holder token ttl =>
      match TessariDB.lock roundNanos Store.execute s key ttl holder token world.store with
      | (.ok (some lease), store) =>
          ⟨store, lease :: world.leases, Function.update world.hold lease.holder
            (some (store.now + lease.ttl.nanosTotal))⟩
      | (_, store) => { world with store }
  | .extend lease ttl =>
      match lease.lasting roundNanos ttl,
          lease.extend roundNanos Store.execute s ttl world.store with
      | .ok lasting, (.ok true, store) =>
          ⟨store, world.leases, Function.update world.hold lease.holder
            (some (store.now + lasting.nanosTotal))⟩
      | _, (_, store) => { world with store }
  | .release lease =>
      match lease.release Store.execute s world.store with
      | (.ok true, store) =>
          ⟨store, world.leases, Function.update world.hold lease.holder none⟩
      | (_, store) => { world with store }
  | .pass nanos => { world with store := { world.store with now := world.store.now + nanos } }

/-- The moves of a set of callers: each locks under its own name, and goes on with leases that
were granted. -/
def Allowed (callers : Set Str) (world : LockWorld) : Move → Prop
  | .lock holder token _ => holder.getD token ∈ callers
  | .extend lease _ => lease ∈ world.leases
  | .release lease => lease ∈ world.leases
  | .pass _ => True

/-- The worlds a set of callers gets to. -/
inductive Reached (callers : Set Str) : LockWorld → Prop
  | start (now : ℤ) : Reached callers (start now)
  | next {world : LockWorld} {move : Move} : Reached callers world → Allowed callers world move →
      Reached callers (world.next roundNanos s key move)

/-- A lease answers only its own holder: at most one caller has a current one; `extend` and
`release` answer whether the caller's lease is current, and do nothing when it is not; and a
key that is there expires. -/
structure Safe (world : LockWorld) : Prop where
  exclusive : ∀ holder other, world.current holder = true → world.current other = true →
    holder = other
  extends_ : ∀ lease ∈ world.leases, ∀ ttl lasting, lease.lasting roundNanos ttl = .ok lasting →
    (lease.extend roundNanos Store.execute s ttl world.store).1 = .ok (world.current lease.holder)
  releases : ∀ lease ∈ world.leases,
    (lease.release Store.execute s world.store).1 = .ok (world.current lease.holder)
  lost : ∀ lease ∈ world.leases, world.current lease.holder = false →
    (∀ ttl, (lease.extend roundNanos Store.execute s ttl world.store).2 = world.store) ∧
      (lease.release Store.execute s world.store).2 = world.store
  expires : ∀ entry, live world.store.now world.store.cell = some entry →
    entry.until_.isSome = true

variable {roundNanos s key}

/-! ### What a move does -/

variable (roundNanos s key) in
theorem next_lock (world : LockWorld) (holder : Option Str) (token : Str) (ttl : TtlLike) :
    world.next roundNanos s key (.lock holder token ttl) = world ∨
      ∃ lasting : Duration, live world.store.now world.store.cell = none ∧
        world.next roundNanos s key (.lock holder token ttl) =
          ⟨⟨world.store.now, some ⟨.text (holder.getD token),
              some (world.store.now + lasting.nanosTotal)⟩⟩,
            ⟨key, holder.getD token, lasting⟩ :: world.leases,
            Function.update world.hold (holder.getD token)
              (some (world.store.now + lasting.nanosTotal))⟩ := by
  by_cases hempty : holder = some []
  · left
    simp only [next, lock, if_pos hempty]
  cases hlasting : ttlDuration roundNanos ttl with
  | error why =>
      left
      simp only [next, lock, if_neg hempty, hlasting]
  | ok lasting =>
      have hflag := flag_of_execute
        (execute_lock s world.store key (holder.getD token) lasting)
      rcases hwrite : write world.store.now .absent ⟨.text (holder.getD token),
        some (world.store.now + lasting.nanosTotal)⟩ world.store.cell with ⟨stored, cell⟩
      rw [hwrite] at hflag
      cases stored with
      | false =>
          left
          obtain ⟨-, rfl⟩ := write_eq_false hwrite
          simp only [next, lock, if_neg hempty, hlasting, hflag]
          rfl
      | true =>
          right
          obtain ⟨habsent, rfl⟩ := write_eq_true hwrite
          refine ⟨lasting, Option.isNone_iff_eq_none.mp habsent, ?_⟩
          simp only [next, lock, if_neg hempty, hlasting, hflag]
          rfl

variable (roundNanos s key) in
theorem next_extend (world : LockWorld) (lease : Lease) (ttl : Option TtlLike) :
    world.next roundNanos s key (.extend lease ttl) = world ∨
      ∃ lasting : Duration,
        (held lease.holder).holds (live world.store.now world.store.cell) = true ∧
        world.next roundNanos s key (.extend lease ttl) =
          ⟨⟨world.store.now, some ⟨.text lease.holder,
              some (world.store.now + lasting.nanosTotal)⟩⟩, world.leases,
            Function.update world.hold lease.holder
              (some (world.store.now + lasting.nanosTotal))⟩ := by
  cases hlasting : lease.lasting roundNanos ttl with
  | error why =>
      left
      simp only [next, Lease.extend, hlasting]
  | ok lasting =>
      have hflag := flag_of_execute (execute_extend s world.store lease.key lease.holder lasting)
      rcases hwrite : write world.store.now (held lease.holder) ⟨.text lease.holder,
        some (world.store.now + lasting.nanosTotal)⟩ world.store.cell with ⟨stored, cell⟩
      rw [hwrite] at hflag
      cases stored with
      | false =>
          left
          obtain ⟨-, rfl⟩ := write_eq_false hwrite
          simp only [next, Lease.extend, hlasting, hflag]
      | true =>
          right
          obtain ⟨hheld, rfl⟩ := write_eq_true hwrite
          exact ⟨lasting, hheld, by simp only [next, Lease.extend, hlasting, hflag]⟩

variable (roundNanos s key) in
theorem next_release (world : LockWorld) (lease : Lease) :
    world.next roundNanos s key (.release lease) = world ∨
      (held lease.holder).holds (live world.store.now world.store.cell) = true ∧
      world.next roundNanos s key (.release lease) =
        ⟨⟨world.store.now, some ⟨.text "free", some (world.store.now + 1000000)⟩⟩,
          world.leases, Function.update world.hold lease.holder none⟩ := by
  have hflag := flag_of_execute (execute_release s world.store lease.key lease.holder)
  rcases hwrite : write world.store.now (held lease.holder) ⟨.text "free",
    some (world.store.now + 1000000)⟩ world.store.cell with ⟨stored, cell⟩
  rw [hwrite] at hflag
  cases stored with
  | false =>
      left
      obtain ⟨-, rfl⟩ := write_eq_false hwrite
      simp only [next, Lease.release, hflag]
  | true =>
      right
      obtain ⟨hheld, rfl⟩ := write_eq_true hwrite
      exact ⟨hheld, by simp only [next, Lease.release, hflag]⟩

/-! ### The invariant -/

/-- What a caller holds is in the key, or has lapsed; what is in the key is held, or was given
back. -/
structure Kept (callers : Set Str) (world : LockWorld) : Prop where
  cell_of_hold : ∀ holder until_, world.hold holder = some until_ →
    world.store.cell = some ⟨.text holder, some until_⟩ ∨ until_ ≤ world.store.now
  hold_of_cell : ∀ entry, world.store.cell = some entry → ∃ holder until_,
    entry = ⟨.text holder, some until_⟩ ∧
      (holder = ofString "free" ∨ world.hold holder = some until_)
  granted : ∀ lease ∈ world.leases, lease.holder ∈ callers

variable {callers : Set Str} {world : LockWorld}

theorem current_iff {holder : Str} : world.current holder = true ↔
    ∃ until_, world.hold holder = some until_ ∧ world.store.now < until_ := by
  simp [current, Option.any_eq_true]

theorem holds_held_iff {holder : Str} {entry : Option (Entry Value)} :
    (held holder).holds entry = true ↔ ∃ e, entry = some e ∧ e.value = .text holder := by
  cases entry with
  | none => simp [Condition.holds]
  | some e =>
      rcases e with ⟨value, until_⟩
      cases value <;> simp [Condition.holds, Value.isText, eq_comm]

namespace Kept

theorem start (now : ℤ) : Kept callers (LockWorld.start now) :=
  { cell_of_hold := fun _ _ hhold => by cases hhold
    hold_of_cell := fun _ hcell => by cases hcell
    granted := List.forall_mem_nil _ }

/-- What the key reads as is what is held now. -/
theorem live_of_current (h : Kept callers world) {holder : Str}
    (hcurrent : world.current holder = true) : ∃ until_,
    live world.store.now world.store.cell = some ⟨.text holder, some until_⟩ := by
  obtain ⟨until_, hhold, hlt⟩ := current_iff.mp hcurrent
  rcases h.cell_of_hold holder until_ hhold with hcell | hle
  · exact ⟨until_, live_eq_some.mpr ⟨hcell, by simpa using hlt⟩⟩
  · omega

/-- The key holds a caller's name exactly while the caller's lease is current. -/
theorem held_iff (h : Kept callers world) {holder : Str} (hfree : holder ≠ ofString "free") :
    (held holder).holds (live world.store.now world.store.cell) = world.current holder := by
  rw [Bool.eq_iff_iff, holds_held_iff]
  constructor
  · rintro ⟨entry, hlive, hvalue⟩
    obtain ⟨hcell, huntil⟩ := live_eq_some.mp hlive
    obtain ⟨v, until_, rfl, hv⟩ := h.hold_of_cell entry hcell
    obtain rfl : v = holder := by simpa using hvalue
    exact current_iff.mpr ⟨until_, hv.resolve_left hfree, huntil until_ rfl⟩
  · intro hcurrent
    obtain ⟨until_, hlive⟩ := h.live_of_current hcurrent
    exact ⟨_, hlive, rfl⟩

theorem exclusive (h : Kept callers world) {holder other : Str}
    (hholder : world.current holder = true) (hother : world.current other = true) :
    holder = other := by
  obtain ⟨_, hlive⟩ := h.live_of_current hholder
  obtain ⟨_, hlive'⟩ := h.live_of_current hother
  rw [hlive] at hlive'
  simpa using congrArg (Option.map Entry.value) hlive'

/-- While nobody else's lease is current, a caller may write its own name and hold the lock,
or write that the lock is free and hold it no longer. -/
theorem overwritten {holder written : Str} {until_ : ℤ}
    {mine : Option ℤ} {leases : List Lease}
    (hleases : ∀ lease ∈ leases, lease.holder ∈ callers)
    (halone : ∀ other, other ≠ holder → world.current other = false)
    (hwritten : written = holder ∧ mine = some until_ ∨ written = ofString "free" ∧ mine = none) :
    Kept callers ⟨⟨world.store.now, some ⟨.text written, some until_⟩⟩, leases,
      Function.update world.hold holder mine⟩ := by
  refine ⟨fun other u hu => ?_, fun entry hentry => ?_, hleases⟩
  · change Function.update world.hold holder mine other = some u at hu
    by_cases hother : other = holder
    · subst hother
      rw [Function.update_self] at hu
      rcases hwritten with ⟨rfl, rfl⟩ | ⟨-, rfl⟩
      · cases hu
        exact .inl rfl
      · cases hu
    · rw [Function.update_of_ne hother] at hu
      have hlapsed : ¬ world.store.now < u := fun hlt =>
        Bool.false_ne_true ((halone other hother).symm.trans (current_iff.mpr ⟨u, hu, hlt⟩))
      exact .inr (not_lt.mp hlapsed)
  · cases hentry
    rcases hwritten with ⟨rfl, rfl⟩ | ⟨rfl, -⟩
    · exact ⟨written, until_, rfl, .inr (Function.update_self ..)⟩
    · exact ⟨_, until_, rfl, .inl rfl⟩

/-- Nobody else's lease is current while the key holds a caller's name. -/
theorem alone (h : Kept callers world) {holder : Str}
    (hheld : (held holder).holds (live world.store.now world.store.cell) = true) (other : Str)
    (hother : other ≠ holder) : world.current other = false := by
  rw [Bool.eq_false_iff]
  intro hcurrent
  obtain ⟨_, hlive⟩ := h.live_of_current hcurrent
  obtain ⟨entry, hentry, hvalue⟩ := holds_held_iff.mp hheld
  rw [hlive] at hentry
  cases hentry
  exact hother (by simpa using hvalue)

/-- **Every move keeps who holds the lock in step with what the key says.** -/
theorem next (h : Kept callers world) {move : Move} (hallowed : Allowed callers world move) :
    Kept callers (world.next roundNanos s key move) := by
  cases move with
  | lock holder token ttl =>
      rcases next_lock roundNanos s key world holder token ttl with
        heq | ⟨lasting, habsent, heq⟩
      · rw [heq]
        exact h
      · rw [heq]
        refine overwritten (List.forall_mem_cons.mpr ⟨hallowed, h.granted⟩) (fun other _ => ?_)
          (.inl ⟨rfl, rfl⟩)
        rw [Bool.eq_false_iff]
        intro hcurrent
        obtain ⟨_, hlive⟩ := h.live_of_current hcurrent
        rw [habsent] at hlive
        cases hlive
  | extend lease ttl =>
      rcases next_extend roundNanos s key world lease ttl with
        heq | ⟨lasting, hheld, heq⟩
      · rw [heq]
        exact h
      · rw [heq]
        exact overwritten h.granted (h.alone hheld) (.inl ⟨rfl, rfl⟩)
  | release lease =>
      rcases next_release roundNanos s key world lease with
        heq | ⟨hheld, heq⟩
      · rw [heq]
        exact h
      · rw [heq]
        exact overwritten h.granted (h.alone hheld) (.inr ⟨rfl, rfl⟩)
  | pass nanos =>
      refine ⟨fun holder u hu => (h.cell_of_hold holder u hu).imp_right fun hle => ?_,
        h.hold_of_cell, h.granted⟩
      have : world.store.now ≤ world.store.now + nanos := by omega
      exact hle.trans this

/-- The answers of a lease follow from who holds the lock. -/
theorem safe (h : Kept callers world) (hfree : ofString "free" ∉ callers) :
    world.Safe roundNanos s := by
  have hheld : ∀ lease ∈ world.leases,
      (held lease.holder).holds (live world.store.now world.store.cell) =
        world.current lease.holder := fun lease hlease =>
    h.held_iff fun heq => hfree (heq ▸ h.granted lease hlease)
  have hextend : ∀ lease ∈ world.leases, ∀ ttl lasting,
      lease.lasting roundNanos ttl = .ok lasting →
      lease.extend roundNanos Store.execute s ttl world.store =
        (.ok (world.current lease.holder), ⟨world.store.now,
          if world.current lease.holder then
            some ⟨.text lease.holder, some (world.store.now + lasting.nanosTotal)⟩
          else world.store.cell⟩) := by
    intro lease hlease ttl lasting hlasting
    simp only [Lease.extend, hlasting, write, hheld lease hlease,
      flag_of_execute (execute_extend s world.store lease.key lease.holder lasting)]
    cases world.current lease.holder <;> rfl
  have hrelease : ∀ lease ∈ world.leases,
      lease.release Store.execute s world.store =
        (.ok (world.current lease.holder), ⟨world.store.now,
          if world.current lease.holder then
            some ⟨.text "free", some (world.store.now + 1000000)⟩
          else world.store.cell⟩) := by
    intro lease hlease
    simp only [Lease.release, write, hheld lease hlease,
      flag_of_execute (execute_release s world.store lease.key lease.holder)]
    cases world.current lease.holder <;> rfl
  refine ⟨fun _ _ => h.exclusive, fun lease hlease ttl lasting hlasting => ?_,
    fun lease hlease => ?_, fun lease hlease hcurrent => ⟨fun ttl => ?_, ?_⟩,
    fun entry hentry => ?_⟩
  · rw [hextend lease hlease ttl lasting hlasting]
  · rw [hrelease lease hlease]
  · cases hlasting : lease.lasting roundNanos ttl with
    | error why => simp only [Lease.extend, hlasting]
    | ok lasting =>
        rw [hextend lease hlease ttl lasting hlasting, hcurrent]
        rfl
  · rw [hrelease lease hlease, hcurrent]
    rfl
  · obtain ⟨_, _, rfl, -⟩ := h.hold_of_cell entry (live_eq_some.mp hentry).1
    rfl

end Kept

theorem Reached.kept (h : Reached roundNanos s key callers world) : Kept callers world := by
  induction h with
  | start now => exact Kept.start now
  | next _ hallowed ih => exact ih.next hallowed

/-! ### A holder named `free` -/

/-- The lease a caller named `free` is granted for a second. -/
def freeLease (key : Str) : Lease := ⟨key, ofString "free", ⟨1, 0⟩⟩

/-- The world in which that lease was granted and released. -/
def releasedFree (key : Str) : LockWorld :=
  ⟨⟨0, some ⟨.text "free", some 1000000⟩⟩, [freeLease key],
    Function.update (Function.update (fun _ => none) (ofString "free") (some 1000000000))
      (ofString "free") none⟩

theorem releasedFree_reached (hfree : ofString "free" ∈ callers) :
    Reached roundNanos s key callers (releasedFree key) := by
  have hlock : (start 0).next roundNanos s key
      (.lock (some (ofString "free")) [] (.seconds 1)) =
      ⟨⟨0, some ⟨.text "free", some 1000000000⟩⟩, [freeLease key],
        Function.update (fun _ => none) (ofString "free") (some 1000000000)⟩ := by
    have hne : some (ofString "free") ≠ some [] := by decide
    have hlasting : ttlDuration roundNanos (.seconds 1) = .ok ⟨1, 0⟩ := rfl
    simp only [next, lock, if_neg hne, hlasting, Option.getD_some,
      flag_of_execute (execute_lock s _ key _ _)]
    rfl
  have hrelease : LockWorld.next roundNanos s key
      ⟨⟨0, some ⟨.text "free", some 1000000000⟩⟩, [freeLease key],
        Function.update (fun _ => none) (ofString "free") (some 1000000000)⟩
      (.release (freeLease key)) = releasedFree key := by
    simp only [next, Lease.release, flag_of_execute (execute_release s _ _ _)]
    rfl
  have hgranted : Reached roundNanos s key callers ((start 0).next roundNanos s key
      (.lock (some (ofString "free")) [] (.seconds 1))) := .next (.start 0) hfree
  rw [hlock] at hgranted
  rw [← hrelease]
  exact hgranted.next (List.mem_singleton_self _)

/-- The lease that was released is extended: the key still holds what it wrote. -/
theorem releasedFree_not_safe : ¬ (releasedFree key).Safe roundNanos s := by
  intro h
  have hanswer := h.extends_ (freeLease key) (List.mem_singleton_self _) none ⟨1, 0⟩ rfl
  have hextended : (freeLease key).extend roundNanos Store.execute s none (releasedFree key).store =
      (.ok true, ⟨0, some ⟨.text "free", some 1000000000⟩⟩) := by
    simp only [Lease.extend, Lease.lasting, Option.elim,
      flag_of_execute (execute_extend s _ _ _ _)]
    rfl
  rw [hextended] at hanswer
  have hcurrent : (releasedFree key).current (freeLease key).holder = false := rfl
  rw [hcurrent] at hanswer
  cases hanswer

end LockWorld

/-- **A lease answers its own holder and nobody else**, however the calls of these callers and
the passing of time fall, if and only if no caller is named by the word a release writes. -/
theorem leases_answer_their_holder (callers : Set Str) :
    (∀ world, LockWorld.Reached roundNanos s key callers world → world.Safe roundNanos s) ↔
      ofString "free" ∉ callers := by
  constructor
  · intro h hfree
    exact LockWorld.releasedFree_not_safe (h _ (LockWorld.releasedFree_reached hfree))
  · intro hfree world hreached
    exact hreached.kept.safe hfree

end Runs

/-- A caller named `free` extends a lease it has released. -/
theorem released_lease_is_extended :
    ¬ ∀ (roundNanos : Double → Except Rejected ℤ) (s : CacheStatements) (key : Str)
      (callers : Set Str), [] ∉ callers →
      ∀ world, LockWorld.Reached roundNanos s key callers world → world.Safe roundNanos s := by
  intro h
  have hvalid : IsName (ofString "a") := by decide
  have hfree : ([] : Str) ∉ ({ofString "free"} : Set Str) := by
    simp only [Set.mem_singleton_iff]
    decide
  exact LockWorld.releasedFree_not_safe (h (fun _ => .error .notFinite)
    ⟨⟨"a", hvalid⟩, ⟨"a", hvalid⟩, ⟨"a", hvalid⟩⟩ [] {ofString "free"} hfree _
    (LockWorld.releasedFree_reached (Set.mem_singleton _)))

end TessariDB
