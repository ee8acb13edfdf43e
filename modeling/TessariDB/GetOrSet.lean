import TessariDB.Interleaving
import TessariDB.Lease

/-!
# Racing Callers of `get_or_set`

`Cache.get_or_set` reads a key, and where it is absent runs a loader and stores what it made if
nobody stored first. It is written here as a program that sends its statements one by one, so
that any number of callers can be interleaved on one store.

The store runs a statement at one instant, and answers a `GET` with what the key reads as. Beside
it is kept what each caller's loader made, and the answers to the conditional stores.

## Main results

* `Race.invariant`: what each caller may count on at each point of the call, whatever the
  others do.
* `racing_callers_agree`: every caller that returns answers what the key holds, and exactly one
  conditional store succeeds.
-/

namespace TessariDB

open Utf8 Text Expiring Interleaving

/-! ### The call -/

namespace Cache

/-- What a call asks of its surroundings: a statement is sent, or the loader is run. -/
inductive Ask where
  | statement (r : Rendered Value)
  | loader

/-- What it is answered. A loader that raises answers nothing, and its caller goes no further. -/
def Ask.Answer : Ask → Type
  | .statement _ => List Outcome
  | .loader => Value

/-- A call under way. -/
abbrev Call (α : Type) := ExceptT LeaseError (Program Ask Ask.Answer) α

/-- A result or a refusal that takes no question. -/
def Call.ofExcept {α : Type} (x : Except LeaseError α) : Call α := ExceptT.mk (pure x)

variable (roundNanos : Double → Except Rejected ℤ) (s : CacheStatements)

def execute (r : Rendered Value) : Call (List Outcome) :=
  ExceptT.lift (Program.once (Ask.statement r))

def loader : Call Value := ExceptT.lift (Program.once Ask.loader)

/-- `_value`. -/
def value (r : Rendered Value) : Call Value := do
  let outcomes ← execute r
  Call.ofExcept (valueOf outcomes)

/-- `_flag`. -/
def flag (r : Rendered Value) : Call Bool := do
  let outcomes ← execute r
  Call.ofExcept (flagOf outcomes)

/-- `get`. -/
def get (key : Str) : Call (Option Value) := do
  let found ← value (s.get key)
  return if found.isNone then none else some found

/-- `set_if_absent`. -/
def setIfAbsent (key : Str) (value : Value) (ttl : Option TtlLike) : Call Bool := do
  let lasting ← Call.ofExcept ((ttl.mapM (ttlDuration roundNanos)).mapError .rejected)
  flag (s.set key value " IF ABSENT" none lasting)

/-- `get_or_set`. -/
def getOrSet (key : Str) (ttl : TtlLike) : Call Value := do
  let found ← get s key
  match found with
  | some found => return found
  | none =>
      let made ← loader
      let stored ← setIfAbsent roundNanos s key made (some ttl)
      if stored then return made
      else
        let again ← get s key
        return again.getD made

/-! ### The points of the call -/

/-- The key was absent, and the loader is yet to run. -/
def missed (key : Str) (ttl : TtlLike) : Call Value := do
  let made ← loader
  let stored ← setIfAbsent roundNanos s key made (some ttl)
  if stored then return made
  else
    let again ← get s key
    return again.getD made

/-- Somebody stored first, and the key is yet to be read again. -/
def refused (key : Str) (made : Value) : Call Value := do
  let again ← get s key
  return again.getD made

/-- What to store is made. -/
def loaded (key : Str) (ttl : TtlLike) (made : Value) : Call Value := do
  let stored ← setIfAbsent roundNanos s key made (some ttl)
  if stored then return made else refused s key made

section Points

variable {α : Type} (key : Str)

/-- A call that goes on with what a key was read as. -/
theorem get_bind (f : Option Value → Call α) : get s key >>= f =
    Program.ask (Ask.statement (s.get key)) fun outcomes =>
      match valueOf outcomes with
      | .error e => .result (.error e)
      | .ok found => f (if found.isNone then none else some found) := by
  refine congrArg (Program.ask (Ask.statement (s.get key))) (funext fun outcomes => ?_)
  change ((Program.result (valueOf outcomes)).bind (ExceptT.bindCont fun found =>
    pure (if found.isNone then none else some found))).bind (ExceptT.bindCont f) = _
  cases valueOf outcomes <;> rfl

/-- A call that goes on with the answer to a conditional write. -/
theorem flag_bind (r : Rendered Value) (f : Bool → Call α) : flag r >>= f =
    Program.ask (Ask.statement r) fun outcomes =>
      match flagOf outcomes with
      | .error e => .result (.error e)
      | .ok stored => f stored := by
  refine congrArg (Program.ask (Ask.statement r)) (funext fun outcomes => ?_)
  change (Program.result (flagOf outcomes)).bind (ExceptT.bindCont f) = _
  cases flagOf outcomes <;> rfl

variable (ttl : TtlLike)

theorem getOrSet_eq : getOrSet roundNanos s key ttl =
    Program.ask (Ask.statement (s.get key)) fun outcomes =>
      match valueOf outcomes with
      | .error e => .result (.error e)
      | .ok found =>
          if found.isNone then missed roundNanos s key ttl else .result (.ok found) := by
  rw [getOrSet, get_bind]
  refine congrArg (Program.ask (Ask.statement (s.get key))) (funext fun outcomes => ?_)
  cases valueOf outcomes with
  | error e => rfl
  | ok found =>
      cases h : found.isNone with
      | true =>
          simp only [h]
          rfl
      | false =>
          simp only [h]
          rfl

theorem missed_eq : missed roundNanos s key ttl =
    Program.ask Ask.loader fun made => loaded roundNanos s key ttl made := rfl

theorem loaded_eq (made : Value) : loaded roundNanos s key ttl made =
    match ttlDuration roundNanos ttl with
    | .error why => Program.result (.error (.rejected why))
    | .ok lasting =>
        Program.ask (Ask.statement (s.set key made " IF ABSENT" none (some lasting)))
          fun outcomes =>
            match flagOf outcomes with
            | .error e => .result (.error e)
            | .ok stored => if stored then .result (.ok made) else refused s key made := by
  have hlasting : (some ttl).mapM (ttlDuration roundNanos) =
      some <$> ttlDuration roundNanos ttl := rfl
  cases h : ttlDuration roundNanos ttl with
  | error why =>
      rw [loaded, setIfAbsent, hlasting, h]
      rfl
  | ok lasting =>
      rw [loaded, setIfAbsent, hlasting, h]
      exact flag_bind _ fun stored => if stored then pure made else refused s key made

theorem refused_eq (made : Value) : refused s key made =
    Program.ask (Ask.statement (s.get key)) fun outcomes =>
      match valueOf outcomes with
      | .error e => .result (.error e)
      | .ok found => .result (.ok (if found.isNone then made else found)) := by
  rw [refused, get_bind]
  refine congrArg (Program.ask (Ask.statement (s.get key))) (funext fun outcomes => ?_)
  cases valueOf outcomes with
  | error e => rfl
  | ok found =>
      cases h : found.isNone with
      | true =>
          simp only [h]
          rfl
      | false =>
          simp only [h]
          rfl

end Points

end Cache

/-! ### The store -/

/-- What the key reads as. -/
def Store.held (store : Store) : Option Value := (live store.now store.cell).map Entry.value

/-- The answer to a script of two `USE`s and a `GET` or a `SET`, run at one instant. -/
def Store.answer (r : Rendered Value) (store : Store) : List Outcome × Store :=
  if ((SetStatement.words r.script).drop 6).head? = some (ofString "GET") then
    ([.done, .done, .valueOutcome [] (store.held.getD .noneValue)], store)
  else store.execute r

theorem words_get (s : CacheStatements) (key : Str) :
    SetStatement.words (s.get key).script =
      (SetStatement.heading s).take 6 ++ [ofString "GET", s.space.text ++ ":$k"] := by
  have hspace : ∀ w ∈ (SetStatement.heading s).take 6 ++ [ofString "GET", s.space.text ++ ":$k"],
      codePoint 0x20 ∉ w := by
    have hhead := SetStatement.space_notMem_heading s
    refine List.forall_mem_append.mpr
      ⟨fun w hw => hhead w (List.mem_of_mem_take hw),
        List.forall_mem_cons.mpr ⟨by decide, List.forall_mem_singleton.mpr ?_⟩⟩
    exact hhead _ (by simp [SetStatement.heading])
  rw [← SetStatement.words_intercalate (by simp) hspace]
  congr 1
  have huse : ofString "USE NAMESPACE " =
      "USE" ++ codePoint 0x20 :: ("NAMESPACE" ++ [codePoint 0x20]) := by decide
  have hdatabase : ofString "; USE DATABASE " = ";" ++ codePoint 0x20 ::
      ("USE" ++ codePoint 0x20 :: ("DATABASE" ++ [codePoint 0x20])) := by decide
  have hget : ofString "GET " = "GET" ++ [codePoint 0x20] := by decide
  have hend : ofString "; " = ";" ++ [codePoint 0x20] := by decide
  have hkey : ofString ":$k;" = ":$k" ++ ";" := by decide
  simp only [CacheStatements.get, CacheStatements.keyed, CacheStatements.tenancy, tenancy, huse,
    hdatabase, hget, hend, hkey, SetStatement.heading, List.take_succ_cons, List.take_zero,
    List.intercalate_cons_cons, List.intercalate_singleton, List.append_assoc, List.cons_append,
    List.nil_append]

/-- A `GET` answers what the key reads as, and none when it is absent. -/
theorem Store.answer_get (store : Store) (s : CacheStatements) (key : Str) :
    store.answer (s.get key) =
      ([.done, .done, .valueOutcome [] (store.held.getD .noneValue)], store) := by
  rw [answer, if_pos]
  rw [words_get]
  rfl

/-- Only a script whose seventh word is `SET` is read as a `SET`. -/
theorem head_of_read {script : Str} {statement : SetStatement}
    (h : SetStatement.read script = some statement) :
    ((SetStatement.words script).drop 6).head? = some (ofString "SET") := by
  rw [SetStatement.read] at h
  split at h
  · next set _ _ hwords =>
    split at h
    · next heq => rw [hwords, List.head?_cons, heq]
    · cases h
  · cases h

/-- The conditional store of `set_if_absent`. -/
abbrev storeIfAbsent (s : CacheStatements) (key : Str) (value : Value) (lasting : Duration) :
    Rendered Value := s.set key value " IF ABSENT" none (some lasting)

theorem words_storeIfAbsent (s : CacheStatements) (key : Str) (value : Value)
    (lasting : Duration) : (storeIfAbsent s key value lasting).script =
      s.tenancy ++ ("SET " ++ s.space.text ++ ":$k = $v IF ABSENT EXPIRE $t;") := by
  have htail : ofString ":$k = $v IF ABSENT EXPIRE $t;" =
      ":$k = $v" ++ (ofString " IF ABSENT" ++ (" EXPIRE $t" ++ ";")) := by decide
  rw [htail]
  simp only [CacheStatements.set, CacheStatements.keyed, Rendered.given, Option.isSome_some,
    if_true, Option.elim_none, Option.elim_some, List.append_assoc]

theorem read_storeIfAbsent (s : CacheStatements) (key : Str) (value : Value)
    (lasting : Duration) : SetStatement.read (storeIfAbsent s key value lasting).script =
      some ⟨.given "v", .absent, some (.given "t")⟩ := by
  have h := SetStatement.read_script s
    [ofString "=", ofString "$v", ofString "IF", ofString "ABSENT", ofString "EXPIRE",
      ofString "$t"] ":$k = $v IF ABSENT EXPIRE $t;"
    (List.cons_ne_nil _ _) (by decide) (by decide)
  rw [words_storeIfAbsent]
  exact h.trans (by decide)

/-- A value is stored where the key reads as absent. -/
theorem Store.answer_storeIfAbsent (store : Store) (s : CacheStatements) (key : Str)
    (value : Value) (lasting : Duration) :
    store.answer (storeIfAbsent s key value lasting) = store.answered (write store.now .absent
      ⟨value, some (store.now + lasting.nanosTotal)⟩ store.cell) := by
  have hset : ((SetStatement.words (storeIfAbsent s key value lasting).script).drop 6).head? ≠
      some (ofString "GET") := by
    rw [head_of_read (read_storeIfAbsent s key value lasting)]
    decide
  rw [answer, if_neg hset]
  exact Store.execute_of_read (read_storeIfAbsent s key value lasting) rfl rfl ⟨_, rfl, rfl⟩

theorem read_get (s : CacheStatements) (key : Str) :
    SetStatement.read (s.get key).script = none := by
  have hwords : (SetStatement.words (s.get key).script).drop 6 =
      [ofString "GET", s.space.text ++ ":$k"] := by
    rw [words_get]
    rfl
  have hne : ofString "GET" ≠ ofString "SET" := by decide
  simp only [SetStatement.read, hwords, if_neg hne]

/-- A ttl that was accepted is positive. -/
theorem ttlDuration_pos {roundNanos : Double → Except Rejected ℤ} {ttl : TtlLike}
    {lasting : Duration} (h : ttlDuration roundNanos ttl = .ok lasting) :
    0 < lasting.nanosTotal := by
  have hpositive (e : Rejected) (n : ℤ) (hn : (if n ≤ 0 then .error e
      else .ok ⟨n / 1000000000, n % 1000000000⟩ : Except Rejected Duration) = .ok lasting) :
      0 < lasting.nanosTotal := by
    split at hn
    · cases hn
    · cases hn
      simp only [Duration.nanosTotal]
      omega
  cases ttl with
  | timedelta days seconds microseconds => exact hpositive _ _ h
  | seconds value => exact hpositive _ _ h
  | float value =>
      obtain ⟨n, -, h⟩ := Sequences.bind_eq_ok.mp h
      exact hpositive _ n h
  | other => cases h

/-- A conditional store either finds the key absent and stores, or finds it there and does
nothing. -/
theorem Store.answer_cases (store : Store) (s : CacheStatements) (key : Str) (value : Value)
    {lasting : Duration} (hpos : 0 < lasting.nanosTotal) :
    (store.held = none ∧ ∃ store' : Store, store'.held = some value ∧
      store.answer (storeIfAbsent s key value lasting) =
        ([.done, .done, .valueOutcome [] (.bool true)], store')) ∨
    store.held ≠ none ∧ store.answer (storeIfAbsent s key value lasting) =
      ([.done, .done, .valueOutcome [] (.bool false)], store) := by
  have hanswer := store.answer_storeIfAbsent s key value lasting
  rcases hwrite : write store.now .absent ⟨value, some (store.now + lasting.nanosTotal)⟩
    store.cell with ⟨stored, cell⟩
  rw [hwrite] at hanswer
  cases stored with
  | true =>
      obtain ⟨habsent, rfl⟩ := write_eq_true hwrite
      refine .inl ⟨by simpa [held, Condition.holds] using habsent, _, ?_, hanswer⟩
      rw [held, live_eq_some.mpr ⟨rfl, fun u hu => ?_⟩, Option.map_some]
      cases hu
      exact Int.lt_add_of_pos_right _ hpos
  | false =>
      obtain ⟨hthere, rfl⟩ := write_eq_false hwrite
      exact .inr ⟨by simpa [held, Condition.holds, Option.isSome_iff_ne_none] using hthere, hanswer⟩

/-! ### The callers -/

/-- The store, what each caller's loader made, and whom each conditional store was answered to,
with the answer. -/
structure Race (ι : Type) where
  store : Store
  made : ι → Option Value
  stores : List (ι × Bool)

/-- The answer to a conditional store, if that is what was answered. -/
def conditionalStore (r : Rendered Value) (outcomes : List Outcome) : Option Bool :=
  match SetStatement.read r.script with
  | some ⟨_, .absent, _⟩ => (flagOf outcomes).toOption
  | _ => none

namespace Race

variable {ι : Type} [DecidableEq ι]

open Cache

/-- A statement is run on the store, and a loader makes anything but the language's none. -/
inductive Answers (i : ι) (race : Race ι) : (q : Ask) → q.Answer → Race ι → Prop
  | statement (r : Rendered Value) :
      Answers i race (.statement r) (race.store.answer r).1
        ⟨(race.store.answer r).2, race.made, race.stores ++
          (conditionalStore r (race.store.answer r).1).toList.map fun stored => (i, stored)⟩
  | loader (made : Value) (hmade : made.isNone = false) :
      Answers i race .loader made { race with made := Function.update race.made i (some made) }

/-- Time passes, and no expiry with it. -/
inductive Passes (race : Race ι) : Race ι → Prop
  | pass (later : ℤ) (hlive : live later race.store.cell = live race.store.now race.store.cell) :
      Passes race { race with store := ⟨later, race.store.cell⟩ }

/-- What one step of a caller does to the race. -/
inductive Moved (i : ι) (race : Race ι) : Race ι → Prop
  | read : Moved i race race
  | load (made : Value) (hnew : race.made i = none) :
      Moved i race { race with made := Function.update race.made i (some made) }
  | stored (made : Value) (store : Store) (hheld : race.store.held = none)
      (hmade : race.made i = some made) (hproper : made.isNone = false)
      (hstored : store.held = some made) :
      Moved i race ⟨store, race.made, race.stores ++ [(i, true)]⟩
  | refused (hheld : race.store.held ≠ none) :
      Moved i race { race with stores := race.stores ++ [(i, false)] }

variable (roundNanos : Double → Except Rejected ℤ) (s : CacheStatements) (key : Str)
  (ttl : ι → TtlLike)

/-- Where a caller stands, and what it may count on there. -/
inductive Standing (i : ι) (race : Race ι) : Call Value → Prop
  | begun (hnew : race.made i = none) : Standing i race (getOrSet roundNanos s key (ttl i))
  | missed (hnew : race.made i = none) : Standing i race (missed roundNanos s key (ttl i))
  | loaded (made : Value) (hmade : race.made i = some made) (hproper : made.isNone = false) :
      Standing i race (loaded roundNanos s key (ttl i) made)
  | refused (made : Value) (hheld : race.store.held ≠ none) :
      Standing i race (refused s key made)
  | returned (value : Value) (hheld : race.store.held = some value) :
      Standing i race (Program.result (.ok value))
  | raised (e : LeaseError) : Standing i race (Program.result (.error e))

/-- What holds of the race at every moment; `absent` is that the key was absent at the start. -/
structure Fair (absent : Prop) (race : Race ι) : Prop where
  proper : ∀ v ∈ race.store.held, v.isNone = false
  untried : absent → race.store.held = none → race.stores = []
  won : absent → ∀ v ∈ race.store.held,
    ∃ i, race.made i = some v ∧ race.stores.filter Prod.snd = [(i, true)]

variable {roundNanos s key ttl} {i j : ι} {race race' : Race ι}

/-- Values stay where they are stored. -/
theorem Moved.held (h : Moved i race race') {v : Value} (hv : race.store.held = some v) :
    race'.store.held = some v := by
  cases h with
  | read => exact hv
  | load made hnew => exact hv
  | stored made store hheld hmade hproper hstored =>
      rw [hheld] at hv
      cases hv
  | refused hheld => exact hv

/-- What somebody else's loader made stays as it is. -/
theorem Moved.made (h : Moved i race race') (hji : j ≠ i) : race'.made j = race.made j := by
  cases h with
  | read => rfl
  | load made hnew => exact Function.update_of_ne hji _ _
  | stored made store hheld hmade hproper hstored => rfl
  | refused hheld => rfl

omit [DecidableEq ι] in
/-- A caller stands where it stood, whatever somebody else does. -/
theorem Standing.kept {call : Call Value} (h : Standing roundNanos s key ttl j race call)
    (hheld : ∀ v, race.store.held = some v → race'.store.held = some v)
    (hmade : race'.made j = race.made j) : Standing roundNanos s key ttl j race' call := by
  cases h with
  | begun hnew => exact .begun (hmade.trans hnew)
  | missed hnew => exact .missed (hmade.trans hnew)
  | loaded made hm hproper => exact .loaded made (hmade.trans hm) hproper
  | refused made hne =>
      obtain ⟨v, hv⟩ := Option.ne_none_iff_exists'.mp hne
      exact .refused made (by rw [hheld v hv]; nofun)
  | returned value hv => exact .returned value (hheld value hv)
  | raised e => exact .raised e

omit [DecidableEq ι] in
/-- After a `GET` the race is as it was. -/
theorem after_get (race : Race ι) (i : ι) (s : CacheStatements) (key : Str) :
    (⟨(race.store.answer (s.get key)).2, race.made, race.stores ++
      (conditionalStore (s.get key) (race.store.answer (s.get key)).1).toList.map
        fun stored => (i, stored)⟩ : Race ι) = race := by
  have hnone : ∀ outcomes, conditionalStore (s.get key) outcomes = none := fun outcomes => by
    rw [conditionalStore, read_get]
  rw [hnone, Store.answer_get, Option.toList_none, List.map_nil, List.append_nil]

/-- What a `GET` is answered, as `_value` reads it. -/
theorem valueOf_get (store : Store) (s : CacheStatements) (key : Str) :
    valueOf (store.answer (s.get key)).1 = .ok (store.held.getD .noneValue) := by
  rw [Store.answer_get]
  rfl

/-- **One step of a caller**: what it does to the race, and where the caller stands then. -/
theorem Standing.step {q : Ask} {next : q.Answer → Program Ask Ask.Answer (Except LeaseError Value)}
    {a : q.Answer} (h : Standing roundNanos s key ttl i race (Program.ask q next))
    (hproper : ∀ v ∈ race.store.held, v.isNone = false) (ha : Answers i race q a race') :
    Moved i race race' ∧ Standing roundNanos s key ttl i race' (next a) := by
  generalize hcall : (Program.ask q next : Call Value) = call at h
  cases h with
  | begun hnew =>
      rw [getOrSet_eq] at hcall
      cases hcall
      cases ha with
      | statement r =>
          rw [after_get]
          refine ⟨.read, ?_⟩
          simp only [valueOf_get]
          cases hheld : race.store.held with
          | none => exact .missed hnew
          | some found =>
              simp only [Option.getD_some, hproper found hheld]
              exact .returned found hheld
  | missed hnew =>
      rw [missed_eq] at hcall
      cases hcall
      cases ha with
      | loader _ hmade => exact ⟨.load a hnew, .loaded a (Function.update_self ..) hmade⟩
  | loaded made hmade hmade' =>
      rw [loaded_eq] at hcall
      split at hcall
      · cases hcall
      · next lasting hlasting =>
        cases hcall
        cases ha with
        | statement r =>
            have hset : ∀ b, conditionalStore (storeIfAbsent s key made lasting)
                [.done, .done, .valueOutcome [] (.bool b)] = some b := fun b => by
              rw [conditionalStore, read_storeIfAbsent]
              rfl
            rcases race.store.answer_cases s key made (ttlDuration_pos hlasting) with
              ⟨habsent, store, hstored, hanswer⟩ | ⟨hthere, hanswer⟩
            · simp only [hanswer, hset]
              exact ⟨.stored made store habsent hmade hmade' hstored, .returned made hstored⟩
            · simp only [hanswer, hset]
              exact ⟨.refused hthere, .refused made hthere⟩
  | refused made hthere =>
      rw [refused_eq] at hcall
      cases hcall
      cases ha with
      | statement r =>
          rw [after_get]
          refine ⟨.read, ?_⟩
          simp only [valueOf_get]
          obtain ⟨found, hheld⟩ := Option.ne_none_iff_exists'.mp hthere
          simp only [hheld, Option.getD_some, hproper found hheld]
          exact .returned found hheld
  | returned value hheld => cases hcall
  | raised e => cases hcall

omit [DecidableEq ι] in
/-- A caller that returned answered what the key holds. -/
theorem Standing.held_of_returned {v : Value}
    (h : Standing roundNanos s key ttl i race (Program.result (.ok v))) :
    race.store.held = some v := by
  generalize hcall : (Program.result (.ok v) : Call Value) = call at h
  cases h with
  | begun hnew =>
      rw [getOrSet_eq] at hcall
      cases hcall
  | missed hnew => cases hcall
  | loaded made hmade hmade' =>
      rw [loaded_eq] at hcall
      split at hcall <;> cases hcall
  | refused made hthere =>
      rw [refused_eq] at hcall
      cases hcall
  | returned value hheld =>
      cases hcall
      exact hheld
  | raised e => cases hcall

/-- **What a step does keeps the race fair.** -/
theorem Fair.moved {absent : Prop} (h : Fair absent race) (hmoved : Moved i race race') :
    Fair absent race' := by
  cases hmoved with
  | read => exact h
  | load made hnew =>
      refine ⟨h.proper, h.untried, fun habsent v hv => ?_⟩
      obtain ⟨k, hk, hstores⟩ := h.won habsent v hv
      have hki : k ≠ i := fun heq => by rw [heq, hnew] at hk; cases hk
      exact ⟨k, (Function.update_of_ne hki _ _).trans hk, hstores⟩
  | stored made store hheld hmade hproper hstored =>
      refine ⟨fun v hv => ?_, fun _ hnone => ?_, fun habsent v hv => ⟨i, ?_, ?_⟩⟩
      · rw [hstored] at hv
        cases hv
        exact hproper
      · rw [hstored] at hnone
        cases hnone
      · rw [hstored] at hv
        cases hv
        exact hmade
      · rw [h.untried habsent hheld]
        rfl
  | refused hheld =>
      refine ⟨h.proper, fun _ hnone => absurd hnone hheld, fun habsent v hv => ?_⟩
      obtain ⟨k, hk, hstores⟩ := h.won habsent v hv
      refine ⟨k, hk, ?_⟩
      rw [List.filter_append, hstores]
      rfl

variable (roundNanos s key ttl) in
/-- **What each caller may count on**, whatever the others do and however much time passes. -/
theorem invariant (absent : Prop) :
    Invariant Answers Passes (Fair absent) (Standing roundNanos s key ttl) where
  own hfair hstanding ha := by
    obtain ⟨hmoved, hnext⟩ := hstanding.step hfair.proper ha
    exact ⟨hfair.moved hmoved, hnext⟩
  kept hfair hstanding ha hji hother := by
    obtain ⟨hmoved, -⟩ := hstanding.step hfair.proper ha
    exact hother.kept (fun v => hmoved.held) (hmoved.made hji)
  interfered := by
    intro race race' hfair hpasses
    cases hpasses with
    | pass later hlive =>
        have hheld : (⟨later, race.store.cell⟩ : Store).held = race.store.held :=
          congrArg (Option.map Entry.value) hlive
        refine ⟨⟨?_, ?_, ?_⟩, fun j call hj => hj.kept (fun v hv => hheld.trans hv) rfl⟩
        · rw [hheld]
          exact hfair.proper
        · rw [hheld]
          exact hfair.untried
        · rw [hheld]
          exact hfair.won

variable (roundNanos s key ttl) in
/-- Reached from a store by callers of `get_or_set` on one key, each with a ttl and a loader of its
own. -/
def Reached (store : Store)
    (c : Configuration (Race ι) ι Ask Ask.Answer (Except LeaseError Value)) : Prop :=
  Interleaving.Reached Answers Passes
    ⟨⟨store, fun _ => none, []⟩, fun i => getOrSet roundNanos s key (ttl i)⟩ c

section Steps

variable {store : Store} {c : Configuration (Race ι) ι Ask Ask.Answer (Except LeaseError Value)}

/-- A caller's question is answered. -/
theorem Reached.own (h : Reached roundNanos s key ttl store c) {q : Ask}
    {next : q.Answer → Program Ask Ask.Answer (Except LeaseError Value)} {a : q.Answer}
    (hasks : c.threads i = Program.ask q next) (ha : Answers i c.world q a race) :
    Reached roundNanos s key ttl store ⟨race, Function.update c.threads i (next a)⟩ :=
  h.tail (Step.own i a hasks ha)

/-- A caller that finds the key absent goes on to its loader. -/
theorem Reached.misses (h : Reached roundNanos s key ttl store c)
    (hi : c.threads i = getOrSet roundNanos s key (ttl i)) (habsent : c.world.store.held = none) :
    Reached roundNanos s key ttl store
      ⟨c.world, Function.update c.threads i (missed roundNanos s key (ttl i))⟩ := by
  have hnext := h.own (hi.trans (getOrSet_eq ..)) (.statement (s.get key))
  rw [after_get] at hnext
  simp only [valueOf_get, habsent] at hnext
  exact hnext

/-- A loader makes something. -/
theorem Reached.loads (h : Reached roundNanos s key ttl store c)
    (hi : c.threads i = missed roundNanos s key (ttl i)) (made : Value)
    (hmade : made.isNone = false) :
    Reached roundNanos s key ttl store ⟨{ c.world with
      made := Function.update c.world.made i (some made) },
      Function.update c.threads i (loaded roundNanos s key (ttl i) made)⟩ :=
  h.own (hi.trans (missed_eq ..)) (.loader made hmade)

/-- What was made is stored where the key is still absent. -/
theorem Reached.stores (h : Reached roundNanos s key ttl store c) {made : Value}
    (hi : c.threads i = loaded roundNanos s key (ttl i) made)
    {lasting : Duration} (hlasting : ttlDuration roundNanos (ttl i) = .ok lasting)
    (habsent : c.world.store.held = none) :
    ∃ c', Reached roundNanos s key ttl store c' ∧ c'.threads i = Program.result (.ok made) := by
  have hasks := hi.trans (loaded_eq ..)
  simp only [hlasting] at hasks
  refine ⟨_, h.own hasks (.statement (storeIfAbsent s key made lasting)), ?_⟩
  rcases c.world.store.answer_cases s key made (ttlDuration_pos hlasting) with
    ⟨-, store', -, hanswer⟩ | ⟨hthere, -⟩
  · simp only [Function.update_self, hanswer]
    rfl
  · exact absurd habsent hthere

end Steps

end Race

/-- The caller `i` is done, and answered `v`. -/
def Returned {ι : Type} (c : Configuration (Race ι) ι Cache.Ask Cache.Ask.Answer
    (Except LeaseError Value)) (i : ι) (v : Value) : Prop :=
  c.threads i = .result (.ok v)

variable {ι : Type} [DecidableEq ι] {roundNanos : Double → Except Rejected ℤ}
  {s : CacheStatements} {key : Str} {ttl : ι → TtlLike}

/-- **Racing callers agree.** However the reads, loads, conditional stores and second reads of
any number of callers follow each other, every caller that returns answers the value stored under
the key. If the key was absent at the start, then as soon as a conditional store was answered or
a caller returned exactly one conditional store has succeeded, and every answer is what the
loader of that one caller made. -/
theorem racing_callers_agree {store : Store} (hproper : ∀ v ∈ store.held, v.isNone = false)
    {c : Configuration (Race ι) ι Cache.Ask Cache.Ask.Answer (Except LeaseError Value)}
    (h : Race.Reached roundNanos s key ttl store c) :
    (∀ i v, Returned c i v → c.world.store.held = some v) ∧
    (store.held = none → (c.world.stores ≠ [] ∨ ∃ i v, Returned c i v) →
      ∃ winner made, c.world.made winner = some made ∧
        c.world.stores.filter Prod.snd = [(winner, true)] ∧
        ∀ i v, Returned c i v → v = made) := by
  have hstart : Race.Fair (store.held = none) (⟨store, fun _ : ι => none, []⟩ : Race ι) :=
    ⟨hproper, fun _ _ => rfl, fun habsent v hv => by rw [habsent] at hv; cases hv⟩
  obtain ⟨hfair, hstanding⟩ :=
    (Race.invariant roundNanos s key ttl (store.held = none)).reached h hstart fun i =>
      .begun rfl
  have hreturned : ∀ i v, Returned c i v → c.world.store.held = some v := by
    intro i v hv
    have hi := hstanding i
    rw [hv] at hi
    exact hi.held_of_returned
  refine ⟨hreturned, fun habsent hdone => ?_⟩
  have hheld : c.world.store.held ≠ none := by
    rintro hnone
    rcases hdone with hstores | ⟨i, v, hv⟩
    · exact hstores (hfair.untried habsent hnone)
    · rw [hreturned i v hv] at hnone
      cases hnone
  obtain ⟨made, hmade⟩ := Option.ne_none_iff_exists'.mp hheld
  obtain ⟨winner, hwinner, hstores⟩ := hfair.won habsent made hmade
  refine ⟨winner, made, hwinner, hstores, fun i v hv => ?_⟩
  exact Option.some.inj ((hreturned i v hv).symm.trans hmade)

/-- Two callers miss the key, both loaders run, and one of the two stores what it made. -/
theorem racing_callers_agree_on_the_first : ∃ c : Configuration (Race Bool) Bool Cache.Ask
    Cache.Ask.Answer (Except LeaseError Value),
    Returned c true (.integer 2) ∧ c.world.store.held = some (.integer 2) := by
  have h₀ : Race.Reached (fun _ => .error .notFinite)
      ⟨⟨"n", by decide⟩, ⟨"d", by decide⟩, ⟨"c", by decide⟩⟩ "k"
      (fun _ : Bool => .seconds 60) ⟨0, none⟩ _ := Relation.ReflTransGen.refl
  have h₁ := h₀.misses (i := false) rfl rfl
  have h₂ := h₁.misses (i := true) rfl rfl
  have h₃ := h₂.loads (i := false) rfl (.integer 1) rfl
  have h₄ := h₃.loads (i := true) rfl (.integer 2) rfl
  obtain ⟨c, h₅, hreturned⟩ := h₄.stores (i := true) rfl rfl rfl
  exact ⟨c, hreturned, (racing_callers_agree (by nofun) h₅).1 true _ hreturned⟩

end TessariDB
