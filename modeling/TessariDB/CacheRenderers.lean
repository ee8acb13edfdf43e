import TessariDB.StatementText

/-!
# What a Cache's Statement Binds

Every call of the cache and container statements as data (`CacheCall`), rendered by the
statement of the same name. A renderer `Binds` when the names its script mentions are the names
of its parameters.

Three calls write a word of their caller's into the script: the condition of `set`, the verb of
`members` and the function of `scores_of`. `CacheCall.Worded` says of such a word that it
mentions exactly what the call binds for it.

`CacheCall.blank` takes the caller's data out of a call and keeps the rest: which optional
arguments are there, how many items a list has, and what is written into the text.

## Main results

* `CacheCall.binds`: every statement binds what it mentions.
* `CacheCall.script_blank`: the script is a function of the call without its data.
-/

namespace TessariDB

open ByteCodec Utf8 Text References

/-- The names a script mentions are the names of the parameters. -/
def Binds (r : Rendered Value) : Prop :=
  ∀ name, name ∈ mentioned r.script ↔ name ∈ Dict.keys r.parameters

/-- What a statement's texts mention, as a test that can be run. -/
def Checks (before after : Str) (names : List Str) : Prop :=
  Apart before ∧ (∀ name ∈ mentioned before ++ mentioned after, name ∈ names) ∧
    ∀ name ∈ names, name ∈ mentioned before ++ mentioned after

instance (before after : Str) (names : List Str) : Decidable (Checks before after names) :=
  haveI := List.decidableBAll (· ∈ names) (mentioned before ++ mentioned after)
  haveI := List.decidableBAll (· ∈ mentioned before ++ mentioned after) names
  inferInstanceAs (Decidable (_ ∧ _ ∧ _))

/-- A script of two texts around a name binds what the texts mention. -/
theorem Binds.of_texts {r : Rendered Value} {tenancy : Str} (htenancy : Unmarked tenancy)
    (subject : Name) (before after : Str) (names : List Str)
    (hscript : r.script = tenancy ++ (before ++ subject.text ++ after))
    (hkeys : Dict.keys r.parameters = names) (hchecks : Checks before after names) : Binds r := by
  obtain ⟨hapart, hmentioned, hnames⟩ := hchecks
  have h : mentioned r.script = mentioned before ++ mentioned after := by
    rw [hscript, mentioned_unmarked_append htenancy, List.append_assoc, mentioned_append hapart,
      mentioned_unmarked_append subject.unmarked]
  intro name
  rw [h, hkeys]
  exact ⟨hmentioned name, hnames name⟩

/-! ### The cache -/

/-- A call of the cache's or the container's statements. -/
inductive CacheCall where
  | get (key : Str)
  | set (key : Str) (value : Value) (condition : Str) (expected : Option Value)
      (ttl : Option Duration)
  | delete (key : Str)
  | incr (key : Str) (by_ : ℤ)
  | ttl (key : Str)
  | expire (key : Str) (ttl : Duration)
  | persist (key : Str)
  | keys (before after : Option Str) (limit : ℤ)
  | lock (key holder : Str) (ttl : Duration)
  | extend (key holder : Str) (ttl : Duration)
  | release (key holder : Str)
  | listPush (key : Str) (values : List Value) (front : Bool)
  | listPop (key : Str) (front : Bool) (count : Option ℤ)
  | listRange (key : Str) (start count : ℤ)
  | listAt (key : Str) (index : ℤ)
  | listLen (key : Str)
  | listRemove (key : Str) (value : Value) (count : Option ℤ)
  | listTrim (key : Str) (start stop : ℤ)
  | hashSet (key : Str) (fields : List (Str × Value))
  | hashGet (key field : Str)
  | hashRemove (key : Str) (fields : List Str)
  | hashIncr (key field : Str) (by_ : ℤ)
  | hashLen (key : Str)
  | members (verb key : Str) (members : List Value)
  | membersHas (key : Str) (member : Value)
  | membersLen (key : Str)
  | scoresAdd (key : Str) (scores : List (Str × Double))
  | scoresIncr (key member : Str) (by_ : Double)
  | scoresRemove (key : Str) (members : List Str)
  | scoresOf (function key member : Str)
  | scoresRange (key : Str) (start stop : ℤ)
  | scoresBetween (key : Str) (low high : Option Double)

namespace CacheCall

def render (s : CacheStatements) : CacheCall → Rendered Value
  | .get key => s.get key
  | .set key value condition expected lasting => s.set key value condition expected lasting
  | .delete key => s.delete key
  | .incr key n => s.incr key n
  | .ttl key => s.ttl key
  | .expire key lasting => s.expire key lasting
  | .persist key => s.persist key
  | .keys before after limit => s.keys before after limit
  | .lock key holder lasting => s.lock key holder lasting
  | .extend key holder lasting => s.extend key holder lasting
  | .release key holder => s.release key holder
  | .listPush key values front => s.listPush key values front
  | .listPop key front count => s.listPop key front count
  | .listRange key start count => s.listRange key start count
  | .listAt key index => s.listAt key index
  | .listLen key => s.listLen key
  | .listRemove key value count => s.listRemove key value count
  | .listTrim key start stop => s.listTrim key start stop
  | .hashSet key fields => s.hashSet key fields
  | .hashGet key field => s.hashGet key field
  | .hashRemove key fields => s.hashRemove key fields
  | .hashIncr key field n => s.hashIncr key field n
  | .hashLen key => s.hashLen key
  | .members verb key items => s.members verb key items
  | .membersHas key member => s.membersHas key member
  | .membersLen key => s.membersLen key
  | .scoresAdd key scores => s.scoresAdd key scores
  | .scoresIncr key member x => s.scoresIncr key member x
  | .scoresRemove key items => s.scoresRemove key items
  | .scoresOf function key member => s.scoresOf function key member
  | .scoresRange key start stop => s.scoresRange key start stop
  | .scoresBetween key low high => s.scoresBetween key low high

/-- The words a call writes into the script mention what the call binds for them. -/
def Worded : CacheCall → Prop
  | .set _ _ condition expected _ =>
      Cut condition ∧ mentioned condition = if expected.isSome then [ofString "e"] else []
  -- `format` raises for a bracket of its own
  | .members verb _ _ => Unmarked verb ∧ codePoint 0x7B ∉ verb ∧ codePoint 0x7D ∉ verb
  | .scoresOf function _ _ => Unmarked function
  | _ => True

/-- The call without its caller's data. -/
def blank : CacheCall → CacheCall
  | .get _ => .get []
  | .set _ _ condition expected lasting =>
      .set [] .noneValue condition (expected.map fun _ => .noneValue) (lasting.map fun _ => ⟨0, 0⟩)
  | .delete _ => .delete []
  | .incr _ _ => .incr [] 0
  | .ttl _ => .ttl []
  | .expire _ _ => .expire [] ⟨0, 0⟩
  | .persist _ => .persist []
  | .keys before after limit =>
      .keys ((before.filter (· ≠ [])).map fun _ => "-") (after.map fun _ => []) limit
  | .lock _ _ _ => .lock [] [] ⟨0, 0⟩
  | .extend _ _ _ => .extend [] [] ⟨0, 0⟩
  | .release _ _ => .release [] []
  | .listPush _ values front => .listPush [] (values.map fun _ => .noneValue) front
  | .listPop _ front count => .listPop [] front (count.map fun _ => 0)
  | .listRange _ _ _ => .listRange [] 0 0
  | .listAt _ _ => .listAt [] 0
  | .listLen _ => .listLen []
  | .listRemove _ _ count => .listRemove [] .noneValue (count.map fun _ => 0)
  | .listTrim _ _ _ => .listTrim [] 0 0
  | .hashSet _ fields => .hashSet [] (fields.map fun _ => ([], .noneValue))
  | .hashGet _ _ => .hashGet [] []
  | .hashRemove _ fields => .hashRemove [] (fields.map fun _ => [])
  | .hashIncr _ _ _ => .hashIncr [] [] 0
  | .hashLen _ => .hashLen []
  | .members verb _ items => .members verb [] (items.map fun _ => .noneValue)
  | .membersHas _ _ => .membersHas [] .noneValue
  | .membersLen _ => .membersLen []
  | .scoresAdd _ scores => .scoresAdd [] (scores.map fun _ => ([], 0))
  | .scoresIncr _ _ _ => .scoresIncr [] [] 0
  | .scoresRemove _ items => .scoresRemove [] (items.map fun _ => [])
  | .scoresOf function _ _ => .scoresOf function [] []
  | .scoresRange _ _ _ => .scoresRange [] 0 0
  | .scoresBetween _ low high => .scoresBetween [] (low.map fun _ => 0) (high.map fun _ => 0)

end CacheCall

/-! ### Lists in a statement -/

namespace CacheStatements

theorem not_hole_of_ne {c : CodePoint} (hc : codePoint 0x7B ≠ c) (rest : Str) :
    HOLE.isPrefixOf (c :: rest) = false := by
  have hhole : HOLE = codePoint 0x7B :: ofString "list\x7d" := rfl
  rw [hhole, List.isPrefixOf_cons_cons, beq_eq_false_iff_ne.mpr hc, Bool.false_and]

theorem formatLoop_plain {b : Str} (hb : codePoint 0x7B ∉ b) (list : Str) :
    formatLoop list 0 b = b := by
  induction b with
  | nil => rfl
  | cons c b ih =>
      obtain ⟨hc, hb⟩ := not_or.mp (List.mem_cons.not.mp hb)
      rw [formatLoop, if_neg (by simp [not_hole_of_ne hc]), ih hb]

theorem formatLoop_skip (list taken b : Str) :
    formatLoop list taken.length (taken ++ b) = formatLoop list 0 b := by
  induction taken with
  | nil => rfl
  | cons c taken ih => exact ih

/-- A statement with one hole. -/
theorem format_hole {a b : Str} (ha : codePoint 0x7B ∉ a) (hb : codePoint 0x7B ∉ b)
    (list : Str) : format (a ++ (HOLE ++ b)) list = a ++ (list ++ b) := by
  rw [format]
  induction a with
  | nil =>
      have hhole : HOLE ++ b = codePoint 0x7B :: (ofString "list\x7d" ++ b) := rfl
      have hprefix : HOLE.isPrefixOf (HOLE ++ b) = true :=
        List.isPrefixOf_iff_prefix.mpr (List.prefix_append _ _)
      have hskip : HOLE.length - 1 = (ofString "list\x7d").length := by decide
      rw [List.nil_append, List.nil_append]
      rw [hhole] at hprefix ⊢
      rw [formatLoop, if_pos hprefix, hskip, formatLoop_skip, formatLoop_plain hb]
  | cons c a ih =>
      obtain ⟨hc, ha⟩ := not_or.mp (List.mem_cons.not.mp ha)
      rw [List.cons_append, formatLoop, if_neg (by simp [not_hole_of_ne hc]), ih ha,
        List.cons_append]

end CacheStatements

theorem mapIdx_const {α β : Type} (f : ℕ → β) (xs : List α) :
    xs.mapIdx (fun i _ => f i) = (List.range xs.length).map f := by
  refine List.ext_getElem (by simp) fun i hi hi' => ?_
  simp

theorem mem_zipIdx_snd {α : Type} {xs : List α} {P : ℕ → Prop} :
    (∃ x ∈ xs.zipIdx, P x.2) ↔ ∃ i < xs.length, P i := by
  constructor
  · rintro ⟨⟨x, i⟩, hx, hP⟩
    exact ⟨i, by simpa using (List.mem_zipIdx hx).2.1, hP⟩
  · rintro ⟨i, hi, hP⟩
    exact ⟨(xs[i], i), List.mk_mem_zipIdx_iff_getElem?.mpr (List.getElem?_eq_getElem hi), hP⟩

/-- What a list mentions, when what each of its parts mentions is known. -/
theorem mem_mentioned_join {parts : List Str} {names : ℕ → List Str}
    (hparts : ∀ i (hi : i < parts.length), mentioned parts[i] = names i) (name : Str) :
    name ∈ mentioned (join ", " parts) ↔ ∃ i < parts.length, name ∈ names i := by
  rw [mentioned_join (by decide) (by decide) (by decide),
    List.mem_flatMap]
  constructor
  · rintro ⟨part, hpart, hname⟩
    obtain ⟨i, hi, rfl⟩ := List.getElem_of_mem hpart
    exact ⟨i, hi, hparts i hi ▸ hname⟩
  · rintro ⟨i, hi, hname⟩
    exact ⟨parts[i], List.getElem_mem hi, (hparts i hi).symm ▸ hname⟩

theorem words_numbered {initial : String} (hinitial : ∀ c ∈ ofString initial, IsWord c) (i : ℕ) :
    ∀ c ∈ ofString initial ++ digits i, IsWord c := by
  intro c hc
  rcases List.mem_append.mp hc with hc | hc
  · exact hinitial c hc
  · exact .inr (isDigit_of_mem_digits c hc)

/-- The part of a statement between its subject and its list. -/
def Middle (middle : Str) : Prop :=
  Apart middle ∧ codePoint 0x7B ∉ middle ∧ mentioned middle = [ofString "k"]

instance (middle : Str) : Decidable (Middle middle) := inferInstanceAs (Decidable (_ ∧ _ ∧ _))

namespace CacheStatements

variable (s : CacheStatements)

theorem unmarked_tenancy : Unmarked s.tenancy := TessariDB.unmarked_tenancy _ _

/-- The script of a statement that takes a list. -/
theorem mentioned_list {before middle : Str} (hbefore : Unmarked before)
    (hbrace : codePoint 0x7B ∉ before) (hmiddle : Middle middle) (list : Str) :
    mentioned (s.tenancy ++
        format (before ++ s.space.text ++ middle ++ (HOLE ++ ofString ";")) list) =
      ofString "k" :: mentioned list := by
  obtain ⟨hapart, hopen, hk⟩ := hmiddle
  have hspace : codePoint 0x7B ∉ s.space.text := fun hmem =>
    absurd (s.space.words _ hmem) (by decide)
  have hfront : codePoint 0x7B ∉ before ++ s.space.text ++ middle := by
    simp only [List.mem_append, not_or]
    exact ⟨⟨hbrace, hspace⟩, hopen⟩
  have hcut : Cut ";" := by decide
  have hend : Unmarked ";" := by decide
  rw [format_hole hfront (by decide), mentioned_unmarked_append s.unmarked_tenancy,
    List.append_assoc, mentioned_unmarked_append (hbefore.append s.space.unmarked),
    mentioned_append hapart, mentioned_append_cut _ hcut, mentioned_unmarked hend,
    List.append_nil, hk]
  rfl

theorem binds_numberedGiven (before middle : Str) (key : Str) (values : List Value)
    {statement : Str} {initial : String}
    (hstatement : statement = before ++ s.space.text ++ middle ++ (HOLE ++ ofString ";"))
    (hbefore : Unmarked before ∧ codePoint 0x7B ∉ before) (hmiddle : Middle middle)
    (hinitial : ∀ c ∈ ofString initial, IsWord c) :
    Binds (s.numberedGiven statement key initial values) := by
  have hparts : ∀ i (hi : i < (values.mapIdx fun i _ =>
      "$" ++ ofString initial ++ digits i).length),
      mentioned (values.mapIdx fun i _ => "$" ++ ofString initial ++ digits i)[i] =
        [ofString initial ++ digits i] := by
    intro i hi
    rw [List.getElem_mapIdx, List.append_assoc]
    exact mentioned_reference (words_numbered hinitial i)
  intro name
  rw [hstatement, numberedGiven, s.mentioned_list hbefore.1 hbefore.2 hmiddle, List.mem_cons,
    mem_mentioned_join hparts, List.length_mapIdx, Dict.mem_keys_foldl_set,
    mem_zipIdx_snd (P := fun i => name = ofString initial ++ digits i)]
  simp

theorem binds_pairedGiven (before middle : Str) (key : Str) (pairs : List (Value × Value))
    {statement : Str} {left right : String}
    (hstatement : statement = before ++ s.space.text ++ middle ++ (HOLE ++ ofString ";"))
    (hbefore : Unmarked before ∧ codePoint 0x7B ∉ before) (hmiddle : Middle middle)
    (hleft : ∀ c ∈ ofString left, IsWord c) (hright : ∀ c ∈ ofString right, IsWord c) :
    Binds (s.pairedGiven statement key left right pairs) := by
  have hparts : ∀ i (hi : i < (pairs.mapIdx fun i _ =>
      "$" ++ ofString left ++ digits i ++ " = $" ++ ofString right ++ digits i).length),
      mentioned (pairs.mapIdx fun i _ =>
        "$" ++ ofString left ++ digits i ++ " = $" ++ ofString right ++ digits i)[i] =
        [ofString left ++ digits i, ofString right ++ digits i] := by
    intro i hi
    have hequals : Unmarked " = " := by decide
    have hcut : Cut " = " := by decide
    have hsplit : ofString "$" ++ ofString left ++ digits i ++ " = $" ++ ofString right ++ digits i =
        (ofString "$" ++ (ofString left ++ digits i)) ++
          (ofString " = " ++ (ofString "$" ++ (ofString right ++ digits i))) := by
      simp only [List.append_assoc]
      rfl
    rw [List.getElem_mapIdx, hsplit, mentioned_append_cut _ (hcut.append (by decide) _),
      mentioned_unmarked_append hequals, mentioned_reference (words_numbered hleft i),
      mentioned_reference (words_numbered hright i)]
    rfl
  intro name
  rw [hstatement, pairedGiven, s.mentioned_list hbefore.1 hbefore.2 hmiddle, List.mem_cons,
    mem_mentioned_join hparts, List.length_mapIdx, Dict.mem_keys_foldl_set₂, mem_zipIdx_snd
      (P := fun i => name = ofString left ++ digits i ∨ name = ofString right ++ digits i)]
  simp

/-- A statement whose texts around the space are known. -/
theorem binds_of_texts {r : Rendered Value} (before after : Str) (names : List Str)
    (hscript : r.script = s.tenancy ++ (before ++ s.space.text ++ after))
    (hkeys : Dict.keys r.parameters = names) (hchecks : Checks before after names) : Binds r :=
  .of_texts s.unmarked_tenancy s.space before after names hscript hkeys hchecks

theorem binds_set (key : Str) (value : Value) {condition : Str} {expected : Option Value}
    (ttl : Option Duration) (hcut : Cut condition)
    (hcondition : mentioned condition = if expected.isSome then [ofString "e"] else []) :
    Binds (s.set key value condition expected ttl) := by
  have hmentioned : ∀ tail : Str, Cut tail → mentioned (s.tenancy ++
      (ofString "SET " ++ s.space.text ++ ofString ":$k = $v" ++ condition ++ tail)) =
        [ofString "k", ofString "v"] ++ (mentioned condition ++ mentioned tail) := by
    intro tail htail
    have hset : Unmarked "SET " := by decide
    have hfirst : mentioned ":$k = $v" = [ofString "k", ofString "v"] := by decide
    rw [mentioned_unmarked_append s.unmarked_tenancy, List.append_assoc, List.append_assoc,
      mentioned_unmarked_append (hset.append s.space.unmarked),
      mentioned_append_cut _ (hcut.append_break htail), mentioned_append_cut _ htail, hfirst]
  have hplain : mentioned ";" = [] := by decide
  have hexpiry : mentioned " EXPIRE $t;" = [ofString "t"] := by decide
  intro name
  cases ttl with
  | none =>
      have hscript : (s.set key value condition expected none).script = s.tenancy ++
          (ofString "SET " ++ s.space.text ++ ofString ":$k = $v" ++ condition ++ ofString ";") := by
        cases expected <;> simp [set, keyed, Rendered.given]
      rw [hscript, hmentioned _ (by decide), hcondition, hplain]
      cases expected <;> simp [set, keyed, Rendered.given, Dict.mem_keys_set] <;> tauto
  | some ttl =>
      have hscript : (s.set key value condition expected (some ttl)).script = s.tenancy ++
          (ofString "SET " ++ s.space.text ++ ofString ":$k = $v" ++ condition ++
            ofString " EXPIRE $t;") := by
        cases expected <;> simp [set, keyed, Rendered.given] <;> rfl
      rw [hscript, hmentioned _ (by decide), hcondition, hexpiry]
      cases expected <;> simp [set, keyed, Rendered.given, Dict.mem_keys_set] <;> tauto

theorem mentioned_keys (clauses : Str) (limit : ℤ) :
    mentioned (s.tenancy ++ ofString "KEYS FROM " ++ s.space.text ++ clauses ++
      ofString " LIMIT " ++ str limit ++ ofString ";") = mentioned clauses := by
  have hhead : Unmarked (s.tenancy ++ ofString "KEYS FROM " ++ s.space.text) :=
    (s.unmarked_tenancy.append (by decide)).append s.space.unmarked
  have hcut : Cut " LIMIT " := by decide
  have htail : Unmarked (ofString " LIMIT " ++ (str limit ++ ofString ";")) :=
    Plain.append (by decide) ((unmarked_str limit).append (by decide))
  rw [List.append_assoc, List.append_assoc, List.append_assoc, mentioned_unmarked_append hhead,
    mentioned_append_cut _ (hcut.append (by decide) _), mentioned_unmarked htail,
    List.append_nil]

theorem binds_keys (before after : Option Str) (limit : ℤ) : Binds (s.keys before after limit) := by
  have hp : mentioned " PREFIX $p" = [ofString "p"] := by decide
  have ha : mentioned " AFTER $a" = [ofString "a"] := by decide
  have hpa : mentioned (ofString " PREFIX $p" ++ ofString " AFTER $a") =
      [ofString "p", ofString "a"] := by decide
  intro name
  rw [keys]
  generalize before.filter (· ≠ []) = given
  cases given with
  | none =>
      cases after with
      | none =>
          have h := s.mentioned_keys [] limit
          rw [List.append_nil] at h
          simp only [Option.elim_none, h]
          rfl
      | some after =>
          have h := s.mentioned_keys " AFTER $a" limit
          simp only [Option.elim_none, Option.elim_some, Rendered.given, h, ha]
          rfl
  | some before =>
      cases after with
      | none =>
          have h := s.mentioned_keys " PREFIX $p" limit
          simp only [Option.elim_none, Option.elim_some, Rendered.given, h, hp]
          rfl
      | some after =>
          have h := s.mentioned_keys (ofString " PREFIX $p" ++ ofString " AFTER $a") limit
          rw [← List.append_assoc _ (ofString " PREFIX $p"), hpa] at h
          simp only [Option.elim_some, Rendered.given, h]
          rfl

theorem binds_scoresOf {function : Str} (hfunction : Unmarked function) (key member : Str) :
    Binds (s.scoresOf function key member) := by
  have hbefore : Unmarked (ofString "RETURN scores::" ++ function ++ ofString "(GET ") :=
    (Plain.append (by decide) hfunction).append (by decide)
  have hafter : mentioned ":$k, $m);" = [ofString "k", ofString "m"] := by decide
  have hscript : (s.scoresOf function key member).script = s.tenancy ++
      ((ofString "RETURN scores::" ++ function ++ ofString "(GET ") ++ (s.space.text ++
        ofString ":$k, $m);")) := by
    rw [← List.append_assoc _ s.space.text]
    rfl
  intro name
  rw [hscript, mentioned_unmarked_append s.unmarked_tenancy, mentioned_unmarked_append hbefore,
    mentioned_unmarked_append s.space.unmarked, hafter]
  rfl

theorem binds_listPush (key : Str) (values : List Value) (front : Bool) :
    Binds (s.listPush key values front) := by
  refine s.binds_numberedGiven "LIST PUSH " (ofString ":$k " ++ listEnd front ++ ofString " ") key
    values ?_ (by decide) ?_ (words_of_all (by decide))
  · simp only [List.append_assoc]
    rfl
  · cases front <;> decide

theorem binds_members {verb : Str} (hverb : Unmarked verb ∧ codePoint 0x7B ∉ verb) (key : Str)
    (items : List Value) : Binds (s.members verb key items) := by
  refine s.binds_numberedGiven (ofString "MEMBERS " ++ verb ++ ofString " ") ":$k " key items ?_
    ⟨?_, ?_⟩ (by decide) (words_of_all (by decide))
  · simp only [List.append_assoc]
    rfl
  · exact (Plain.append (by decide) hverb.1).append (by decide)
  · simp only [List.mem_append, not_or]
    exact ⟨⟨by decide, hverb.2⟩, by decide⟩

theorem binds_listPop (key : Str) (front : Bool) (count : Option ℤ) :
    Binds (s.listPop key front count) := by
  cases count with
  | none =>
      refine s.binds_of_texts "LIST POP " (":$k " ++ listEnd front ++ ";") ["k"] ?_ rfl ?_
      · simp only [listPop, keyed, List.append_assoc]
      · cases front <;> decide
  | some count =>
      refine s.binds_of_texts "LIST POP " (":$k " ++ listEnd front ++ " LIMIT $n;") ["k", "n"] ?_
        rfl ?_
      · simp only [listPop, keyed, Rendered.given, List.append_assoc]
      · cases front <;> decide

theorem binds_listRemove (key : Str) (value : Value) (count : Option ℤ) :
    Binds (s.listRemove key value count) := by
  cases count with
  | none =>
      exact s.binds_of_texts "LIST REMOVE " ":$k $v;" ["k", "v"]
        (by simp [listRemove, keyed, Rendered.given]; rfl) rfl (by decide)
  | some count =>
      exact s.binds_of_texts "LIST REMOVE " ":$k $v LIMIT $n;" ["k", "v", "n"]
        (by simp [listRemove, keyed, Rendered.given]; rfl) rfl (by decide)

theorem binds_scoresBetween (key : Str) (low high : Option Double) :
    Binds (s.scoresBetween key low high) := by
  cases low <;> cases high
  · exact s.binds_of_texts "RETURN scores::between(GET " ":$k, NONE, NONE);" ["k"]
      (by simp [scoresBetween, keyed]; rfl) rfl (by decide)
  · exact s.binds_of_texts "RETURN scores::between(GET " ":$k, NONE, $hi);" ["k", "hi"]
      (by simp [scoresBetween, keyed, Rendered.given]; rfl) rfl (by decide)
  · exact s.binds_of_texts "RETURN scores::between(GET " ":$k, $lo, NONE);" ["k", "lo"]
      (by simp [scoresBetween, keyed, Rendered.given]; rfl) rfl (by decide)
  · exact s.binds_of_texts "RETURN scores::between(GET " ":$k, $lo, $hi);" ["k", "lo", "hi"]
      (by simp [scoresBetween, keyed, Rendered.given]; rfl) rfl (by decide)

end CacheStatements

theorem CacheCall.binds (s : CacheStatements) {c : CacheCall} (hworded : c.Worded) :
    Binds (c.render s) := by
  cases c with
  | get key => exact s.binds_of_texts "GET " ":$k;" ["k"] rfl rfl (by decide)
  | set key value condition expected lasting => exact s.binds_set key value lasting hworded.1 hworded.2
  | delete key =>
      exact s.binds_of_texts "DELETE " ":$k RETURN BEFORE;" ["k"] rfl rfl (by decide)
  | incr key n =>
      exact s.binds_of_texts "INCR " ":$k BY $n;" ["k", "n"] rfl rfl (by decide)
  | ttl key => exact s.binds_of_texts "RETURN TTL " ":$k;" ["k"] rfl rfl (by decide)
  | expire key lasting =>
      exact s.binds_of_texts "EXPIRE " ":$k $t;" ["k", "t"] rfl rfl (by decide)
  | persist key => exact s.binds_of_texts "PERSIST " ":$k;" ["k"] rfl rfl (by decide)
  | keys before after limit => exact s.binds_keys before after limit
  | lock key holder lasting =>
      exact s.binds_of_texts "SET " ":$k = $h IF ABSENT EXPIRE $t;" ["k", "h", "t"] rfl rfl
        (by decide)
  | extend key holder lasting =>
      exact s.binds_of_texts "SET " ":$k = $h IF = $h EXPIRE $t;" ["k", "h", "t"] rfl rfl
        (by decide)
  | release key holder =>
      exact s.binds_of_texts "SET " ":$k = 'free' IF = $h EXPIRE 1ms;" ["k", "h"] rfl rfl
        (by decide)
  | listPush key values front => exact s.binds_listPush key values front
  | listPop key front count => exact s.binds_listPop key front count
  | listRange key start count =>
      exact s.binds_of_texts "RETURN array::slice(GET " ":$k, $i, $n);" ["k", "i", "n"] rfl rfl
        (by decide)
  | listAt key index =>
      exact s.binds_of_texts "RETURN array::at(GET " ":$k, $i);" ["k", "i"] rfl rfl
        (by decide)
  | listLen key =>
      exact s.binds_of_texts "RETURN array::len(GET " ":$k);" ["k"] rfl rfl (by decide)
  | listRemove key value count => exact s.binds_listRemove key value count
  | listTrim key start stop =>
      exact s.binds_of_texts "LIST TRIM " ":$k FROM $i TO $j;" ["k", "i", "j"] rfl rfl
        (by decide)
  | hashSet key fields =>
      exact s.binds_pairedGiven "HASH SET " ":$k " key _ (by simp only [List.append_assoc]; rfl)
        (by decide) (by decide) (words_of_all (by decide))
        (words_of_all (by decide))
  | hashGet key field =>
      exact s.binds_of_texts "RETURN object::get(GET " ":$k, $f);" ["k", "f"] rfl rfl
        (by decide)
  | hashRemove key fields =>
      exact s.binds_numberedGiven "HASH REMOVE " ":$k " key _ (by simp only [List.append_assoc]; rfl)
        (by decide) (by decide) (words_of_all (by decide))
  | hashIncr key field n =>
      exact s.binds_of_texts "HASH INCR " ":$k $f BY $n;" ["k", "f", "n"] rfl rfl
        (by decide)
  | hashLen key =>
      exact s.binds_of_texts "RETURN object::len(GET " ":$k);" ["k"] rfl rfl (by decide)
  | members verb key items => exact s.binds_members ⟨hworded.1, hworded.2.1⟩ key items
  | membersHas key member =>
      exact s.binds_of_texts "RETURN $v IN GET " ":$k;" ["k", "v"] rfl rfl (by decide)
  | membersLen key =>
      exact s.binds_of_texts "RETURN set::len(GET " ":$k);" ["k"] rfl rfl (by decide)
  | scoresAdd key scores =>
      exact s.binds_pairedGiven "SCORES ADD " ":$k " key _ (by simp only [List.append_assoc]; rfl)
        (by decide) (by decide) (words_of_all (by decide))
        (words_of_all (by decide))
  | scoresIncr key member x =>
      exact s.binds_of_texts "SCORES INCR " ":$k $m BY $c;" ["k", "m", "c"] rfl rfl
        (by decide)
  | scoresRemove key items =>
      exact s.binds_numberedGiven "SCORES REMOVE " ":$k " key _
        (by simp only [List.append_assoc]; rfl) (by decide) (by decide)
        (words_of_all (by decide))
  | scoresOf function key member => exact s.binds_scoresOf hworded key member
  | scoresRange key start stop =>
      exact s.binds_of_texts "RETURN scores::range(GET " ":$k, $i, $j);" ["k", "i", "j"] rfl rfl
        (by decide)
  | scoresBetween key low high => exact s.binds_scoresBetween key low high

/-! ### A cache's script without the data -/

namespace CacheStatements

variable (s : CacheStatements)

theorem script_numberedGiven (statement key : Str) (initial : String) (values : List Value) :
    (s.numberedGiven statement key initial values).script = s.tenancy ++ format statement
      (join ", " ((List.range values.length).map fun i => "$" ++ ofString initial ++ digits i)) := by
  rw [numberedGiven, mapIdx_const fun i => "$" ++ ofString initial ++ digits i]

theorem script_pairedGiven (statement key : Str) (left right : String)
    (pairs : List (Value × Value)) :
    (s.pairedGiven statement key left right pairs).script = s.tenancy ++ format statement
      (join ", " ((List.range pairs.length).map fun i =>
        "$" ++ ofString left ++ digits i ++ " = $" ++ ofString right ++ digits i)) := by
  rw [pairedGiven, mapIdx_const fun i =>
    "$" ++ ofString left ++ digits i ++ " = $" ++ ofString right ++ digits i]

end CacheStatements

/-- The script depends on what is left of a call without its data. -/
theorem CacheCall.script_blank (s : CacheStatements) (c : CacheCall) :
    (c.blank.render s).script = (c.render s).script := by
  cases c with
  | set key value condition expected lasting => cases expected <;> cases lasting <;> rfl
  | keys before after limit =>
      simp only [blank, render, CacheStatements.keys]
      generalize before.filter (· ≠ []) = given
      cases given <;> cases after <;> rfl
  | listPop key front count => cases count <;> rfl
  | listRemove key value count => cases count <;> rfl
  | scoresBetween key low high => cases low <;> cases high <;> rfl
  | listPush key values front =>
      simp only [blank, render, CacheStatements.listPush, CacheStatements.script_numberedGiven,
        List.length_map]
  | hashSet key fields =>
      simp only [blank, render, CacheStatements.hashSet, CacheStatements.script_pairedGiven,
        List.length_map]
  | hashRemove key fields =>
      simp only [blank, render, CacheStatements.hashRemove, CacheStatements.script_numberedGiven,
        List.length_map]
  | members verb key items =>
      simp only [blank, render, CacheStatements.members, CacheStatements.script_numberedGiven,
        List.length_map]
  | scoresAdd key scores =>
      simp only [blank, render, CacheStatements.scoresAdd, CacheStatements.script_pairedGiven,
        List.length_map]
  | scoresRemove key items =>
      simp only [blank, render, CacheStatements.scoresRemove, CacheStatements.script_numberedGiven,
        List.length_map]
  | get _ | delete _ | incr _ _ | ttl _ | expire _ _ | persist _ | lock _ _ _ | extend _ _ _
  | release _ _ | listRange _ _ _ | listAt _ _ | listLen _ | listTrim _ _ _ | hashGet _ _
  | hashIncr _ _ _ | hashLen _ | membersHas _ _ | membersLen _ | scoresIncr _ _ _
  | scoresOf _ _ _ | scoresRange _ _ _ => rfl

/-- Every script of a cache begins with its tenancy. -/
theorem CacheCall.tenancy_prefix (s : CacheStatements) (c : CacheCall) :
    s.tenancy <+: (c.render s).script := by
  cases c with
  | set key value condition expected lasting =>
      cases expected <;> cases lasting <;> exact ⟨_, rfl⟩
  | keys before after limit =>
      simp only [render, CacheStatements.keys]
      generalize before.filter (· ≠ []) = given
      cases given <;> cases after <;>
        simp only [Option.elim_none, Option.elim_some, Rendered.given, List.append_assoc] <;>
        exact ⟨_, rfl⟩
  | listPop key front count => cases count <;> exact ⟨_, rfl⟩
  | listRemove key value count => cases count <;> exact ⟨_, rfl⟩
  | scoresBetween key low high => cases low <;> cases high <;> exact ⟨_, rfl⟩
  | get _ | delete _ | incr _ _ | ttl _ | expire _ _ | persist _ | lock _ _ _ | extend _ _ _
  | release _ _ | listPush _ _ _ | listRange _ _ _ | listAt _ _ | listLen _ | listTrim _ _ _
  | hashSet _ _ | hashGet _ _ | hashRemove _ _ | hashIncr _ _ _ | hashLen _ | members _ _ _
  | membersHas _ _ | membersLen _ | scoresAdd _ _ | scoresIncr _ _ _ | scoresRemove _ _
  | scoresOf _ _ _ | scoresRange _ _ _ => exact ⟨_, rfl⟩

end TessariDB
