import TessariDB.CacheRenderers

/-!
# What a Handle's Statement Binds

The calls of the consumer and of the vault as data, beside those of the cache, and a call of any
of the four handles with the names the handle was given (`HandleCall`).

## Main results

* `HandleCall.binds`: every statement binds what it mentions.
* `HandleCall.script_blank`: the script is a function of the call without its data.
* `statement_binds_what_it_mentions`: both, with the tenancy every script begins with.
-/

namespace TessariDB

open ByteCodec Utf8 Text References

/-! ### The consumer -/

/-- A call of a consumer's statements. -/
inductive ConsumerCall where
  | read (limit : ℤ)
  | ack (positions : List ℤ)
  | nack (positions : List ℤ) (delay : Option Double)

namespace ConsumerCall

def render (millis : Double → Except Rejected ℤ) (s : ConsumerStatements) :
    ConsumerCall → Except Rejected (Rendered Value)
  | .read limit => .ok ⟨s.read limit, []⟩
  | .ack positions => .ok (s.ack positions)
  | .nack positions delay => s.nack millis positions delay

/-- The call without its caller's data. -/
def blank : ConsumerCall → ConsumerCall
  | .read limit => .read limit
  | .ack positions => .ack (positions.map fun _ => 0)
  | .nack positions delay => .nack (positions.map fun _ => 0) delay

end ConsumerCall

namespace ConsumerStatements

variable (s : ConsumerStatements)

theorem unmarked_read (limit : ℤ) : Unmarked (s.read limit) := by
  have hread : Unmarked "READ FROM " := by decide
  have hfor : Unmarked " FOR CONSUMER '" := by decide
  have hlimit : Unmarked "' LIMIT " := by decide
  have hend : Unmarked ";" := by decide
  exact ((((((unmarked_tenancy _ _).append hread).append s.topic.unmarked).append hfor).append
    s.group.unmarked).append hlimit |>.append (unmarked_str limit)).append hend

theorem binds_settle {verb tail : Str} (hverb : Unmarked verb) (htail : Unmarked tail)
    (hcut : Cut tail) (positions : List ℤ) : Binds (s.settle verb positions tail) := by
  have hspace : Unmarked " " := by decide
  have hfor : Unmarked " FOR CONSUMER '" := by decide
  have hat : Unmarked "' AT " := by decide
  have hend : Unmarked ";" := by decide
  have hclose : Cut ";" := by decide
  have hhead : Unmarked (s.tenancy ++ verb ++ " " ++ s.topic.text ++ " FOR CONSUMER '" ++
      s.group.text ++ "' AT ") :=
    ((((((unmarked_tenancy _ _).append hverb).append hspace).append s.topic.unmarked).append
      hfor).append s.group.unmarked).append hat
  have hp : ∀ c ∈ ofString "p", IsWord c := words_of_all (by decide)
  have hparts : ∀ i (hi : i < (((List.range positions.length).map fun index =>
      ofString "p" ++ digits index).map fun name => ofString "$" ++ name).length),
      mentioned (((List.range positions.length).map fun index =>
        ofString "p" ++ digits index).map fun name => ofString "$" ++ name)[i] =
        [ofString "p" ++ digits i] := by
    intro i hi
    rw [List.getElem_map, List.getElem_map, List.getElem_range]
    exact mentioned_reference (words_numbered hp i)
  have hkeys : ∀ name, name ∈ Dict.keys (s.settle verb positions tail).parameters ↔
      ∃ i < positions.length, name = ofString "p" ++ digits i := by
    intro name
    have hfirst : Dict.keys (((List.range positions.length).map fun index =>
        ofString "p" ++ digits index).zip (positions.map Value.integer)) =
          (List.range positions.length).map fun index => ofString "p" ++ digits index :=
      List.map_fst_zip (by simp)
    have hmem := Dict.mem_keys_foldl_set Prod.fst Prod.snd
      (((List.range positions.length).map fun index =>
        ofString "p" ++ digits index).zip (positions.map Value.integer)) [] name
    rw [settle, Dict.ofPairs, hmem]
    have hexists := List.mem_map (f := Prod.fst) (b := name) (l :=
      ((List.range positions.length).map fun index =>
        ofString "p" ++ digits index).zip (positions.map Value.integer))
    rw [← Dict.keys, hfirst] at hexists
    simp only [Dict.keys_nil, List.not_mem_nil, false_or, eq_comm (a := name), ← hexists]
    simp
  intro name
  rw [hkeys, settle, List.append_assoc, List.append_assoc, mentioned_unmarked_append hhead,
    mentioned_append_cut _ (hcut.append_break hclose), mentioned_unmarked (htail.append hend),
    List.append_nil, mem_mentioned_join hparts]
  simp

end ConsumerStatements

theorem ConsumerCall.binds (millis : Double → Except Rejected ℤ) (s : ConsumerStatements)
    {c : ConsumerCall} {r : Rendered Value} (h : c.render millis s = .ok r) : Binds r := by
  cases c with
  | read limit =>
      cases h
      intro name
      rw [mentioned_unmarked (s.unmarked_read limit)]
      rfl
  | ack positions =>
      cases h
      exact s.binds_settle (by decide) List.not_mem_nil (by decide) positions
  | nack positions delay =>
      obtain ⟨n, -, h⟩ := Sequences.bind_eq_ok.mp h
      cases h
      split
      · have hdelay : Unmarked " DELAY " := by decide
        have hcut : Cut " DELAY " := by decide
        refine s.binds_settle (by decide) ?_ ?_ positions
        · exact (hdelay.append (unmarked_str n)).append (by decide)
        · rw [List.append_assoc]
          exact hcut.append (by decide) _
      · exact s.binds_settle (by decide) List.not_mem_nil (by decide) positions

theorem ConsumerStatements.script_settle (s : ConsumerStatements) (verb tail : Str)
    (positions : List ℤ) : (s.settle verb (positions.map fun _ => 0) tail).script =
      (s.settle verb positions tail).script := by
  rw [settle, settle, List.length_map]

theorem ConsumerCall.script_blank (millis : Double → Except Rejected ℤ) (s : ConsumerStatements)
    (c : ConsumerCall) : (c.blank.render millis s).map Rendered.script =
      (c.render millis s).map Rendered.script := by
  cases c with
  | read limit => rfl
  | ack positions => exact congrArg Except.ok (s.script_settle _ _ positions)
  | nack positions delay =>
      simp only [blank, render, ConsumerStatements.nack, Sequences.map_bind]
      cases millisOf millis delay with
      | error e => simp only [Bind.bind, Except.bind]
      | ok n => exact congrArg Except.ok (s.script_settle _ _ positions)

theorem ConsumerCall.tenancy_prefix (millis : Double → Except Rejected ℤ) (s : ConsumerStatements)
    {c : ConsumerCall} {r : Rendered Value} (h : c.render millis s = .ok r) :
    s.tenancy <+: r.script := by
  cases c with
  | read limit =>
      cases h
      simp only [ConsumerStatements.read, List.append_assoc]
      exact List.prefix_append _ _
  | ack positions =>
      cases h
      simp only [ConsumerStatements.ack, ConsumerStatements.settle, List.append_assoc]
      exact List.prefix_append _ _
  | nack positions delay =>
      obtain ⟨n, -, h⟩ := Sequences.bind_eq_ok.mp h
      cases h
      simp only [ConsumerStatements.settle, List.append_assoc]
      exact List.prefix_append _ _

/-! ### The vault -/

/-- A call of a vault's statements. -/
inductive VaultCall where
  | list (after : Option Value) (limit : Option ℤ)
  | reveal (record : Value) (fields : List Str)
  | write (record : Value) (fields : List (Str × Value))
  | recipients (record : Value)
  | addRecipient (record : Value) (name : Str) (key : Bytes)
  | removeRecipient (record : Value) (name : Str)

namespace VaultCall

def render (s : VaultStatements) : VaultCall → Except Rejected (Rendered Value)
  | .list after limit => s.list after limit
  | .reveal record fields => s.reveal record fields
  | .write record fields => s.write record fields
  | .recipients record => .ok (s.recipients record)
  | .addRecipient record name key => .ok (s.addRecipient record name key)
  | .removeRecipient record name => .ok (s.removeRecipient record name)

/-- The call without its caller's data; the names of fields are no data. -/
def blank : VaultCall → VaultCall
  | .list after limit => .list (after.map fun _ => .noneValue) limit
  | .reveal _ fields => .reveal .noneValue fields
  | .write _ fields => .write .noneValue (Dict.mapValues (fun _ => .noneValue) fields)
  | .recipients _ => .recipients .noneValue
  | .addRecipient _ _ _ => .addRecipient .noneValue [] []
  | .removeRecipient _ _ => .removeRecipient .noneValue []

end VaultCall

namespace VaultStatements

variable (s : VaultStatements)

theorem unmarked_tenancy : Unmarked s.tenancy := TessariDB.unmarked_tenancy _ _

/-- A listing, by its clauses. -/
def listing (clauses : Str) : Str :=
  s.tenancy ++ "INFO FOR VAULT " ++ s.vault.text ++ " RECORDS" ++ clauses ++ ";"

/-- The clauses of a listing. -/
def clausesOf (after : Option Value) (limit : Option ℤ) : Str :=
  after.elim [] (fun _ => ofString " AFTER " ++ s.vault.text ++ ofString ":$after") ++
    limit.elim [] fun limit => ofString " LIMIT " ++ str limit

theorem list_of_ok {after : Option Value} {limit : Option ℤ} {r : Rendered Value}
    (h : s.list after limit = .ok r) :
    r = ⟨s.listing (s.clausesOf after limit), after.elim [] fun after => [("after", after)]⟩ := by
  cases limit with
  | none =>
      cases after <;> cases h <;> simp [listing, clausesOf]
  | some limit =>
      by_cases hlimit : 1 ≤ limit ∧ limit ≤ MOST_IDS
      · cases after <;> simp only [list, Option.elim, if_pos hlimit] at h <;> cases h <;>
          simp [listing, clausesOf]
      · cases after <;> simp only [list, Option.elim, if_neg hlimit] at h <;> cases h

theorem binds_list {after : Option Value} {limit : Option ℤ} {r : Rendered Value}
    (h : s.list after limit = .ok r) : Binds r := by
  have hinfo : Unmarked "INFO FOR VAULT " := by decide
  have hrecords : Unmarked " RECORDS" := by decide
  have hcut : Cut ";" := by decide
  have hend : Unmarked ";" := by decide
  have hhead : Unmarked (s.tenancy ++ "INFO FOR VAULT " ++ s.vault.text ++ " RECORDS") :=
    ((s.unmarked_tenancy.append hinfo).append s.vault.unmarked).append hrecords
  have htail : Unmarked (limit.elim [] fun limit => ofString " LIMIT " ++ str limit) := by
    cases limit with
    | none => exact List.not_mem_nil
    | some limit => exact Plain.append (by decide) (unmarked_str limit)
  have hbreak : Cut (limit.elim [] fun limit => ofString " LIMIT " ++ str limit) := by
    cases limit with
    | none => decide
    | some limit =>
        have hlimit : Cut " LIMIT " := by decide
        exact hlimit.append (by decide) _
  obtain rfl := s.list_of_ok h
  intro name
  rw [listing, List.append_assoc _ _ (ofString ";"), mentioned_unmarked_append hhead,
    mentioned_append_cut _ hcut, mentioned_unmarked hend, List.append_nil, clausesOf,
    mentioned_append_cut _ hbreak, mentioned_unmarked htail, List.append_nil]
  cases after with
  | none => rfl
  | some after =>
      have hafter : Unmarked (ofString " AFTER " ++ s.vault.text) :=
        Plain.append (by decide) s.vault.unmarked
      have hmentioned : mentioned ":$after" = [ofString "after"] := by decide
      rw [Option.elim_some, mentioned_unmarked_append hafter, hmentioned]
      rfl

theorem binds_reveal {record : Value} {fields : List Str} {r : Rendered Value}
    (h : s.reveal record fields = .ok r) : Binds r := by
  obtain ⟨checked, hchecked, h⟩ := Sequences.bind_eq_ok.mp h
  cases h
  have hnames := checkFieldNames_ok_iff.mp ⟨_, hchecked⟩
  have hquote : Unmarked "'" := by decide
  have hwhich : Unmarked (which (fields.insertionSort (· ≤ ·))) := by
    rw [which]
    split
    · decide
    · refine unmarked_join (by decide) fun part hpart => ?_
      obtain ⟨name, hname, rfl⟩ := List.mem_map.mp hpart
      have hmem := (List.perm_insertionSort (· ≤ ·) fields).mem_iff.mp hname
      exact (hquote.append (Name.unmarked ⟨name, hnames name hmem⟩)).append hquote
  have hreveal : Unmarked "REVEAL " := by decide
  have hfrom : Unmarked " FROM " := by decide
  have hhead := (((s.unmarked_tenancy.append hreveal).append hwhich).append hfrom).append
    s.vault.unmarked
  have hid : mentioned ":$id;" = [ofString "id"] := by decide
  intro name
  simp only [mentioned_unmarked_append hhead, hid]
  rfl

theorem binds_write {record : Value} {fields : List (Str × Value)} {r : Rendered Value}
    (h : s.write record fields = .ok r) : Binds r := by
  rw [write] at h
  split at h
  · cases h
  · obtain ⟨checked, hchecked, h⟩ := Sequences.bind_eq_ok.mp h
    cases h
    have hnames := checkFieldNames_ok_iff.mp ⟨_, hchecked⟩
    have hf : ∀ c ∈ ofString "f", IsWord c := words_of_all (by decide)
    have hparts : ∀ i (hi : i < ((Dict.sorted fields).mapIdx fun index item =>
        "'" ++ item.1 ++ "': $f" ++ digits index).length),
        mentioned ((Dict.sorted fields).mapIdx fun index item =>
          "'" ++ item.1 ++ "': $f" ++ digits index)[i] = [ofString "f" ++ digits i] := by
      intro i hi
      rw [List.length_mapIdx] at hi
      have hname : IsName (Dict.sorted fields)[i].1 :=
        hnames _ (List.mem_map_of_mem (Dict.mem_sorted.mp (List.getElem_mem hi)))
      have hbefore : Unmarked (ofString "'" ++ (Dict.sorted fields)[i].1 ++ ofString "': ") :=
        (Plain.append (by decide) (Name.unmarked ⟨_, hname⟩)).append (by decide)
      have hsplit : ofString "'" ++ (Dict.sorted fields)[i].1 ++ ofString "': $f" ++ digits i =
          (ofString "'" ++ (Dict.sorted fields)[i].1 ++ ofString "': ") ++
            (ofString "$" ++ (ofString "f" ++ digits i)) := by
        simp only [List.append_assoc]
        rfl
      rw [List.getElem_mapIdx, hsplit, mentioned_unmarked_append hbefore,
        mentioned_reference (words_numbered hf i)]
    have hupsert : Unmarked (s.tenancy ++ "UPSERT " ++ s.vault.text) :=
      (s.unmarked_tenancy.append (by decide)).append s.vault.unmarked
    have hmerge : Apart ":$id MERGE \x7b " := by decide
    have hid : mentioned ":$id MERGE \x7b " = [ofString "id"] := by decide
    have hcut : Cut " \x7d;" := by decide
    have hend : Unmarked " \x7d;" := by decide
    intro name
    rw [List.append_assoc, List.append_assoc, mentioned_unmarked_append hupsert,
      mentioned_append hmerge, mentioned_append_cut _ hcut, mentioned_unmarked hend,
      List.append_nil, hid, List.singleton_append, List.mem_cons, mem_mentioned_join hparts,
      List.length_mapIdx, Dict.mem_keys_foldl_set,
      mem_zipIdx_snd (P := fun i => name = ofString "f" ++ digits i)]
    simp

end VaultStatements

namespace VaultCall

variable (s : VaultStatements)

theorem binds {c : VaultCall} {r : Rendered Value} (h : c.render s = .ok r) : Binds r := by
  cases c with
  | list after limit => exact s.binds_list h
  | reveal record fields => exact s.binds_reveal h
  | write record fields => exact s.binds_write h
  | recipients record =>
      cases h
      exact .of_texts s.unmarked_tenancy s.vault "INFO FOR RECIPIENTS OF " ":$id;" ["id"]
        (by simp only [VaultStatements.recipients, List.append_assoc]) rfl (by decide)
  | addRecipient record name key =>
      cases h
      exact .of_texts s.unmarked_tenancy s.vault "ADD RECIPIENT $name TO " ":$id KEY $key;"
        ["id", "name", "key"] (by simp only [VaultStatements.addRecipient, List.append_assoc]) rfl
        (by decide)
  | removeRecipient record name =>
      cases h
      exact .of_texts s.unmarked_tenancy s.vault "REMOVE RECIPIENT $name FROM " ":$id;"
        ["id", "name"] (by simp only [VaultStatements.removeRecipient, List.append_assoc]) rfl
        (by decide)

theorem tenancy_prefix {c : VaultCall} {r : Rendered Value} (h : c.render s = .ok r) :
    s.tenancy <+: r.script := by
  cases c with
  | list after limit =>
      rw [s.list_of_ok h]
      simp only [VaultStatements.listing, List.append_assoc]
      exact List.prefix_append _ _
  | reveal record fields =>
      obtain ⟨_, -, h⟩ := Sequences.bind_eq_ok.mp h
      cases h
      simp only [List.append_assoc]
      exact List.prefix_append _ _
  | write record fields =>
      rw [render, VaultStatements.write] at h
      split at h
      · cases h
      · obtain ⟨_, -, h⟩ := Sequences.bind_eq_ok.mp h
        cases h
        simp only [List.append_assoc]
        exact List.prefix_append _ _
  | recipients _ | addRecipient _ _ _ | removeRecipient _ _ =>
      cases h
      simp only [VaultStatements.recipients, VaultStatements.addRecipient,
        VaultStatements.removeRecipient, List.append_assoc]
      exact List.prefix_append _ _

theorem script_blank (c : VaultCall) :
    (c.blank.render s).map Rendered.script = (c.render s).map Rendered.script := by
  cases c with
  | list after limit =>
      cases limit with
      | none => cases after <;> rfl
      | some limit =>
          by_cases hlimit : 1 ≤ limit ∧ limit ≤ MOST_IDS
          · simp only [blank, render, VaultStatements.list, if_pos hlimit]
            cases after <;> rfl
          · simp only [blank, render, VaultStatements.list, if_neg hlimit]
            cases after <;> rfl
  | reveal record fields =>
      simp only [blank, render, VaultStatements.reveal, Sequences.map_bind]
      rfl
  | write record fields =>
      have hnil : Dict.mapValues (fun _ => Value.noneValue) fields = [] ↔ fields = [] :=
        List.map_eq_nil_iff
      have hpairs : (Dict.mapValues (fun _ => Value.noneValue) (Dict.sorted fields)).mapIdx
          (fun index item => "'" ++ item.1 ++ "': $f" ++ digits index) =
            (Dict.sorted fields).mapIdx
              fun index item => "'" ++ item.1 ++ "': $f" ++ digits index := by
        refine List.ext_getElem (by simp [Dict.mapValues]) fun i hi hi' => ?_
        simp [Dict.mapValues]
      simp only [blank, render, VaultStatements.write, Dict.keys_mapValues, Dict.sorted_mapValues,
        hpairs, hnil]
      split
      · rfl
      · cases checkFieldNames (Dict.keys fields) <;> rfl
  | recipients _ => rfl
  | addRecipient _ _ _ => rfl
  | removeRecipient _ _ => rfl

end VaultCall

/-! ### The four handles -/

/-- A call of one of the handles, with the names the handle was given. -/
inductive HandleCall where
  | cache (inNamespace inDatabase space : Str) (call : CacheCall)
  | consumer (inNamespace inDatabase topic group : Str) (call : ConsumerCall)
  | vault (inNamespace inDatabase vault : Str) (call : VaultCall)
  | audit (inNamespace inDatabase : Str) (by_ : Option Str)

namespace HandleCall

/-- Building the handle and rendering the statement. -/
def render (millis : Double → Except Rejected ℤ) : HandleCall → Except Rejected (Rendered Value)
  | .cache inNamespace inDatabase space call => do
      let s ← CacheStatements.new inNamespace inDatabase space
      return call.render s
  | .consumer inNamespace inDatabase topic group call => do
      let s ← ConsumerStatements.new inNamespace inDatabase topic group
      call.render millis s
  | .vault inNamespace inDatabase name call => do
      let s ← VaultStatements.new inNamespace inDatabase name
      call.render s
  | .audit inNamespace inDatabase by_ => auditStatement inNamespace inDatabase by_

/-- The words a call writes into the script mention what the call binds for them. -/
def Worded : HandleCall → Prop
  | .cache _ _ _ call => call.Worded
  | _ => True

/-- The call without its caller's data. -/
def blank : HandleCall → HandleCall
  | .cache inNamespace inDatabase space call => .cache inNamespace inDatabase space call.blank
  | .consumer inNamespace inDatabase topic group call =>
      .consumer inNamespace inDatabase topic group call.blank
  | .vault inNamespace inDatabase name call => .vault inNamespace inDatabase name call.blank
  | .audit inNamespace inDatabase by_ => .audit inNamespace inDatabase by_

/-- The `USE` of the names a call's handle was given. -/
def use : HandleCall → Str
  | .cache inNamespace inDatabase _ _ | .consumer inNamespace inDatabase _ _ _
  | .vault inNamespace inDatabase _ _ | .audit inNamespace inDatabase _ =>
      "USE NAMESPACE " ++ inNamespace ++ "; USE DATABASE " ++ inDatabase ++ "; "

end HandleCall

theorem text_of_checkName {what : String} {name : Str} {checked : Name}
    (h : checkName what name = .ok checked) : checked.text = name := by
  rw [checkName] at h
  split at h
  · cases h
    rfl
  · cases h

theorem text_of_patternName {what : String} {name : Str} {checked : Name}
    (h : patternName what name = .ok checked) : checked.text = name := by
  rw [patternName] at h
  split at h
  · cases h
    rfl
  · cases h

theorem texts_of_checkedTenancy {inNamespace inDatabase : Str} {ns db : Name}
    (h : checkedTenancy inNamespace inDatabase = .ok (ns, db)) :
    ns.text = inNamespace ∧ db.text = inDatabase := by
  obtain ⟨_, hns, h⟩ := Sequences.bind_eq_ok.mp h
  obtain ⟨_, hdb, h⟩ := Sequences.bind_eq_ok.mp h
  cases h
  exact ⟨text_of_checkName hns, text_of_checkName hdb⟩

theorem HandleCall.binds (millis : Double → Except Rejected ℤ) {c : HandleCall} (hworded : c.Worded)
    {r : Rendered Value} (h : c.render millis = .ok r) : Binds r := by
  cases c with
  | cache inNamespace inDatabase space call =>
      obtain ⟨s, -, h⟩ := Sequences.bind_eq_ok.mp h
      cases h
      exact CacheCall.binds s hworded
  | consumer inNamespace inDatabase topic group call =>
      obtain ⟨s, -, h⟩ := Sequences.bind_eq_ok.mp h
      exact ConsumerCall.binds millis s h
  | vault inNamespace inDatabase vault call =>
      obtain ⟨s, -, h⟩ := Sequences.bind_eq_ok.mp h
      exact VaultCall.binds s h
  | audit inNamespace inDatabase by_ =>
      obtain ⟨⟨ns, db⟩, -, h⟩ := Sequences.bind_eq_ok.mp h
      have hplain : ∀ tail : Str, Unmarked tail →
          Binds ⟨tenancy ns db ++ tail, []⟩ := fun tail htail name => by
        rw [mentioned_unmarked ((unmarked_tenancy ns db).append htail)]
        rfl
      cases by_ with
      | none =>
          cases h
          exact hplain _ (by decide)
      | some by_ =>
          obtain ⟨actor, -, h⟩ := Sequences.bind_eq_ok.mp h
          cases h
          simp only [List.append_assoc]
          refine hplain _ (Plain.append (by decide) (actor.unmarked.append ?_))
          decide

theorem HandleCall.use_prefix (millis : Double → Except Rejected ℤ) {c : HandleCall}
    {r : Rendered Value} (h : c.render millis = .ok r) : c.use <+: r.script := by
  cases c with
  | cache inNamespace inDatabase space call =>
      obtain ⟨s, hs, h⟩ := Sequences.bind_eq_ok.mp h
      obtain ⟨ns, hns, hs⟩ := Sequences.bind_eq_ok.mp hs
      obtain ⟨db, hdb, hs⟩ := Sequences.bind_eq_ok.mp hs
      obtain ⟨subject, -, hs⟩ := Sequences.bind_eq_ok.mp hs
      cases hs
      cases h
      rw [use, ← text_of_patternName hns, ← text_of_patternName hdb]
      exact CacheCall.tenancy_prefix ⟨ns, db, subject⟩ call
  | consumer inNamespace inDatabase topic group call =>
      obtain ⟨s, hs, h⟩ := Sequences.bind_eq_ok.mp h
      obtain ⟨ns, hns, hs⟩ := Sequences.bind_eq_ok.mp hs
      obtain ⟨db, hdb, hs⟩ := Sequences.bind_eq_ok.mp hs
      obtain ⟨subject, -, hs⟩ := Sequences.bind_eq_ok.mp hs
      obtain ⟨label, -, hs⟩ := Sequences.bind_eq_ok.mp hs
      cases hs
      rw [use, ← text_of_patternName hns, ← text_of_patternName hdb]
      exact ConsumerCall.tenancy_prefix millis ⟨ns, db, subject, label⟩ h
  | vault inNamespace inDatabase name call =>
      obtain ⟨s, hs, h⟩ := Sequences.bind_eq_ok.mp h
      obtain ⟨⟨ns, db⟩, hnames, hs⟩ := Sequences.bind_eq_ok.mp hs
      obtain ⟨subject, -, hs⟩ := Sequences.bind_eq_ok.mp hs
      cases hs
      obtain ⟨hns, hdb⟩ := texts_of_checkedTenancy hnames
      rw [use, ← hns, ← hdb]
      exact VaultCall.tenancy_prefix ⟨ns, db, subject⟩ h
  | audit inNamespace inDatabase by_ =>
      obtain ⟨⟨ns, db⟩, hnames, h⟩ := Sequences.bind_eq_ok.mp h
      obtain ⟨hns, hdb⟩ := texts_of_checkedTenancy hnames
      rw [use, ← hns, ← hdb]
      cases by_ with
      | none =>
          cases h
          exact List.prefix_append _ _
      | some by_ =>
          obtain ⟨actor, -, h⟩ := Sequences.bind_eq_ok.mp h
          cases h
          refine ⟨"INFO FOR AUDIT BY " ++ actor.text ++ ";", ?_⟩
          simp only [tenancy, List.append_assoc]

/-- The script depends on what is left of a call without its data. -/
theorem HandleCall.script_blank (millis : Double → Except Rejected ℤ) (c : HandleCall) :
    (c.blank.render millis).map Rendered.script = (c.render millis).map Rendered.script := by
  cases c with
  | cache inNamespace inDatabase space call =>
      simp only [blank, render, Sequences.map_bind]
      cases CacheStatements.new inNamespace inDatabase space with
      | error e => rfl
      | ok s => exact congrArg Except.ok (call.script_blank s)
  | consumer inNamespace inDatabase topic group call =>
      simp only [blank, render, Sequences.map_bind, call.script_blank]
  | vault inNamespace inDatabase vault call =>
      simp only [blank, render, Sequences.map_bind, call.script_blank]
  | audit inNamespace inDatabase by_ => rfl

/-- **Every statement binds what it mentions.** The names a script mentions are the names of its
parameters; the script begins with the handle's own tenancy; and every call that differs from
this one in its caller's data only is rendered as the same script. -/
theorem statement_binds_what_it_mentions (millis : Double → Except Rejected ℤ) {c : HandleCall}
    (hworded : c.Worded) {r : Rendered Value} (h : c.render millis = .ok r) :
    Binds r ∧ c.use <+: r.script ∧
      ∀ c' : HandleCall, c'.blank = c.blank →
        ∃ r', c'.render millis = .ok r' ∧ r'.script = r.script := by
  refine ⟨c.binds millis hworded h, c.use_prefix millis h, fun c' hblank => ?_⟩
  have hsame := c'.script_blank millis
  rw [hblank, c.script_blank millis, h] at hsame
  exact Sequences.map_eq_ok.mp hsame.symm

/-- A conditional write of a cache, and the same write of other data. -/
theorem conditional_write_binds_what_it_mentions :
    ∃ r, HandleCall.render (fun _ => .ok 0) (.cache "n" "d" "s"
        (.set "k" .nullValue " IF = $e" (some (.integer 1)) none)) = .ok r ∧ Binds r := by
  refine ⟨_, rfl, (statement_binds_what_it_mentions (fun _ => .ok 0) (c := .cache "n" "d" "s"
    (.set "k" .nullValue " IF = $e" (some (.integer 1)) none)) ?_ rfl).1⟩
  exact ⟨by decide, by decide⟩

/-- The condition and the value it compares with are two arguments: a condition that mentions an
expected value where none is given is rendered, and binds nothing for it. -/
theorem unexpected_condition_is_not_bound :
    ∃ r, HandleCall.render (fun _ => .ok 0) (.cache "n" "d" "s"
        (.set "k" .nullValue " IF = $e" none none)) = .ok r ∧ ¬ Binds r := by
  refine ⟨_, rfl, fun hbinds => ?_⟩
  have hkey := (hbinds "e").mp (by decide)
  revert hkey
  decide

end TessariDB
