import TessariDB.CacheHandle
import TessariDB.CacheReading
import TessariDB.Heard

/-!
# What the Nodes Hear of a Cache

The methods of any number of caches are called over one connection, whatever each of them comes to.
A node that takes a script for a call hears what the methods planned, with every value as it is
written.

## Main results

* `cache_requests_are_read_back`: a method's script is the call it planned.
* `CacheCall.read_canon`: a call is heard as it was made.
* `performed_eq`: a sequence of calls is a run of the statements they plan.
* `nodes_hear_what_a_cache_asked`: on every socket, the calls that were planned, in their order and
  none of them twice, and besides them only the client's own scripts.
-/

namespace TessariDB

open ByteCodec ByteStream Utf8 Text Templates

/-! ### Values -/

namespace CacheCall

/-- The values of a call, besides its texts and its numbers. -/
def values : CacheCall → List Value
  | .set _ value _ expected _ => value :: expected.toList
  | .listPush _ values _ => values
  | .listRemove _ value _ => [value]
  | .hashSet _ fields => fields.map Prod.snd
  | .members _ _ items => items
  | .membersHas _ member => [member]
  | _ => []

/-- A call with its values as they are written. -/
def canon : CacheCall → CacheCall
  | .set key value condition expected lasting =>
      .set key value.canon condition (expected.map Value.canon) lasting
  | .listPush key values front => .listPush key (values.map Value.canon) front
  | .listRemove key value count => .listRemove key value.canon count
  | .hashSet key fields => .hashSet key (Dict.mapValues Value.canon fields)
  | .members verb key items => .members verb key (items.map Value.canon)
  | .membersHas key member => .membersHas key member.canon
  | call => call

theorem Plain.canon {call : CacheCall} (h : call.Plain) : call.canon.Plain := by
  cases call with
  | set key value condition expected lasting =>
      obtain ⟨stored, rfl, hexpected⟩ := h
      exact ⟨stored, rfl, by rwa [Option.isSome_map]⟩
  | listPush key values front => exact List.map_eq_nil_iff.not.mpr h
  | hashSet key fields => exact List.map_eq_nil_iff.not.mpr h
  | members verb key items => exact ⟨h.1, List.map_eq_nil_iff.not.mpr h.2⟩
  | _ => exact h

end CacheCall

/-- What is bound in a script, as it is written. -/
def Rendered.canon (r : Rendered Value) : Rendered Value :=
  ⟨r.script, Dict.mapValues Value.canon r.parameters⟩

namespace CacheStatements

variable (s : CacheStatements) (statement key : Str)

theorem canon_numberedGiven (initial : String) (values : List Value) :
    (s.numberedGiven statement key initial values).canon =
      s.numberedGiven statement key initial (values.map Value.canon) := by
  have hgiven : Dict.mapValues Value.canon (values.zipIdx.foldl
      (fun d v => Dict.set d (initial ++ digits v.2) v.1) [(ofString "k", Value.text key)]) =
      values.zipIdx.foldl (fun d v => Dict.set d (initial ++ digits v.2) v.1.canon)
        (Dict.mapValues Value.canon [(ofString "k", Value.text key)]) :=
    (List.foldl_hom (Dict.mapValues Value.canon) fun d v => (Dict.mapValues_set ..).symm).symm
  rw [Rendered.canon, numberedGiven, numberedGiven, hgiven, List.zipIdx_map, List.foldl_map,
    mapIdx_const, mapIdx_const, List.length_map]
  rfl

/-- Texts are written as they are. -/
theorem canon_numberedTexts (initial : String) (texts : List Str) :
    (s.numberedGiven statement key initial (texts.map Value.text)).canon =
      s.numberedGiven statement key initial (texts.map Value.text) := by
  rw [canon_numberedGiven, List.map_map]
  rfl

theorem canon_pairedGiven (left right : String) (pairs : List (Value × Value)) :
    (s.pairedGiven statement key left right pairs).canon =
      s.pairedGiven statement key left right
        (pairs.map fun p => (p.1.canon, p.2.canon)) := by
  have hgiven : Dict.mapValues Value.canon (pairs.zipIdx.foldl
      (fun d p => Dict.set (Dict.set d (left ++ digits p.2) p.1.1) (right ++ digits p.2) p.1.2)
        [(ofString "k", Value.text key)]) =
      pairs.zipIdx.foldl (fun d p => Dict.set (Dict.set d (left ++ digits p.2) p.1.1.canon)
        (right ++ digits p.2) p.1.2.canon)
        (Dict.mapValues Value.canon [(ofString "k", Value.text key)]) :=
    (List.foldl_hom (Dict.mapValues Value.canon) fun d p => by
      rw [Dict.mapValues_set, Dict.mapValues_set]).symm
  rw [Rendered.canon, pairedGiven, pairedGiven, hgiven, List.zipIdx_map, List.foldl_map,
    mapIdx_const fun i => "$" ++ ofString left ++ digits i ++ " = $" ++ ofString right ++ digits i,
    mapIdx_const fun i => "$" ++ ofString left ++ digits i ++ " = $" ++ ofString right ++ digits i,
    List.length_map]
  rfl

end CacheStatements

namespace CacheCall

variable (s : CacheStatements)

theorem canon_render (call : CacheCall) : (call.render s).canon = call.canon.render s := by
  cases call with
  | set key value condition expected lasting =>
      cases expected <;> cases lasting <;> rfl
  | keys before after limit =>
      change (s.keys before after limit).canon = s.keys before after limit
      rw [CacheStatements.keys]
      cases before.filter (· ≠ []) <;> cases after <;> rfl
  | listPush key values front => exact s.canon_numberedGiven _ key "v" values
  | listPop key front count => cases count <;> rfl
  | listRemove key value count => cases count <;> rfl
  | hashSet key fields =>
      refine (s.canon_pairedGiven _ key "f" "v" _).trans (congrArg (s.pairedGiven _ key "f" "v") ?_)
      simp only [Dict.mapValues, List.map_map]
      rfl
  | hashRemove key fields => exact s.canon_numberedTexts _ key "f" fields
  | members verb key items => exact s.canon_numberedGiven _ key "v" items
  | scoresAdd key scores =>
      refine (s.canon_pairedGiven _ key "m" "c" _).trans (congrArg (s.pairedGiven _ key "m" "c") ?_)
      rw [List.map_map]
      rfl
  | scoresRemove key items => exact s.canon_numberedTexts _ key "m" items
  | scoresBetween key low high => cases low <;> cases high <;> rfl
  | _ => rfl

/-- **A call is heard as it was made.** -/
theorem read_canon {call : CacheCall} (hplain : call.Plain) :
    CacheCall.read (call.render s).script
      (Dict.mapValues Value.canon (call.render s).parameters) = some (s, call.canon) := by
  have h := read_render s hplain.canon
  rwa [← canon_render] at h

end CacheCall

/-! ### Keyed parameters -/

/-- Every parameter of a script can be written. -/
def Rendered.Keyed (r : Rendered Value) : Prop := ∀ p ∈ r.parameters, p.2.Keyed

theorem keyed_set {ps : List (Str × Value)} (h : ∀ p ∈ ps, p.2.Keyed) (name : Str) {value : Value}
    (hvalue : value.Keyed) : ∀ p ∈ Dict.set ps name value, p.2.Keyed := by
  intro p hp
  rcases Dict.mem_set hp with hp | rfl
  · exact h p hp
  · exact hvalue

namespace Rendered.Keyed

variable {r : Rendered Value}

theorem given (h : r.Keyed) (name : String) {value : Value} (hvalue : value.Keyed) :
    (r.given name value).Keyed := keyed_set h _ hvalue

/-- A parameter that is there or not. -/
theorem optional {α : Type} (h : r.Keyed) (name : String) (make : α → Value) {a : Option α}
    (hvalue : ∀ x ∈ a, (make x).Keyed) : (a.elim r fun x => r.given name (make x)).Keyed := by
  cases a with
  | none => exact h
  | some x => exact h.given name (hvalue x rfl)

end Rendered.Keyed

namespace CacheStatements

variable (s : CacheStatements) (statement key : Str)

theorem keyed_keyed : (s.keyed statement key).Keyed := List.forall_mem_singleton.mpr trivial

theorem keyed_numberedGiven (initial : String) {values : List Value} (h : ∀ v ∈ values, v.Keyed) :
    (s.numberedGiven statement key initial values).Keyed :=
  List.foldlRecOn (motive := fun ps : List (Str × Value) => ∀ p ∈ ps, p.2.Keyed) values.zipIdx _
    (List.forall_mem_singleton.mpr trivial) fun _ hps v hv =>
      keyed_set hps _ (h v.1 (List.fst_mem_of_mem_zipIdx hv))

theorem keyed_pairedGiven (left right : String) {pairs : List (Value × Value)}
    (h : ∀ p ∈ pairs, p.1.Keyed ∧ p.2.Keyed) :
    (s.pairedGiven statement key left right pairs).Keyed :=
  List.foldlRecOn (motive := fun ps : List (Str × Value) => ∀ p ∈ ps, p.2.Keyed) pairs.zipIdx _
    (List.forall_mem_singleton.mpr trivial) fun _ hps p hp =>
      have hpair := h p.1 (List.fst_mem_of_mem_zipIdx hp)
      keyed_set (keyed_set hps _ hpair.1) _ hpair.2

theorem keyed_keys (before after : Option Str) (limit : ℤ) : (s.keys before after limit).Keyed := by
  have hnone : Rendered.Keyed ⟨s.tenancy, []⟩ := List.forall_mem_nil _
  have htext : ∀ text, (Value.text text).Keyed := fun _ => trivial
  have hbefore : ∀ before, (Rendered.given ⟨s.tenancy, []⟩ "p" (.text before)).Keyed :=
    fun before => hnone.given "p" (htext before)
  rw [keys]
  cases before.filter (· ≠ []) with
  | none =>
      cases after with
      | none => exact hnone
      | some after => exact hnone.given "a" (htext after)
  | some before =>
      cases after with
      | none => exact hbefore before
      | some after => exact (hbefore before).given "a" (htext after)

end CacheStatements

theorem CacheCall.keyed_render (s : CacheStatements) {call : CacheCall}
    (h : ∀ v ∈ call.values, v.Keyed) : (call.render s).Keyed := by
  cases call with
  | set key value condition expected lasting =>
      obtain ⟨hvalue, hexpected⟩ := List.forall_mem_cons.mp h
      have hgiven : ∀ v ∈ expected, (id v).Keyed := fun v hv =>
        hexpected v (Option.mem_toList.mpr hv)
      exact (((s.keyed_keyed _ key).given "v" hvalue).optional "e" id hgiven).optional "t"
        Duration.value fun _ _ => trivial
  | keys before after limit => exact s.keyed_keys before after limit
  | listPush key values front => exact s.keyed_numberedGiven _ key "v" h
  | listPop key front count =>
      cases count with
      | none => exact s.keyed_keyed _ key
      | some count => exact (s.keyed_keyed _ key).given "n" trivial
  | listRemove key value count =>
      exact ((s.keyed_keyed _ key).given "v" (h value List.mem_cons_self)).optional "n"
        Value.integer fun _ _ => trivial
  | hashSet key fields =>
      refine s.keyed_pairedGiven _ key "f" "v" (List.forall_mem_map.mpr fun field hfield => ?_)
      exact ⟨trivial, h _ (List.mem_map_of_mem hfield)⟩
  | hashRemove key fields =>
      exact s.keyed_numberedGiven _ key "f" (List.forall_mem_map.mpr fun _ _ => trivial)
  | members verb key items => exact s.keyed_numberedGiven _ key "v" h
  | membersHas key member => exact (s.keyed_keyed _ key).given "v" (h member List.mem_cons_self)
  | scoresAdd key scores =>
      exact s.keyed_pairedGiven _ key "m" "c"
        (List.forall_mem_map.mpr fun _ _ => ⟨trivial, trivial⟩)
  | scoresRemove key items =>
      exact s.keyed_numberedGiven _ key "m" (List.forall_mem_map.mpr fun _ _ => trivial)
  | scoresBetween key low high =>
      exact ((s.keyed_keyed _ key).optional "lo" Value.float fun _ _ => trivial).optional "hi"
        Value.float fun _ _ => trivial
  | incr key n | expire key lasting | listAt key index | hashGet key field
  | scoresOf function key member | release key holder =>
      refine (s.keyed_keyed _ key).given _ ?_
      trivial
  | lock key holder lasting | extend key holder lasting | listRange key start count
  | listTrim key start stop | hashIncr key field n | scoresIncr key member x
  | scoresRange key start stop =>
      refine ((s.keyed_keyed _ key).given _ ?_).given _ ?_ <;> trivial
  | _ => exact s.keyed_keyed _ _

/-! ### Nothing else is a call -/

/-- What a filled in template ends with. -/
theorem getLast?_fill {κ γ : Type} {kind : κ → γ → Bool} {t : Template κ γ}
    {words : List (List γ)} (h : Fits kind t words) {c : γ} (hlast : t.getLast? = some (.char c)) :
    (fill t words).getLast? = some c := by
  induction h with
  | nil => cases hlast
  | @char t words d rest ih =>
      cases t with
      | nil =>
          obtain rfl : d = c := Mark.char.inj (Option.some.inj hlast)
          cases words <;> rfl
      | cons mark t =>
          have hrest := ih (by rwa [List.getLast?_cons_cons] at hlast)
          rw [fill, List.getLast?_cons, hrest]
          rfl
  | @hole t words k word _ _ rest ih =>
      cases t with
      | nil => cases hlast
      | cons mark t =>
          have hrest := ih (by rwa [List.getLast?_cons_cons] at hlast)
          rw [fill_hole, List.getLast?_append, hrest]
          rfl

theorem CacheForm.getLast?_template (form : CacheForm) :
    form.template.getLast? = some (.char (codePoint 0x3B)) := by
  have hstatement : form.statement.getLast? = some (.char (codePoint 0x3B)) := by
    cases form with
    | set stored expires => cases stored <;> cases expires <;> rfl
    | keys before after => cases before <;> cases after <;> rfl
    | listPush flag | listRemove flag | members flag | scoresOf flag => cases flag <;> rfl
    | listPop front limited => cases front <;> cases limited <;> rfl
    | scoresBetween low high => cases low <;> cases high <;> rfl
    | _ => rfl
  rw [template, List.getLast?_append, List.getLast?_cons, List.getLast?_append, List.getLast?_cons,
    List.getLast?_append, hstatement]
  rfl

/-- A script that is taken for a call. -/
def cacheCallIn (p : Script) : Option (CacheStatements × CacheCall) := CacheCall.read p.1 p.2

theorem getLast?_of_cacheCallIn {p : Script} (h : cacheCallIn p ≠ none) :
    p.1.getLast? = some (codePoint 0x3B) := by
  obtain ⟨call, hcall⟩ := Option.ne_none_iff_exists'.mp h
  rw [cacheCallIn, CacheCall.read] at hcall
  split at hcall
  · next form _ _ _ words hread =>
    obtain ⟨hfits, hscript⟩ := CacheForm.readForm_eq_some_iff.mp hread
    rw [hscript]
    exact getLast?_fill hfits form.getLast?_template
  · cases hcall

theorem discerns_cacheCallIn : Discerns cacheCallIn where
  context := by rfl
  selects {fields selecting} h := by
    by_contra hcall
    have hlast := getLast?_of_cacheCallIn hcall
    rcases h.getLast?_ne with rfl | hend
    · cases hlast
    · exact absurd (hend.symm.trans hlast) (by decide)

/-! ### Plans -/

namespace CacheMethod

variable {roundNanos : Double → Except Rejected ℤ} {float : ℤ → Except Rejected Double}

/-- The values a method is called with, besides its texts and its numbers. -/
def values : CacheMethod → List Value
  | .set _ v _ | .setIfAbsent _ v _ | .setIfPresent _ v _ => [v]
  | .compareAndSet _ expected v _ => [v, expected]
  | .listPush _ values _ => values
  | .listRemove _ v _ => [v]
  | .hashSet _ fields => fields.map Prod.snd
  | .membersAdd _ items | .membersRemove _ items => items
  | .membersHas _ member => [member]
  | _ => []

theorem planSome_eq_ok {α : Type} {items : List α} {reason : String} {call : CacheCall} {p : Plan}
    (h : planSome items reason call = .ok p) : items ≠ [] ∧ p = planInteger call := by
  obtain ⟨_, hsome, hp⟩ := Sequences.bind_eq_ok.mp h
  refine ⟨?_, (Except.ok.inj hp).symm⟩
  rintro rfl
  cases hsome

theorem planSet_eq_ok {key : Str} {v : Value} {condition : Str} {expected : Option Value}
    {span : Option TtlLike} {p : Plan}
    (h : planSet roundNanos key v condition expected span = .ok p) :
    ∃ lasting, p = planFlag (.set key v condition expected lasting) := by
  obtain ⟨lasting, -, hp⟩ := Sequences.bind_eq_ok.mp h
  exact ⟨lasting, (Except.ok.inj hp).symm⟩

/-- **A method plans a plain call**, with the values it was called with. -/
theorem planned_plain {m : CacheMethod} {p : Plan} (h : m.planned roundNanos float = .ok p) :
    p.1.Plain ∧ p.1.values = m.values := by
  cases m with
  | set key v span =>
      obtain ⟨lasting, -, hp⟩ := Sequences.bind_eq_ok.mp h
      obtain rfl := Except.ok.inj hp
      exact ⟨⟨.always, rfl, rfl⟩, rfl⟩
  | setIfAbsent key v span =>
      obtain ⟨lasting, rfl⟩ := planSet_eq_ok h
      exact ⟨⟨.ifAbsent, rfl, rfl⟩, rfl⟩
  | setIfPresent key v span =>
      obtain ⟨lasting, rfl⟩ := planSet_eq_ok h
      exact ⟨⟨.ifPresent, rfl, rfl⟩, rfl⟩
  | compareAndSet key expected v span =>
      obtain ⟨lasting, rfl⟩ := planSet_eq_ok h
      exact ⟨⟨.ifEqual, rfl, rfl⟩, rfl⟩
  | keys before after limit =>
      obtain ⟨n, hlimit, hp⟩ := Sequences.bind_eq_ok.mp h
      obtain rfl := Except.ok.inj hp
      have hbounds : 1 ≤ n ∧ n ≤ MOST_KEYS := by
        cases limit with
        | int m =>
            rw [CacheHandle.checkedLimit] at hlimit
            split at hlimit
            · next hm => exact Except.ok.inj hlimit ▸ hm
            · cases hlimit
        | other => cases hlimit
      refine ⟨⟨fun hbefore => ?_, by omega, hbounds.2.trans (by decide)⟩, rfl⟩
      have hne := (Option.filter_eq_some_iff.mp hbefore).2
      simp at hne
  | listPush key values front | hashSet key fields | hashRemove key fields
  | scoresRemove key items =>
      obtain ⟨hne, rfl⟩ := planSome_eq_ok h
      exact ⟨hne, rfl⟩
  | membersAdd key items =>
      obtain ⟨hne, rfl⟩ := planSome_eq_ok h
      exact ⟨⟨.inl rfl, hne⟩, rfl⟩
  | membersRemove key items =>
      obtain ⟨hne, rfl⟩ := planSome_eq_ok h
      exact ⟨⟨.inr rfl, hne⟩, rfl⟩
  | scoresAdd key scores =>
      obtain ⟨_, hsome, hchecked⟩ := Sequences.bind_eq_ok.mp h
      obtain ⟨checked, hscores, hp⟩ := Sequences.bind_eq_ok.mp hchecked
      obtain rfl := Except.ok.inj hp
      refine ⟨?_, rfl⟩
      rintro rfl
      obtain rfl := List.forall₂_nil_right_iff.mp (Sequences.mapM_eq_ok.mp hscores)
      cases hsome
  | scoresScore key member =>
      obtain rfl := Except.ok.inj h
      exact ⟨.inr rfl, rfl⟩
  | scoresRank key member =>
      obtain rfl := Except.ok.inj h
      exact ⟨.inl rfl, rfl⟩
  | listRange key start count =>
      obtain ⟨first, -, hcount⟩ := Sequences.bind_eq_ok.mp h
      obtain ⟨many, -, hp⟩ := Sequences.bind_eq_ok.mp hcount
      obtain rfl := Except.ok.inj hp
      exact ⟨trivial, rfl⟩
  | lock key span holder token =>
      obtain ⟨name, -, hlasting⟩ := Sequences.bind_eq_ok.mp h
      obtain ⟨lasting, -, hp⟩ := Sequences.bind_eq_ok.mp hlasting
      obtain rfl := Except.ok.inj hp
      exact ⟨trivial, rfl⟩
  | expire key span | extend lease span | listPopMany key count front | listAt key index
  | listRemove key v count | hashIncr key field n | scoresIncr key member x =>
      obtain ⟨_, -, hp⟩ := Sequences.bind_eq_ok.mp h
      obtain rfl := Except.ok.inj hp
      exact ⟨trivial, rfl⟩
  | _ =>
      obtain rfl := Except.ok.inj h
      exact ⟨trivial, rfl⟩

/-- **A cache's requests are read back.** Whatever a key, a value, a field or a member holds, the
script that a method sends is read as the call it planned, of the names of its cache and with every
value where it was put. Two requests are alike only where they make one call of one cache. -/
theorem cache_requests_are_read_back {s : CacheStatements} {m : CacheMethod} {p : Plan}
    (h : m.planned roundNanos float = .ok p) :
    CacheCall.read (p.1.render s).script (p.1.render s).parameters = some (s, p.1) ∧
      ∀ (s' : CacheStatements) (m' : CacheMethod) (p' : Plan),
        m'.planned roundNanos float = .ok p' → p'.1.render s' = p.1.render s →
          s' = s ∧ p'.1 = p.1 := by
  have hread := CacheCall.read_render s (planned_plain h).1
  refine ⟨hread, fun s' m' p' h' heq => ?_⟩
  have hread' := CacheCall.read_render s' (planned_plain h').1
  rw [heq, hread] at hread'
  obtain ⟨rfl, hcall⟩ := Prod.mk.inj (Option.some.inj hread')
  exact ⟨rfl, hcall.symm⟩

/-- A key that looks like the end of a statement. -/
theorem cache_requests_are_read_back_get : ∃ (s : CacheStatements) (p : Plan),
    CacheCall.read (p.1.render s).script (p.1.render s).parameters =
      some (s, .get (ofString "a; DELETE b:$k;")) :=
  let name : Name := ⟨ofString "n", by decide⟩
  ⟨⟨name, name, name⟩, _, (@cache_requests_are_read_back (fun _ => .ok 0) (fun _ => .ok 0) _
    (.get (ofString "a; DELETE b:$k;")) _ rfl).1⟩

end CacheMethod

/-! ### Runs -/

section Runs

variable (roundNanos : Double → Except Rejected ℤ) (float : ℤ → Except Rejected Double)

/-- The state after a sequence of calls of methods, each of some cache; a caller may go on after an
exception. -/
def performed : List (CacheStatements × CacheMethod) → Connection × World → Connection × World
  | [], cw => cw
  | (s, m) :: ms, cw => performed ms (after (m.perform roundNanos float s cw))

/-- The calls that methods plan; a method that refuses its arguments plans none. -/
def plannedCalls (ms : List (CacheStatements × CacheMethod)) : List (CacheStatements × CacheCall) :=
  ms.filterMap fun m => (m.2.planned roundNanos float).toOption.map fun p => (m.1, p.1)

variable {roundNanos float}

theorem perform_of_refused {s : CacheStatements} {m : CacheMethod} {why : Rejected}
    (h : m.planned roundNanos float = .error why) (cw : Connection × World) :
    m.perform roundNanos float s cw = .error (.rejected why) cw := by
  rw [m.perform_eq, h]
  rfl

/-- What a plan comes to: what is made of the outcomes, or the error of the connection. -/
theorem carried_run (s : CacheStatements) (p : CacheMethod.Plan) (cw : Connection × World) :
    CacheMethod.carried s p cw =
      match Connection.execute (p.1.render s).script (p.1.render s).parameters cw with
      | .ok reply cw => settle (p.2 reply.outcomes) cw
      | .error e cw => .error (.raised e) cw := by
  cases hrun : Connection.execute (p.1.render s).script (p.1.render s).parameters cw with
  | error e cw' =>
      have hlift : CacheHandle.lift (Connection.execute (p.1.render s).script
          (p.1.render s).parameters) cw = .error (.raised e) cw' := by
        simp only [CacheHandle.lift, EStateM.adaptExcept, hrun]
      exact bind_of_error (bind_of_error hlift _) _
  | ok reply cw' =>
      have hlift : CacheHandle.lift (Connection.execute (p.1.render s).script
          (p.1.render s).parameters) cw = .ok reply cw' := by
        simp only [CacheHandle.lift, EStateM.adaptExcept, hrun]
      have hexecute : CacheHandle.execute (p.1.render s) cw = .ok reply.outcomes cw' :=
        bind_of_ok hlift _
      exact bind_of_ok hexecute _

theorem perform_of_planned {s : CacheStatements} {m : CacheMethod} {p : CacheMethod.Plan}
    (h : m.planned roundNanos float = .ok p) :
    m.perform roundNanos float s = CacheMethod.carried s p := by
  rw [m.perform_eq, h]
  rfl

/-- What a planned call leaves, whatever is made of its answer. -/
theorem after_perform {s : CacheStatements} {m : CacheMethod} {p : CacheMethod.Plan}
    (h : m.planned roundNanos float = .ok p) (cw : Connection × World) :
    after (m.perform roundNanos float s cw) = after ((p.1.render s).call.run cw) := by
  rw [perform_of_planned h, carried_run, Rendered.call, Call.run, after_discard]
  cases Connection.execute (p.1.render s).script (p.1.render s).parameters cw with
  | error e cw => rfl
  | ok reply cw => exact after_settle _ _

theorem outcome_perform {s : CacheStatements} {m : CacheMethod} {p : CacheMethod.Plan}
    (h : m.planned roundNanos float = .ok p) {cw : Connection × World} {answer : CacheAnswer}
    (hanswer : outcome (m.perform roundNanos float s cw) = .ok answer) :
    ∃ reply, outcome (Connection.execute (p.1.render s).script (p.1.render s).parameters cw) =
      .ok reply ∧ p.2 reply.outcomes = .ok answer := by
  rw [perform_of_planned h, carried_run] at hanswer
  cases hrun : Connection.execute (p.1.render s).script (p.1.render s).parameters cw with
  | error e cw =>
      rw [hrun] at hanswer
      cases hanswer
  | ok reply cw =>
      rw [hrun, outcome_settle] at hanswer
      exact ⟨reply, rfl, hanswer⟩

variable (roundNanos float) in
/-- **A sequence of calls is a run of the statements they plan.** -/
theorem performed_eq (ms : List (CacheStatements × CacheMethod)) (cw : Connection × World) :
    performed roundNanos float ms cw = runs ((plannedCalls roundNanos float ms).map fun call =>
      (call.2.render call.1).call) cw := by
  induction ms generalizing cw with
  | nil => rfl
  | cons m ms ih =>
      obtain ⟨s, m⟩ := m
      rw [performed, ih]
      cases h : m.planned roundNanos float with
      | error why =>
          have hnone : plannedCalls roundNanos float ((s, m) :: ms) =
              plannedCalls roundNanos float ms := List.filterMap_cons_none (by rw [h]; rfl)
          rw [perform_of_refused h, hnone]
          rfl
      | ok p =>
          have hsome : plannedCalls roundNanos float ((s, m) :: ms) =
              (s, p.1) :: plannedCalls roundNanos float ms :=
            List.filterMap_cons_some (by rw [h]; rfl)
          rw [after_perform h, hsome]
          rfl

theorem mem_plannedCalls {ms : List (CacheStatements × CacheMethod)}
    {call : CacheStatements × CacheCall} (h : call ∈ plannedCalls roundNanos float ms) :
    ∃ m ∈ ms, ∃ p, m.2.planned roundNanos float = .ok p ∧ call = (m.1, p.1) := by
  obtain ⟨m, hm, hcall⟩ := List.mem_filterMap.mp h
  obtain ⟨p, hp, rfl⟩ := Option.map_eq_some_iff.mp hcall
  refine ⟨m, hm, p, ?_, rfl⟩
  cases hplanned : m.2.planned roundNanos float with
  | error why =>
      rw [hplanned] at hp
      cases hp
  | ok q =>
      rw [hplanned] at hp
      exact congrArg Except.ok (Option.some.inj hp)

/-- A planned call is heard as it was made. -/
theorem taken_planned {s : CacheStatements} {m : CacheMethod} {p : CacheMethod.Plan}
    (h : m.planned roundNanos float = .ok p) :
    Script.taken cacheCallIn ((p.1.render s).script, (p.1.render s).parameters) =
      some (s, p.1.canon) :=
  CacheCall.read_canon s (CacheMethod.planned_plain h).1

/-- **The nodes hear what a cache asked**, and nothing else but the client's own scripts. Whatever
nodes there are, wherever they redirect and whatever fails: every frame behind the greeting of a
socket is a request; each of them is a call that a method planned, of the cache it was made of and
with the values it was made with, or a script of the client's own; and the calls come in their
order, none of them twice. Where a method returns, what it planned is the last that some node has
been asked. -/
theorem nodes_hear_what_a_cache_asked {address : Str} {user password : Option Str} {w₀ w : World}
    {c : Connection} (h : Connection.connect address user password w₀ = .ok c w)
    {ms : List (CacheStatements × CacheMethod)} (hkeyed : ∀ m ∈ ms, ∀ v ∈ m.2.values, v.Keyed) :
    (∀ i, w₀.opened ≤ i → i < (performed roundNanos float ms (c, w)).2.opened →
      ∃ asked, askedOn ((performed roundNanos float ms (c, w)).2.sockets i) = some asked ∧
        (∀ q ∈ asked, OwnScript q ∨ ∃ call ∈ plannedCalls roundNanos float ms,
          cacheCallIn q = some (call.1, call.2.canon)) ∧
        (asked.filterMap cacheCallIn).Sublist
          ((plannedCalls roundNanos float ms).map fun call => (call.1, call.2.canon))) ∧
    ∀ (s : CacheStatements) (m : CacheMethod), (∀ v ∈ m.values, v.Keyed) → ∀ answer,
      outcome (m.perform roundNanos float s (performed roundNanos float ms (c, w))) = .ok answer →
        ∃ p i asked q, m.planned roundNanos float = .ok p ∧ w₀.opened ≤ i ∧
          askedOn ((after (m.perform roundNanos float s
            (performed roundNanos float ms (c, w)))).2.sockets i) = some asked ∧
          asked.getLast? = some q ∧ cacheCallIn q = some (s, p.1.canon) := by
  have hplans : ∀ call ∈ plannedCalls roundNanos float ms, (call.2.render call.1).Keyed ∧
      Script.taken cacheCallIn ((call.2.render call.1).script,
        (call.2.render call.1).parameters) = some (call.1, call.2.canon) := by
    intro call hcall
    obtain ⟨m, hm, p, hp, rfl⟩ := mem_plannedCalls hcall
    refine ⟨CacheCall.keyed_render m.1 ?_, taken_planned hp⟩
    rw [(CacheMethod.planned_plain hp).2]
    exact hkeyed m hm
  have hheard : (((plannedCalls roundNanos float ms).map fun call => call.2.render call.1).map
      fun r => (r.script, r.parameters)).filterMap (Script.taken cacheCallIn) =
      (plannedCalls roundNanos float ms).map fun call => (call.1, call.2.canon) := by
    rw [List.map_map, List.filterMap_map, ← List.filterMap_eq_map]
    exact List.filterMap_congr fun call hcall => (hplans call hcall).2
  have hrun : performed roundNanos float ms (c, w) =
      runs (((plannedCalls roundNanos float ms).map fun call => call.2.render call.1).map
        Rendered.call) (c, w) := by
    rw [performed_eq, List.map_map]
    rfl
  obtain ⟨hasked, hanswered⟩ := @runs_asked _ _ discerns_cacheCallIn _ _ _ _ _ _ h _
    (List.forall_mem_map.mpr fun call hcall => (hplans call hcall).1)
  rw [← hrun] at hasked hanswered
  refine ⟨fun i hge hlt => ?_, fun s m hvalues answer hanswer => ?_⟩
  · obtain ⟨asked, hsocket, hsent, hsub⟩ := hasked i hge hlt
    refine ⟨asked, hsocket, fun q hq => (hsent q hq).imp_right ?_, hheard ▸ hsub⟩
    rintro ⟨r, hr, rfl⟩
    obtain ⟨call, hcall, rfl⟩ := List.mem_map.mp hr
    exact ⟨call, hcall, (hplans call hcall).2⟩
  · cases hp : m.planned roundNanos float with
    | error why =>
        rw [perform_of_refused hp] at hanswer
        cases hanswer
    | ok p =>
        obtain ⟨reply, hreply, -⟩ := outcome_perform hp hanswer
        have hp_keyed : (p.1.render s).Keyed := by
          refine CacheCall.keyed_render s ?_
          rwa [(CacheMethod.planned_plain hp).2]
        have hafter : after (m.perform roundNanos float s (performed roundNanos float ms (c, w))) =
            after (Connection.execute (p.1.render s).script (p.1.render s).parameters
              (performed roundNanos float ms (c, w))) :=
          (after_perform hp _).trans (after_discard _ _)
        obtain ⟨i, asked, hge, hsocket, hlast⟩ := hanswered _ _ hp_keyed reply hreply
        rw [← hafter] at hsocket
        exact ⟨p, i, asked, _, rfl, hge, hsocket, hlast, taken_planned hp⟩

/-- A `get` sent to a node that answers one statement. -/
theorem nodes_hear_a_get :
    ∃ (s : CacheStatements) (asked : List Script),
      askedOn ((performed (fun _ => .ok 0) (fun _ => .ok 0)
        [(s, .get (ofString "a"))] (⟨0, none, none, false, false, 4⟩,
          after (Connection.connect (ofString "a:1") none none answering))).2.sockets 0) =
        some asked ∧ (asked.filterMap cacheCallIn).Sublist [(s, .get (ofString "a"))] := by
  have hconnect : Connection.connect (ofString "a:1") none none answering =
      .ok ⟨0, none, none, false, false, 4⟩
        (after (Connection.connect (ofString "a:1") none none answering)) := rfl
  let name : Name := ⟨ofString "n", by decide⟩
  let s : CacheStatements := ⟨name, name, name⟩
  have hheard := (@nodes_hear_what_a_cache_asked (fun _ => .ok 0) (fun _ => .ok 0) _ _ _ _ _ _
    hconnect [(s, .get (ofString "a"))]
    (List.forall_mem_singleton.mpr (List.forall_mem_nil _))).1
  obtain ⟨asked, hasked, -, hsub⟩ := hheard 0 (Nat.zero_le _) (by decide +kernel)
  exact ⟨s, asked, hasked, hsub⟩

end Runs

end TessariDB
