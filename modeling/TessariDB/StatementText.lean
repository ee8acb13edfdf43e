import TessariDB.Handles
import TessariDB.Statement

/-!
# Values Stay out of the Text

A statement as its caller builds it: the calls on a `Select`, the calls of `set` on a write, the
identity of a `DELETE`, or a queue's claim. `Built.shape` is what is left of it when every value
is taken away, and `Built.bound` the values themselves, in the order they are numbered in.

## Main results

* `Built.rendered_map`: rendering commutes with exchanging the values.
* `Built.rendered_spec`: the parameters and the references of what is rendered.
* `values_stay_out_of_the_text`: both, for two statements of one shape.
-/

namespace TessariDB

open Utf8 Text References

variable {V W : Type}

/-- A statement of the builder, or a claim, as it is asked for. -/
inductive Built (V : Type) where
  | select (table : Str) (calls : List (SelectCall V))
  | create (table : Str) (identity : Option V) (calls : List (SetCall V))
  | update (table : Str) (identity : Option V) (calls : List (SetCall V))
  | delete (table : Str) (identity : V)
  | claim (inNamespace inDatabase queue worker : Str) (count : ℤ) (narrowing : Option (Filter V))

namespace Built

/-- Building a statement and rendering it. -/
def rendered : Built V → Except Rejected (Rendered V)
  | .select table calls => do
      let s ← Select.build table calls
      return s.render
  | .create table identity calls => do
      let w ← Write.build table identity calls
      w.renderCreate
  | .update table identity calls => do
      let w ← Write.build table identity calls
      w.renderUpdate
  | .delete table identity => do
      let d ← Delete.new table identity
      return d.render
  | .claim inNamespace inDatabase queue worker count narrowing => do
      let s ← QueueStatements.new inNamespace inDatabase queue worker
      s.claim count narrowing

end Built

/-! ### The values -/

/-- The filter a call gives, if it gives one. -/
def SelectCall.filter? : SelectCall V → Option (Filter V)
  | .narrow filter => some filter
  | _ => none

/-- The filter that counts: a later one replaces an earlier one. -/
def lastFilter (calls : List (SelectCall V)) (before : Option (Filter V)) : Option (Filter V) :=
  calls.foldl (fun found call => call.filter?.or found) before

/-- The values of a statement: the identity and then the fields by ascending name, or the
operands of the filter, depth first and from left to right. -/
def Built.bound : Built V → List V
  | .select _ calls => whereOperands (lastFilter calls none)
  | .create _ identity calls | .update _ identity calls =>
      identity.toList ++ (Dict.sorted (Dict.ofPairs (SetCall.assignments calls))).map Prod.snd
  | .delete _ identity => [identity]
  | .claim _ _ _ _ _ narrowing => whereOperands narrowing

theorem narrowing_of_run {call : SelectCall V} {s s' : Select V} (h : call.run s = .ok s') :
    s'.narrowing = call.filter?.or s.narrowing := by
  cases call with
  | narrow filter =>
      cases h
      rfl
  | lines name from_ number =>
      obtain ⟨_, -, h⟩ := Sequences.bind_eq_ok.mp h
      obtain ⟨_, -, h⟩ := Sequences.bind_eq_ok.mp h
      obtain ⟨_, -, h⟩ := Sequences.bind_eq_ok.mp h
      cases h
      rfl
  | field _ | orderBy _ _ | start _ | limit _ | staleness _ | answeredBy _ =>
      obtain ⟨_, -, h⟩ := Sequences.bind_eq_ok.mp h
      cases h
      rfl

theorem narrowing_of_foldlM {calls : List (SelectCall V)} {s s' : Select V}
    (h : calls.foldlM (fun s call => call.run s) s = .ok s') :
    s'.narrowing = lastFilter calls s.narrowing := by
  induction calls generalizing s with
  | nil =>
      cases h
      rfl
  | cons call calls ih =>
      rw [List.foldlM_cons] at h
      obtain ⟨t, hrun, h⟩ := Sequences.bind_eq_ok.mp h
      rw [ih h, narrowing_of_run hrun]
      rfl

theorem Select.narrowing_of_build {table : Str} {calls : List (SelectCall V)} {s : Select V}
    (h : Select.build table calls = .ok s) : s.narrowing = lastFilter calls none := by
  obtain ⟨t, hnew, h⟩ := Sequences.bind_eq_ok.mp h
  obtain ⟨_, -, hnew⟩ := Sequences.bind_eq_ok.mp hnew
  cases hnew
  exact narrowing_of_foldlM h

theorem Write.of_build {table : Str} {identity : Option V} {calls : List (SetCall V)} {w : Write V}
    (h : Write.build table identity calls = .ok w) :
    w.identity = identity ∧ w.fields = Dict.ofPairs (SetCall.assignments calls) := by
  rw [build_eq] at h
  obtain ⟨_, -, rfl⟩ := Sequences.map_eq_ok.mp h
  exact ⟨rfl, rfl⟩

theorem named_of_checkedFields {items : List (Str × V)} {fields : Fields V}
    (h : checkedFields items = .ok fields) : ∀ item ∈ items, IsName item.1 := by
  rw [← items_of_checkedFields h]
  exact fields.named

theorem QueueStatements.claim_eq (s : QueueStatements) (n : ℤ) (narrowing : Option (Filter V)) :
    s.claim n narrowing =
      if 1 ≤ n ∧ n ≤ CEILING then
        .ok ⟨s.tenancy ++ "USE CONSUMER '" ++ s.worker.text ++ "'; CLAIM " ++ str n ++ " FROM " ++
          s.queue.text ++ whereText narrowing 0 ++ ";", numbered (whereOperands narrowing)⟩
      else .error (.builderError ⟨.notACount, "a count", str n⟩) := by
  have h := renderWhere_eq narrowing []
  simp only [claim]
  rw [show ([] : Binder V) = numbered [] from rfl, h]
  rfl

/-! ### The references -/

theorem unmarked_tenancy (inNamespace inDatabase : Name) :
    Unmarked (tenancy inNamespace inDatabase) := by
  have huse : Unmarked "USE NAMESPACE " := by decide
  have hthen : Unmarked "; USE DATABASE " := by decide
  have hend : Unmarked "; " := by decide
  exact (((huse.append inNamespace.unmarked).append hthen).append inDatabase.unmarked).append hend

theorem Label.unmarked (label : Label) : Unmarked label.text := by
  intro hmem
  have hchar := label.valid.2.2 _ hmem
  revert hchar
  decide

theorem QueueStatements.mentioned_claim (s : QueueStatements) (n : ℤ)
    (narrowing : Option (Filter V)) :
    mentioned (s.tenancy ++ "USE CONSUMER '" ++ s.worker.text ++ "'; CLAIM " ++ str n ++ " FROM " ++
        s.queue.text ++ whereText narrowing 0 ++ ";") =
      (List.range (whereOperands narrowing).length).map numberName := by
  have hconsumer : Unmarked "USE CONSUMER '" := by decide
  have hclaim : Unmarked "'; CLAIM " := by decide
  have hfrom : Unmarked " FROM " := by decide
  have hclose : Cut ";" := by decide
  have hend : Unmarked ";" := by decide
  have hhead : Unmarked (s.tenancy ++ "USE CONSUMER '" ++ s.worker.text ++ "'; CLAIM " ++ str n ++
      " FROM " ++ s.queue.text) :=
    (((((((unmarked_tenancy _ _).append hconsumer).append s.worker.unmarked).append hclaim).append
      (unmarked_str n)).append hfrom).append s.queue.unmarked)
  rw [List.append_assoc _ (whereText narrowing 0), mentioned_unmarked_append hhead,
    mentioned_append_cut _ hclose, mentioned_unmarked hend, List.append_nil, mentioned_whereText,
    List.range_eq_range']

namespace Built

/-- A `CREATE` that is rendered has checked names, and its script depends on no value. -/
theorem create_eq_ok {table : Str} {identity : Option V} {calls : List (SetCall V)}
    {r : Rendered V} (h : (Built.create table identity calls).rendered = .ok r) :
    ∃ w, Write.build table identity calls = .ok w ∧ (∀ item ∈ w.fields, IsName item.1) ∧
      r = ⟨w.createText, numbered w.bound⟩ := by
  obtain ⟨w, hw, h⟩ := Sequences.bind_eq_ok.mp h
  rw [w.renderCreate_eq] at h
  obtain ⟨fields, hchecked, rfl⟩ := Sequences.map_eq_ok.mp h
  exact ⟨w, hw, named_of_checkedFields hchecked, rfl⟩

/-- An `UPDATE` that is rendered has checked names, and its script depends on no value. -/
theorem update_eq_ok {table : Str} {identity : Option V} {calls : List (SetCall V)}
    {r : Rendered V} (h : (Built.update table identity calls).rendered = .ok r) :
    ∃ w, Write.build table identity calls = .ok w ∧ (∀ item ∈ w.fields, IsName item.1) ∧
      r = ⟨w.updateText, numbered w.bound⟩ := by
  obtain ⟨w, hw, h⟩ := Sequences.bind_eq_ok.mp h
  rw [w.renderUpdate_eq] at h
  obtain ⟨fields, hchecked, h⟩ := Sequences.bind_eq_ok.mp h
  cases hsome : w.identity with
  | none =>
      rw [hsome] at h
      cases h
  | some subject =>
      rw [hsome] at h
      cases h
      exact ⟨w, hw, named_of_checkedFields hchecked, rfl⟩

end Built

/-- **What is bound.** The parameters are the values in order, each under its number, and the
references in the script are those numbers, each once, from left to right. -/
theorem Built.rendered_spec {b : Built V} {r : Rendered V} (h : b.rendered = .ok r) :
    r.parameters = numbered b.bound ∧
      mentioned r.script = (List.range b.bound.length).map numberName := by
  cases b with
  | select table calls =>
      obtain ⟨s, hs, h⟩ := Sequences.bind_eq_ok.mp h
      cases h
      rw [s.render_eq, bound, ← Select.narrowing_of_build hs]
      exact ⟨rfl, s.mentioned_text⟩
  | create table identity calls =>
      obtain ⟨w, hw, hnames, rfl⟩ := create_eq_ok h
      obtain ⟨hidentity, hfields⟩ := Write.of_build hw
      rw [bound, ← hidentity, ← hfields]
      exact ⟨rfl, Write.mentioned_createText hnames⟩
  | update table identity calls =>
      obtain ⟨w, hw, hnames, rfl⟩ := update_eq_ok h
      obtain ⟨hidentity, hfields⟩ := Write.of_build hw
      rw [bound, ← hidentity, ← hfields]
      exact ⟨rfl, Write.mentioned_updateText hnames⟩
  | delete table identity =>
      obtain ⟨d, hd, h⟩ := Sequences.bind_eq_ok.mp h
      obtain ⟨name, -, hd⟩ := Sequences.bind_eq_ok.mp hd
      cases hd
      cases h
      refine ⟨?_, Delete.mentioned_text _⟩
      rw [Delete.render_eq]
      rfl
  | claim inNamespace inDatabase queue worker n narrowing =>
      obtain ⟨s, -, h⟩ := Sequences.bind_eq_ok.mp h
      rw [QueueStatements.claim_eq] at h
      split at h
      · cases h
        exact ⟨rfl, s.mentioned_claim n narrowing⟩
      · cases h

/-! ### Exchanging the values -/

def Rendered.map (f : V → W) (r : Rendered V) : Rendered W :=
  ⟨r.script, Dict.mapValues f r.parameters⟩

def SelectCall.map (f : V → W) : SelectCall V → SelectCall W
  | .field name => .field name
  | .lines name from_ number => .lines name from_ number
  | .narrow filter => .narrow (filter.map f)
  | .orderBy name descending => .orderBy name descending
  | .start n => .start n
  | .limit n => .limit n
  | .staleness span => .staleness span
  | .answeredBy answerer => .answeredBy answerer

def SetCall.map (f : V → W) (call : SetCall V) : SetCall W :=
  ⟨Dict.mapValues f call.fields, Dict.mapValues f call.named⟩

def Select.map (f : V → W) (s : Select V) : Select W :=
  { table := s.table, items := s.items, narrowing := s.narrowing.map (Filter.map f),
    order := s.order, start := s.start, limit := s.limit, staleness := s.staleness,
    answeredBy := s.answeredBy }

def Write.map (f : V → W) (w : Write V) : Write W :=
  ⟨w.table, w.identity.map f, Dict.mapValues f w.fields⟩

namespace Built

/-- The same statement over other values. -/
def map (f : V → W) : Built V → Built W
  | .select table calls => .select table (calls.map (SelectCall.map f))
  | .create table identity calls => .create table (identity.map f) (calls.map (SetCall.map f))
  | .update table identity calls => .update table (identity.map f) (calls.map (SetCall.map f))
  | .delete table identity => .delete table (f identity)
  | .claim inNamespace inDatabase queue worker count narrowing =>
      .claim inNamespace inDatabase queue worker count (narrowing.map (Filter.map f))

/-- What is left of a statement when its values are taken away. -/
def shape (b : Built V) : Built Unit := b.map fun _ => ()

end Built

theorem mapValues_numbered (f : V → W) (values : List V) :
    Dict.mapValues f (numbered values) = numbered (values.map f) := by
  refine List.ext_getElem (by simp [Dict.mapValues, numbered]) fun i hi hi' => ?_
  simp [Dict.mapValues, numbered]

theorem whereText_map (f : V → W) (narrowing : Option (Filter V)) (n : ℕ) :
    whereText (narrowing.map (Filter.map f)) n = whereText narrowing n := by
  cases narrowing with
  | none => rfl
  | some filter => simp [whereText]

theorem whereOperands_map (f : V → W) (narrowing : Option (Filter V)) :
    whereOperands (narrowing.map (Filter.map f)) = (whereOperands narrowing).map f := by
  cases narrowing with
  | none => rfl
  | some filter => simp [whereOperands]

theorem SelectCall.run_map (f : V → W) (call : SelectCall V) (s : Select V) :
    (call.map f).run (s.map f) = (call.run s).map (Select.map f) := by
  cases call with
  | field name =>
      simp only [run, Select.field, Sequences.map_bind]
      rfl
  | lines name from_ number =>
      simp only [run, Select.lines, Sequences.map_bind]
      rfl
  | narrow filter => rfl
  | orderBy name descending =>
      simp only [run, Select.orderBy, Sequences.map_bind]
      rfl
  | start n =>
      simp only [run, Select.startAt, Sequences.map_bind]
      rfl
  | limit n =>
      simp only [run, Select.limitTo, Sequences.map_bind]
      rfl
  | staleness span =>
      simp only [run, Select.stale, Sequences.map_bind]
      rfl
  | answeredBy answerer =>
      simp only [run, Select.answered, Sequences.map_bind]
      rfl

theorem Select.foldlM_map (f : V → W) (calls : List (SelectCall V)) (s : Select V) :
    (calls.map (SelectCall.map f)).foldlM (fun (t : Select W) (call : SelectCall W) => call.run t)
        (s.map f) =
      (calls.foldlM (fun (t : Select V) (call : SelectCall V) => call.run t) s).map
        (Select.map f) := by
  induction calls generalizing s with
  | nil => rfl
  | cons call calls ih =>
      rw [List.map_cons, List.foldlM_cons, List.foldlM_cons, Sequences.map_bind, call.run_map]
      cases call.run s with
      | error e => rfl
      | ok t => exact ih t

theorem Select.build_map (f : V → W) (table : Str) (calls : List (SelectCall V)) :
    Select.build table (calls.map (SelectCall.map f)) =
      (Select.build table calls).map (Select.map f) := by
  rw [Select.build, Select.build, Sequences.map_bind, Select.new, Select.new]
  cases checkName "a table" table with
  | error e => rfl
  | ok name => exact foldlM_map f calls ⟨name, [], none, [], none, none, none, none⟩

theorem Select.render_map (f : V → W) (s : Select V) : (s.map f).render = s.render.map f := by
  rw [render_eq, render_eq, Rendered.map, mapValues_numbered, text, text, map, whereText_map,
    whereOperands_map]
  rfl

theorem SetCall.assignments_map (f : V → W) (calls : List (SetCall V)) :
    SetCall.assignments (calls.map (SetCall.map f)) =
      Dict.mapValues f (SetCall.assignments calls) := by
  induction calls with
  | nil => rfl
  | cons call calls ih =>
      have hcons : assignments (call :: calls) = call.fields ++ call.named ++ assignments calls :=
        rfl
      have hmapped : assignments ((call :: calls).map (SetCall.map f)) =
          Dict.mapValues f call.fields ++ Dict.mapValues f call.named ++
            assignments (calls.map (SetCall.map f)) := rfl
      rw [hcons, hmapped, ih]
      simp [Dict.mapValues]

theorem Write.build_map (f : V → W) (table : Str) (identity : Option V)
    (calls : List (SetCall V)) :
    Write.build table (identity.map f) (calls.map (SetCall.map f)) =
      (Write.build table identity calls).map (Write.map f) := by
  rw [Write.build, Write.build, Write.new, Write.new]
  cases checkName "a table" table with
  | error e => rfl
  | ok name =>
      have hfields : ∀ w : Write V, (calls.map (SetCall.map f)).foldl (fun w call => w.set call)
          (w.map f) = (calls.foldl (fun w call => w.set call) w).map f := by
        intro w
        rw [Write.foldl_set, Write.foldl_set, SetCall.assignments_map, Write.map, Write.map,
          Dict.mapValues_foldl_set]
      exact congrArg Except.ok (hfields ⟨name, identity, []⟩)

theorem checkedFields_map (f : V → W) (items : List (Str × V)) {γ : Type} (c : γ) :
    (checkedFields (Dict.mapValues f items)).map (fun _ => c) =
      (checkedFields items).map fun _ => c := by
  have hfind : (Dict.mapValues f items).find? (fun item => ¬ IsName item.1) =
      (items.find? fun item => ¬ IsName item.1).map fun item => (item.1, f item.2) := by
    rw [Dict.mapValues, List.find?_map]
    rfl
  rw [checkedFields, checkedFields]
  by_cases hnil : items = []
  · rw [if_pos hnil, if_pos (by rw [hnil]; rfl)]
    rfl
  · rw [if_neg hnil, if_neg (by simpa [Dict.mapValues] using hnil)]
    split
    · next item h =>
      rw [hfind] at h
      obtain ⟨other, hother, rfl⟩ := Option.map_eq_some_iff.mp h
      split
      · next item' h' =>
        rw [hother] at h'
        cases h'
        rfl
      · next h' =>
        rw [hother] at h'
        cases h'
    · next h =>
      rw [hfind, Option.map_eq_none_iff] at h
      split
      · next item' h' =>
        rw [h] at h'
        cases h'
      · rfl

theorem Write.texts_map (f : V → W) (w : Write V) :
    (w.map f).createText = w.createText ∧ (w.map f).updateText = w.updateText ∧
      (w.map f).bound = w.bound.map f := by
  obtain ⟨table, identity, items⟩ := w
  have hkeys : Dict.keys (Dict.sorted (Dict.mapValues f items)) = Dict.keys (Dict.sorted items) := by
    rw [Dict.sorted_mapValues, Dict.keys_mapValues]
  have hvalues : (Dict.sorted (Dict.mapValues f items)).map Prod.snd =
      ((Dict.sorted items).map Prod.snd).map f := by
    rw [Dict.sorted_mapValues, Dict.values_mapValues]
  cases identity with
  | none | some subject =>
      refine ⟨?_, ?_, ?_⟩
      · simp only [createText, subjectText, assignedText, map, hkeys]
        rfl
      · simp only [updateText, subjectText, assignedText, map, hkeys]
        rfl
      · rw [bound, bound, List.map_append, ← hvalues]
        rfl

theorem Write.renderCreate_map (f : V → W) (w : Write V) :
    (w.map f).renderCreate = w.renderCreate.map (Rendered.map f) := by
  obtain ⟨hcreate, -, hbound⟩ := w.texts_map f
  rw [renderCreate_eq, renderCreate_eq, hcreate, hbound, ← mapValues_numbered]
  refine (checkedFields_map f w.fields _).trans ?_
  cases checkedFields w.fields <;> rfl

theorem Write.renderUpdate_map (f : V → W) (w : Write V) :
    (w.map f).renderUpdate = w.renderUpdate.map (Rendered.map f) := by
  obtain ⟨-, hupdate, hbound⟩ := w.texts_map f
  have hchecked := checkedFields_map f w.fields ()
  have hfields : (w.map f).fields = Dict.mapValues f w.fields := rfl
  have hidentity : (w.map f).identity = w.identity.map f := rfl
  rw [renderUpdate_eq, renderUpdate_eq, hupdate, hbound, ← mapValues_numbered, hfields, hidentity]
  cases hmapped : checkedFields (Dict.mapValues f w.fields) with
  | error e =>
      rw [hmapped] at hchecked
      cases hplain : checkedFields w.fields with
      | error e' =>
          rw [hplain] at hchecked
          cases hchecked
          rfl
      | ok fields =>
          rw [hplain] at hchecked
          cases hchecked
  | ok fields =>
      rw [hmapped] at hchecked
      cases hplain : checkedFields w.fields with
      | error e' =>
          rw [hplain] at hchecked
          cases hchecked
      | ok fields =>
          cases w.identity <;> rfl

theorem QueueStatements.claim_map (f : V → W) (s : QueueStatements) (n : ℤ)
    (narrowing : Option (Filter V)) :
    s.claim n (narrowing.map (Filter.map f)) = (s.claim n narrowing).map (Rendered.map f) := by
  rw [claim_eq, claim_eq, whereText_map, whereOperands_map, ← mapValues_numbered]
  split <;> rfl

/-- **Rendering commutes with exchanging the values.** -/
theorem Built.rendered_map (f : V → W) (b : Built V) :
    (b.map f).rendered = b.rendered.map (Rendered.map f) := by
  cases b with
  | select table calls =>
      simp only [map, rendered, Select.build_map, Sequences.map_bind]
      cases Select.build table calls with
      | error e => rfl
      | ok s => exact congrArg Except.ok (s.render_map f)
  | create table identity calls =>
      simp only [map, rendered, Write.build_map, Sequences.map_bind]
      cases Write.build table identity calls with
      | error e => rfl
      | ok w => exact w.renderCreate_map f
  | update table identity calls =>
      simp only [map, rendered, Write.build_map, Sequences.map_bind]
      cases Write.build table identity calls with
      | error e => rfl
      | ok w => exact w.renderUpdate_map f
  | delete table identity =>
      simp only [map, rendered, Delete.new, Sequences.map_bind]
      cases checkName "a table" table with
      | error e => rfl
      | ok name => rfl
  | claim inNamespace inDatabase queue worker n narrowing =>
      simp only [map, rendered, Sequences.map_bind]
      cases QueueStatements.new inNamespace inDatabase queue worker with
      | error e => rfl
      | ok s => exact s.claim_map f n narrowing

/-! ### The whole -/

/-- **Values stay out of the text.** Of a statement the builder accepts, every other of the same
shape is accepted and rendered as the same script; the references of the script are the
numbers from zero on, in order and each once; these are the names of the parameters; and under
each number stands the value at that place. -/
theorem values_stay_out_of_the_text {b : Built V} {r : Rendered V} (h : b.rendered = .ok r) :
    (∀ b' : Built V, b'.shape = b.shape →
      ∃ r', b'.rendered = .ok r' ∧ r'.script = r.script) ∧
    mentioned r.script = (List.range b.bound.length).map numberName ∧
    (mentioned r.script).Nodup ∧
    Dict.keys r.parameters = (List.range b.bound.length).map numberName ∧
    ∀ (i : ℕ) (value : V), b.bound[i]? = some value →
      Dict.get? r.parameters (numberName i) = some value := by
  obtain ⟨hparameters, hmentioned⟩ := Built.rendered_spec h
  have hnodup : ((List.range b.bound.length).map numberName).Nodup :=
    List.nodup_range.map fun _ _ => numberName_injective
  refine ⟨fun b' hshape => ?_, hmentioned, hmentioned ▸ hnodup, ?_, fun i value hi => ?_⟩
  · have hmapped := b'.rendered_map fun _ => ()
    rw [← Built.shape, hshape, Built.shape, Built.rendered_map, h] at hmapped
    obtain ⟨r', hr', heq⟩ := Sequences.map_eq_ok.mp hmapped.symm
    exact ⟨r', hr', congrArg (fun q : Rendered Unit => q.script) heq⟩
  · rw [hparameters, keys_numbered]
  · rw [hparameters]
    refine Dict.get?_of_mem (by rw [Dict.Keyed, keys_numbered]; exact hnodup) ?_
    obtain ⟨hlt, rfl⟩ := List.getElem?_eq_some_iff.mp hi
    exact List.mem_mapIdx.mpr ⟨i, hlt, rfl⟩

/-- A record created with an identity and two fields, and the same with other values. -/
theorem values_stay_out_of_a_create :
    (∃ r', Built.rendered (.create "t" (some 8) [⟨[("b", 0), ("a", 0)], []⟩]) = .ok r' ∧
      r'.script = "CREATE t:$p0 = \x7b a: $p1, b: $p2 \x7d;") ∧
    mentioned "CREATE t:$p0 = \x7b a: $p1, b: $p2 \x7d;" =
      [ofString "p0", ofString "p1", ofString "p2"] := by
  obtain ⟨hsame, hmentioned, -⟩ := values_stay_out_of_the_text
    (b := .create "t" (some 7) [⟨[("b", 2), ("a", 1)], []⟩])
    (r := ⟨"CREATE t:$p0 = \x7b a: $p1, b: $p2 \x7d;", [("p0", 7), ("p1", 1), ("p2", 2)]⟩)
    (by decide)
  exact ⟨hsame (.create "t" (some 8) [⟨[("b", 0), ("a", 0)], []⟩]) rfl,
    hmentioned.trans (by decide)⟩

end TessariDB
