import TessariDB.Bodies
import TessariDB.Handles
import TessariDB.Statement

/-!
# The Order Fields Are Given In

Fields reach a write by any number of calls, each with a mapping and keywords, and a vault's
write by one mapping. What is rendered of them depends on the field-to-value mapping they come
to, and on nothing of the order they came in: the names are sorted before the first value is
bound.

Two writes that are both refused may be refused for different names, the first of each that is
none.

## Main results

* `Write.get?_build`: after any calls a field holds what the last assignment to it gave.
* `field_order_never_matters`: one mapping, one request.
-/

namespace TessariDB

open Utf8

variable {V : Type}

/-! ### What the calls come to -/

/-- The field-to-value mapping a sequence of calls ends in: the last assignment counts. -/
def SetCall.mapping (calls : List (SetCall V)) (field : Str) : Option V :=
  ((SetCall.assignments calls).reverse.find? fun item => item.1 = field).map Prod.snd

/-- What is found after assigning pair after pair is the last pair of that key. -/
theorem get?_ofPairs (pairs : List (Str × V)) (key : Str) :
    Dict.get? (Dict.ofPairs pairs) key =
      (pairs.reverse.find? fun item => item.1 = key).map Prod.snd := by
  induction pairs using List.reverseRecOn with
  | nil => rfl
  | append_singleton pairs pair ih =>
      rw [Dict.ofPairs_concat, Dict.get?_set, List.reverse_append, List.reverse_singleton,
        List.singleton_append, List.find?_cons]
      by_cases h : pair.1 = key
      · simp [h]
      · simp [h, Ne.symm h, ih]

namespace Write

/-- **After any calls** a field holds what the last assignment to it gave. -/
theorem get?_build {table : Str} {identity : Option V} {calls : List (SetCall V)} {w : Write V}
    (h : build table identity calls = .ok w) (field : Str) :
    Dict.get? w.fields field = SetCall.mapping calls field := by
  rw [build_eq] at h
  obtain ⟨table, -, rfl⟩ := Sequences.map_eq_ok.mp h
  exact get?_ofPairs _ field

/-- Two writes of one table and identity whose fields come to one mapping. -/
structure Same (w w' : Write V) : Prop where
  table : w.table = w'.table
  identity : w.identity = w'.identity
  keyed : Dict.Keyed w.fields
  perm : w.fields.Perm w'.fields

variable {w w' : Write V}

theorem Same.sorted (h : w.Same w') : Dict.sorted w.fields = Dict.sorted w'.fields :=
  Dict.sorted_eq_of_perm h.keyed h.perm

theorem Same.createText (h : w.Same w') : w.createText = w'.createText := by
  simp only [Write.createText, subjectText, assignedText, h.table, h.identity, h.sorted]

theorem Same.updateText (h : w.Same w') : w.updateText = w'.updateText := by
  simp only [Write.updateText, subjectText, assignedText, h.table, h.identity, h.sorted]

theorem Same.bound (h : w.Same w') : w.bound = w'.bound := by
  rw [Write.bound, Write.bound, h.identity, h.sorted]

end Write

/-! ### Renderings alike -/

/-- Both refused, or one script with one list of parameters, and so one request body whatever
the request presents. -/
def Alike : Except Rejected (Rendered Value) → Except Rejected (Rendered Value) → Prop
  | .error _, .error _ => True
  | .ok r, .ok r' =>
      r.script = r'.script ∧ r.parameters = r'.parameters ∧
        ∀ credentials, requestBody r.script credentials r.parameters =
          requestBody r'.script credentials r'.parameters
  | _, _ => False

namespace Alike

theorem refl : ∀ x : Except Rejected (Rendered Value), Alike x x
  | .error _ => trivial
  | .ok _ => ⟨rfl, rfl, fun _ => rfl⟩

/-- What follows two checks that pass or fail together. -/
theorem bind {α : Type} {x y : Except Rejected α}
    {f g : α → Except Rejected (Rendered Value)} (hxy : (∃ a, x = .ok a) ↔ ∃ b, y = .ok b)
    (hfg : ∀ a b, x = .ok a → y = .ok b → Alike (f a) (g b)) : Alike (x >>= f) (y >>= g) := by
  cases x with
  | error e =>
      cases y with
      | error e' => trivial
      | ok b =>
          obtain ⟨a, ha⟩ := hxy.mpr ⟨b, rfl⟩
          cases ha
  | ok a =>
      cases y with
      | error e' =>
          obtain ⟨b, hb⟩ := hxy.mp ⟨a, rfl⟩
          cases hb
      | ok b => exact hfg a b rfl rfl

end Alike

/-- The check of the fields passes whatever order they are in. -/
theorem Write.Same.checked {w w' : Write V} (h : w.Same w') :
    (∃ fields, checkedFields w.fields = .ok fields) ↔
      ∃ fields, checkedFields w'.fields = .ok fields := by
  have hnil : w.fields = [] ↔ w'.fields = [] := by
    rw [← List.length_eq_zero_iff, ← List.length_eq_zero_iff, h.perm.length_eq]
  rw [checkedFields_ok_iff, checkedFields_ok_iff, Ne, hnil]
  simp only [h.perm.mem_iff]

theorem Write.alike_create {w w' : Write Value} (h : w.Same w') :
    Alike w.renderCreate w'.renderCreate := by
  rw [renderCreate_eq, renderCreate_eq, h.createText, h.bound]
  exact Alike.bind h.checked fun _ _ _ _ => Alike.refl (.ok _)

theorem Write.alike_update {w w' : Write Value} (h : w.Same w') :
    Alike w.renderUpdate w'.renderUpdate := by
  rw [renderUpdate_eq, renderUpdate_eq, h.updateText, h.bound, h.identity]
  exact Alike.bind h.checked fun _ _ _ _ => Alike.refl _

theorem VaultStatements.alike_write (s : VaultStatements) (record : Value)
    {fields fields' : List (Str × Value)} (hkeyed : Dict.Keyed fields)
    (hperm : fields.Perm fields') : Alike (s.write record fields) (s.write record fields') := by
  have hnil : fields = [] ↔ fields' = [] := by
    rw [← List.length_eq_zero_iff, ← List.length_eq_zero_iff, hperm.length_eq]
  have hnames : (∃ checked, checkFieldNames (Dict.keys fields) = .ok checked) ↔
      ∃ checked, checkFieldNames (Dict.keys fields') = .ok checked := by
    simp only [checkFieldNames_ok_iff, (hperm.map Prod.fst).mem_iff, Dict.keys]
  rw [write, write, Dict.sorted_eq_of_perm hkeyed hperm]
  by_cases hempty : fields = []
  · rw [if_pos hempty, if_pos (hnil.mp hempty)]
    trivial
  · rw [if_neg hempty, if_neg (mt hnil.mpr hempty)]
    exact Alike.bind hnames fun _ _ _ _ => Alike.refl (.ok _)

/-- Two sequences of calls that end in one mapping build one write, or neither does. -/
theorem Write.alike_build (table : Str) (identity : Option Value)
    {calls calls' : List (SetCall Value)} (h : SetCall.mapping calls = SetCall.mapping calls')
    {f : Write Value → Except Rejected (Rendered Value)}
    (hf : ∀ w w', w.Same w' → Alike (f w) (f w')) :
    Alike (build table identity calls >>= f) (build table identity calls' >>= f) := by
  rw [build_eq, build_eq]
  cases checkName "a table" table with
  | error _ => trivial
  | ok table =>
      refine hf _ _ ⟨rfl, rfl, Dict.keyed_ofPairs _, ?_⟩
      refine Dict.perm_of_get? (Dict.keyed_ofPairs _) (Dict.keyed_ofPairs _) fun field => ?_
      rw [get?_ofPairs, get?_ofPairs]
      exact congrFun h field

/-- **The order fields are given in never matters.** Sequences of calls that end in one
field-to-value mapping give one `CREATE` and one `UPDATE`, and a vault writes two mappings with
the same entries alike: both are refused, or the script, the parameters and their order, and so
the request body, are the same. -/
theorem field_order_never_matters (table : Str) (identity : Option Value)
    {calls calls' : List (SetCall Value)} (h : SetCall.mapping calls = SetCall.mapping calls')
    (s : VaultStatements) (record : Value) {fields fields' : List (Str × Value)}
    (hkeyed : Dict.Keyed fields) (hperm : fields.Perm fields') :
    Alike (Write.build table identity calls >>= Write.renderCreate)
        (Write.build table identity calls' >>= Write.renderCreate) ∧
      Alike (Write.build table identity calls >>= Write.renderUpdate)
        (Write.build table identity calls' >>= Write.renderUpdate) ∧
      Alike (s.write record fields) (s.write record fields') :=
  ⟨Write.alike_build table identity h fun _ _ => Write.alike_create,
    Write.alike_build table identity h fun _ _ => Write.alike_update,
    s.alike_write record hkeyed hperm⟩

/-- A mapping of two fields, and the same by keywords in the other order with one set twice. -/
theorem field_order_never_matters_twice :
    Alike
      (Write.build "t" none [⟨[(ofString "a", .bool true), (ofString "b", .noneValue)], []⟩] >>=
        Write.renderCreate)
      (Write.build "t" none [⟨[], [(ofString "b", .noneValue), (ofString "a", .noneValue)]⟩,
        ⟨[], [(ofString "a", .bool true)]⟩] >>= Write.renderCreate) := by
  have hne : ofString "a" ≠ ofString "b" := by decide
  have hmapping : SetCall.mapping
      [⟨[(ofString "a", Value.bool true), (ofString "b", .noneValue)], []⟩] =
        SetCall.mapping [⟨[], [(ofString "b", .noneValue), (ofString "a", .noneValue)]⟩,
          ⟨[], [(ofString "a", .bool true)]⟩] := by
    funext field
    simp only [SetCall.mapping, SetCall.assignments, List.flatMap_cons, List.flatMap_nil,
      List.append_nil, List.nil_append, List.cons_append, List.reverse_cons, List.reverse_nil,
      List.find?_cons]
    by_cases ha : ofString "a" = field
    · simp [← ha, hne.symm]
    · simp [ha]
  have hkeyed : Dict.Keyed [(ofString "a", Value.bool true), (ofString "b", .noneValue)] := by
    simp [Dict.Keyed, hne]
  exact (field_order_never_matters "t" none hmapping
    ⟨⟨"n", by decide⟩, ⟨"d", by decide⟩, ⟨"v", by decide⟩⟩ (.integer 7) hkeyed
    (.swap (ofString "b", Value.noneValue) (ofString "a", .bool true) [])).1

end TessariDB
