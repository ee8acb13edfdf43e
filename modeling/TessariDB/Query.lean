import TessariDB.Dict
import TessariDB.References
import TessariDB.Sequences
import TessariDB.Text

/-!
# The Query Builder

`query.py`: the names and spans that may be written into a statement, the filter tree, and the
binder that numbers values while a statement is rendered. Values are of any type: the builder
never looks at one.

A name that was checked is a `Name`, a span a `Span`, and so on: the check is where such a
value comes from, and what is built from it needs no second one.

## Main results

* `Filter.render_eq`: a filter is rendered into its text, which depends on its shape alone, and
  binds its operands from left to right.
* `written_eq`: the same of the fields of an object.
-/

namespace TessariDB

open Utf8 Text References

/-! ### Refusals -/

/-- Why a statement is refused before it is sent. -/
inductive Reason where
  | notAName
  | notASpan
  | notACount
  | notAnAnswerer
  | incomplete
  deriving DecidableEq, Repr

/-- A statement the builder will not render; `what` names the position. -/
structure BuilderError where
  reason : Reason
  what : String
  name : Str
  deriving DecidableEq, Repr

/-- What a call that renders a statement raises. `noMember` is the `ValueError` of a word no
operator has, `notFinite` what `int` raises of a float that is no number. -/
inductive Rejected where
  | builderError (why : BuilderError)
  | valueError (message : Str)
  | noMember (word : Str)
  | notFinite
  | notACacheArgument (message : String)
  | notAVaultArgument (reason message : String)
  deriving DecidableEq, Repr

/-! ### References in a script -/

/-- The parameters a script mentions, left to right. -/
def mentioned (script : Str) : List Str :=
  references (codePoint 0x24) (fun c => decide (IsWord c)) script

/-- Holds no `$`. -/
abbrev Unmarked (s : Str) : Prop := Plain (codePoint 0x24) s

/-- Whatever follows is no part of a reference. -/
abbrev Apart (s : Str) : Prop := Sealed (codePoint 0x24) (fun c => decide (IsWord c)) s

/-- Does not go on with a name. -/
abbrev Cut (s : Str) : Prop := Break (fun c => decide (IsWord c)) s

/-- Text that is name characters only, as a test that can be run. -/
theorem words_of_all {s : Str} (h : (s.all fun c => decide (IsWord c)) = true) :
    ∀ c ∈ s, IsWord c := fun c hc => of_decide_eq_true (List.all_eq_true.mp h c hc)

theorem unmarked_of_words {s : Str} (h : ∀ c ∈ s, IsWord c) : Unmarked s :=
  have hname : ∀ c ∈ s, decide (IsWord c) = true := fun c hc => decide_eq_true (h c hc)
  plain_of_name (by decide) hname

theorem mentioned_unmarked {s : Str} (h : Unmarked s) : mentioned s = [] :=
  references_of_plain h

theorem mentioned_unmarked_append {s : Str} (h : Unmarked s) (b : Str) :
    mentioned (s ++ b) = mentioned b :=
  references_plain_append h b

theorem mentioned_append {s : Str} (h : Apart s) (b : Str) :
    mentioned (s ++ b) = mentioned s ++ mentioned b :=
  references_append h b

theorem mentioned_append_cut (s : Str) {b : Str} (h : Cut b) :
    mentioned (s ++ b) = mentioned s ++ mentioned b :=
  references_append_break s h

/-- A reference on its own. -/
theorem mentioned_reference {name : Str} (h : ∀ c ∈ name, IsWord c) :
    mentioned ("$" ++ name) = [name] :=
  references_mark (by decide) fun c hc => decide_eq_true (h c hc)

/-- Parts with a separator between them that is no part of a name. -/
theorem mentioned_join {sep : Str} (hunmarked : Unmarked sep) (hcut : Cut sep) (hne : sep ≠ [])
    (parts : List Str) : mentioned (join sep parts) = parts.flatMap mentioned := by
  induction parts with
  | nil => rfl
  | cons part parts ih =>
      cases parts with
      | nil => simp [join]
      | cons other parts =>
          rw [join_cons_cons, List.append_assoc, mentioned_append_cut _ (hcut.append hne _),
            mentioned_unmarked_append hunmarked, ih, ← List.flatMap_cons]

/-! ### Names -/

/-- `check_name` passes: a letter or an underscore, then letters, digits and underscores. -/
def IsName : Str → Prop
  | [] => False
  | c :: rest => IsLetter c ∧ ∀ d ∈ rest, IsWord d

instance : ∀ s, Decidable (IsName s)
  | [] => inferInstanceAs (Decidable False)
  | c :: rest =>
      haveI : Decidable (∀ d ∈ rest, IsWord d) := List.decidableBAll IsWord rest
      inferInstanceAs (Decidable (IsLetter c ∧ ∀ d ∈ rest, IsWord d))

/-- A name that was checked. -/
structure Name where
  text : Str
  valid : IsName text
  deriving DecidableEq

/-- `check_name`. -/
def checkName (what : String) (name : Str) : Except Rejected Name :=
  if h : IsName name then .ok ⟨name, h⟩ else .error (.builderError ⟨.notAName, what, name⟩)

theorem checkName_ok_iff {what : String} {text : Str} :
    (∃ name, checkName what text = .ok name) ↔ IsName text := by
  by_cases h : IsName text <;> simp [checkName, h]

theorem Name.words (name : Name) : ∀ c ∈ name.text, IsWord c := by
  obtain ⟨_ | ⟨c, rest⟩, hvalid⟩ := name
  · cases hvalid
  · intro d hd
    rcases List.mem_cons.mp hd with rfl | hd
    · exact .inl hvalid.1
    · exact hvalid.2 d hd

theorem Name.unmarked (name : Name) : Unmarked name.text := unmarked_of_words name.words

/-! ### Spans and answerers -/

def SPAN_UNITS : List String := ["ns", "us", "ms", "s", "m", "h", "d", "w"]

/-- One turn of the loop of `check_span`: digits and the longest unit after them are taken
off. -/
def spanTurn (rest : Str) : Option Str :=
  if rest.takeWhile (fun c => decide (IsDigit c)) = [] then none
  else
    let units := SPAN_UNITS.insertionSort fun u v => v.length ≤ u.length
    let rest := rest.dropWhile fun c => decide (IsDigit c)
    (units.find? fun u => (ofString u).isPrefixOf rest).map fun u => rest.drop (ofString u).length

/-- The loop of `check_span`, with at most `fuel` turns. -/
def spanLoop : ℕ → Bool → Str → Bool
  | _, seen, [] => seen
  | 0, _, _ :: _ => false
  | fuel + 1, _, c :: rest =>
      match spanTurn (c :: rest) with
      | some rest => spanLoop fuel true rest
      | none => false

/-- `check_span` passes. -/
def IsSpan (text : Str) : Prop := spanLoop text.length false text = true

instance (text : Str) : Decidable (IsSpan text) := inferInstanceAs (Decidable (_ = true))

/-- A span that was checked. -/
structure Span where
  text : Str
  valid : IsSpan text

/-- `check_span`. -/
def checkSpan (text : Str) : Except Rejected Span :=
  if h : IsSpan text then .ok ⟨text, h⟩
  else .error (.builderError ⟨.notASpan, "a staleness bound", text⟩)

theorem words_of_unit {u : String} (hu : u ∈ SPAN_UNITS) : ∀ c ∈ ofString u, IsWord c := by
  have hall : (SPAN_UNITS.all fun u => (ofString u).all fun c => decide (IsWord c)) = true := by
    decide
  exact words_of_all (List.all_eq_true.mp hall u hu)

/-- What one turn takes off is digits and letters. -/
theorem words_of_spanTurn {rest left : Str} (h : spanTurn rest = some left)
    (hleft : ∀ c ∈ left, IsWord c) : ∀ c ∈ rest, IsWord c := by
  rw [spanTurn] at h
  split at h
  · cases h
  · obtain ⟨u, hfind, rfl⟩ := Option.map_eq_some_iff.mp h
    have hunit : u ∈ SPAN_UNITS :=
      (List.perm_insertionSort _ SPAN_UNITS).mem_iff.mp (List.mem_of_find?_eq_some hfind)
    have hprefix := @List.find?_some _ (fun u => (ofString u).isPrefixOf _) _ _ hfind
    obtain ⟨tail, htail⟩ := List.isPrefixOf_iff_prefix.mp hprefix
    rw [← htail, List.drop_left] at hleft
    intro c hc
    rw [← List.takeWhile_append_dropWhile (p := fun c => decide (IsDigit c)) (l := rest),
      ← htail, List.mem_append, List.mem_append] at hc
    rcases hc with hc | hc | hc
    · exact .inr (of_decide_eq_true (List.mem_takeWhile_imp (p := fun c => decide (IsDigit c)) hc))
    · exact words_of_unit hunit c hc
    · exact hleft c hc

theorem words_of_spanLoop : ∀ (fuel : ℕ) (seen : Bool) (text : Str),
    spanLoop fuel seen text = true → ∀ c ∈ text, IsWord c
  | _, _, [], _ => List.forall_mem_nil _
  | 0, _, _ :: _, h => by cases h
  | fuel + 1, _, c :: rest, h => by
      rw [spanLoop] at h
      split at h
      · next hturn => exact words_of_spanTurn hturn (words_of_spanLoop fuel true _ h)
      · cases h

theorem Span.words (span : Span) : ∀ c ∈ span.text, IsWord c :=
  words_of_spanLoop _ _ _ span.valid

/-- Where an answer must come from. -/
inductive Answerer where
  | any
  | leader
  deriving DecidableEq, Repr

def Answerer.word : Answerer → Str
  | .any => "ANY"
  | .leader => "LEADER"

/-- `check_answerer`. -/
def checkAnswerer (word : Str) : Except Rejected Answerer :=
  if word = "ANY" then .ok .any
  else if word = "LEADER" then .ok .leader
  else .error (.builderError ⟨.notAnAnswerer, "an answerer", word⟩)

/-! ### Binding -/

/-- The statement and the values that travel beside it. -/
structure Rendered (V : Type) where
  script : Str
  parameters : List (Str × V)
  deriving DecidableEq, Repr

/-- `Binder`: the parameters bound so far. -/
abbrev Binder (V : Type) := List (Str × V)

variable {V : Type}

/-- The name the value at a place is bound under. -/
def numberName (n : ℕ) : Str := "p" ++ digits n

/-- `Binder.bind`. -/
def bind (value : V) : StateM (Binder V) Str := fun parameters =>
  let reference := numberName parameters.length
  ("$" ++ reference, Dict.set parameters reference value)

/-- The parameters of a list of values bound in order. -/
def numbered (values : List V) : Binder V :=
  values.mapIdx fun i value => (numberName i, value)

theorem numberName_injective {m n : ℕ} (h : numberName m = numberName n) : m = n :=
  digits_injective (List.append_cancel_left h)

theorem numberName_words (n : ℕ) : ∀ c ∈ numberName n, IsWord c := by
  intro c hc
  rcases List.mem_append.mp hc with hc | hc
  · exact words_of_all (by decide) c hc
  · exact .inr (isDigit_of_mem_digits c hc)

@[simp] theorem length_numbered (values : List V) : (numbered values).length = values.length := by
  simp [numbered]

theorem keys_numbered (values : List V) :
    Dict.keys (numbered values) = (List.range values.length).map numberName := by
  refine List.ext_getElem (by simp [Dict.keys, numbered]) fun i hi hi' => ?_
  simp [Dict.keys, numbered]

/-- Binding after `values` takes the next number. -/
theorem bind_numbered (values : List V) (value : V) :
    bind value (numbered values) =
      ("$" ++ numberName values.length, numbered (values ++ [value])) := by
  have hnew : numberName values.length ∉ Dict.keys (numbered values) := by
    rw [keys_numbered]
    intro hmem
    obtain ⟨i, hi, heq⟩ := List.mem_map.mp hmem
    exact absurd (numberName_injective heq) (by have := List.mem_range.mp hi; omega)
  simp only [bind, length_numbered, Dict.set_of_notMem hnew]
  simp [numbered]

/-! ### Filters -/

/-- The six comparisons. -/
inductive Operator where
  | eq
  | ne
  | lt
  | le
  | gt
  | ge
  deriving DecidableEq, Repr

def Operator.value : Operator → Str
  | .eq => "="
  | .ne => "!="
  | .lt => "<"
  | .le => "<="
  | .gt => ">"
  | .ge => ">="

/-- `Operator(word)`. -/
def Operator.ofValue (word : Str) : Except Rejected Operator :=
  match [Operator.eq, .ne, .lt, .le, .gt, .ge].find? (·.value = word) with
  | some operator => .ok operator
  | none => .error (.noMember word)

/-- The word between the two sides of a junction. -/
inductive Junction where
  | and
  | or
  deriving DecidableEq, Repr

def Junction.word : Junction → Str
  | .and => "AND"
  | .or => "OR"

/-- A `WHERE` tree. -/
inductive Filter (V : Type) where
  | comparison (field : Name) (operator : Operator) (value : V)
  | junction (word : Junction) (left right : Filter V)

/-- `compare`; the operator is one, or the word of one. -/
def compare (field : Str) (operator : Operator ⊕ Str) (value : V) : Except Rejected (Filter V) := do
  let field ← checkName "a field" field
  let operator ← operator.elim .ok Operator.ofValue
  return .comparison field operator value

namespace Filter

/-- `Filter.__and__`. -/
def and (left right : Filter V) : Filter V := .junction .and left right

/-- `Filter.__or__`. -/
def or (left right : Filter V) : Filter V := .junction .or left right

/-- `_render`. -/
def render : Filter V → StateM (Binder V) Str
  | .comparison field operator value => do
      let reference ← bind value
      return field.text ++ " " ++ operator.value ++ " " ++ reference
  | .junction word left right => do
      let left ← left.render
      let right ← right.render
      return "(" ++ left ++ " " ++ word.word ++ " " ++ right ++ ")"

/-- The same tree over other operands. -/
def map {W : Type} (f : V → W) : Filter V → Filter W
  | .comparison field operator value => .comparison field operator (f value)
  | .junction word left right => .junction word (left.map f) (right.map f)

/-- The operands, depth first and from left to right. -/
def operands : Filter V → List V
  | .comparison _ _ value => [value]
  | .junction _ left right => left.operands ++ right.operands

/-- The text of a tree whose first operand takes the number `n`. -/
def text : Filter V → ℕ → Str
  | .comparison field operator _, n =>
      field.text ++ " " ++ operator.value ++ " " ++ ("$" ++ numberName n)
  | .junction word left right, n =>
      "(" ++ left.text n ++ " " ++ word.word ++ " " ++ right.text (n + left.operands.length) ++ ")"

/-- **Rendering a filter.** Its text is written, and its operands are bound in order. -/
theorem render_eq (filter : Filter V) (values : List V) :
    filter.render (numbered values) =
      (filter.text values.length, numbered (values ++ filter.operands)) := by
  induction filter generalizing values with
  | comparison field operator value =>
      simp only [render, StateT.bind, Bind.bind, bind_numbered]
      rfl
  | junction word left right ihl ihr =>
      simp only [render, StateT.bind, Bind.bind, ihl, ihr, List.length_append]
      rw [operands, ← List.append_assoc]
      rfl

@[simp] theorem operands_map {W : Type} (f : V → W) (filter : Filter V) :
    (filter.map f).operands = filter.operands.map f := by
  induction filter with
  | comparison _ _ _ => rfl
  | junction _ _ _ ihl ihr => simp [map, operands, ihl, ihr]

/-- The text says nothing about the operands. -/
@[simp] theorem text_map {W : Type} (f : V → W) (filter : Filter V) (n : ℕ) :
    (filter.map f).text n = filter.text n := by
  induction filter generalizing n with
  | comparison _ _ _ => rfl
  | junction _ _ _ ihl ihr => simp [map, text, ihl, ihr]

theorem unmarked_operator (operator : Operator) : Unmarked operator.value := by
  cases operator <;> decide

theorem unmarked_word (word : Junction) : Unmarked word.word := by
  cases word <;> decide

/-- The references in the text are the numbers of the operands, in order. -/
theorem mentioned_text (filter : Filter V) (n : ℕ) :
    mentioned (filter.text n) = (List.range' n filter.operands.length).map numberName := by
  induction filter generalizing n with
  | comparison field operator value =>
      have hbefore : Unmarked (field.text ++ " " ++ operator.value ++ " ") :=
        ((field.unmarked.append (by decide)).append (unmarked_operator operator)).append
          (by decide)
      rw [text, mentioned_unmarked_append hbefore, mentioned_reference (numberName_words n)]
      rfl
  | junction word left right ihl ihr =>
      have hword : Unmarked (ofString " " ++ word.word ++ ofString " ") :=
        (Plain.append (by decide) (unmarked_word word)).append (by decide)
      have hcut : Cut (ofString " " ++ word.word ++ ofString " ") := by
        cases word <;> decide
      have hclose : Unmarked ")" := by decide
      have hsplit : (junction word left right).text n = ofString "(" ++ (left.text n ++
          ((ofString " " ++ word.word ++ ofString " ") ++
            (right.text (n + left.operands.length) ++ ofString ")"))) := by
        simp only [text, List.append_assoc]
      rw [hsplit, mentioned_unmarked_append (by decide),
        mentioned_append_cut _ (hcut.append (by cases word <;> decide) _),
        mentioned_unmarked_append hword, mentioned_append_cut _ (by decide),
        mentioned_unmarked hclose, List.append_nil, ihl, ihr, ← List.map_append,
        operands, List.length_append, List.range'_append_1]

end Filter

/-- The `WHERE` of a statement, or nothing. -/
def renderWhere : Option (Filter V) → StateM (Binder V) Str
  | none => pure []
  | some filter => do
      let text ← filter.render
      return " WHERE " ++ text

/-- The text of a `WHERE` whose first operand takes the number `n`. -/
def whereText (filter : Option (Filter V)) (n : ℕ) : Str :=
  filter.elim [] fun filter => " WHERE " ++ filter.text n

/-- The operands of a filter, if there is one. -/
def whereOperands (filter : Option (Filter V)) : List V := filter.elim [] Filter.operands

theorem renderWhere_eq (filter : Option (Filter V)) (values : List V) :
    renderWhere filter (numbered values) =
      (whereText filter values.length, numbered (values ++ whereOperands filter)) := by
  cases filter with
  | none =>
      rw [whereOperands, Option.elim_none, List.append_nil]
      rfl
  | some filter =>
      simp only [renderWhere, StateT.bind, Bind.bind, Filter.render_eq]
      rfl

theorem mentioned_whereText (filter : Option (Filter V)) (n : ℕ) :
    mentioned (whereText filter n) =
      (List.range' n (whereOperands filter).length).map numberName := by
  cases filter with
  | none => rfl
  | some filter =>
      have hwhere : Unmarked " WHERE " := by decide
      rw [whereText, Option.elim_some, mentioned_unmarked_append hwhere, Filter.mentioned_text]
      rfl

/-! ### Fields -/

/-- Fields whose names were checked. -/
structure Fields (V : Type) where
  items : List (Str × V)
  named : ∀ item ∈ items, IsName item.1

/-- `checked_fields`. -/
def checkedFields (fields : List (Str × V)) : Except Rejected (Fields V) :=
  if fields = [] then .error (.builderError ⟨.incomplete, "", []⟩)
  else
    match h : fields.find? fun item => ¬ IsName item.1 with
    | some item => .error (.builderError ⟨.notAName, "a field", item.1⟩)
    | none => .ok ⟨fields, by simpa using h⟩

theorem items_of_checkedFields {items : List (Str × V)} {fields : Fields V}
    (h : checkedFields items = .ok fields) : fields.items = items := by
  rw [checkedFields] at h
  split at h
  · cases h
  · split at h
    · cases h
    · cases h
      rfl

/-- The check of the fields passes whatever order they are in. -/
theorem checkedFields_ok_iff {items : List (Str × V)} :
    (∃ fields, checkedFields items = .ok fields) ↔
      items ≠ [] ∧ ∀ item ∈ items, IsName item.1 := by
  constructor
  · rintro ⟨fields, h⟩
    obtain rfl := items_of_checkedFields h
    refine ⟨fun hnil => ?_, fields.named⟩
    rw [checkedFields, if_pos hnil] at h
    cases h
  · rintro ⟨hne, hnamed⟩
    rw [checkedFields, if_neg hne]
    split
    · next item hfind =>
      have hnot : ¬ IsName item.1 := by simpa using List.find?_some hfind
      exact absurd (hnamed item (List.mem_of_find?_eq_some hfind)) hnot
    · exact ⟨_, rfl⟩

/-- Name after name is written with the reference its value is bound to. -/
def written (between : Str) : List (Str × V) → StateM (Binder V) (List Str)
  | [] => pure []
  | item :: items => do
      let reference ← bind item.2
      let rest ← written between items
      return (item.1 ++ between ++ reference) :: rest

/-- `render_object`. -/
def renderObject (fields : List (Str × V)) : StateM (Binder V) Str := do
  let written ← written ": " (Dict.sorted fields)
  return "\x7b " ++ join ", " written ++ " \x7d"

/-- A renderer that binds nothing leaves the binder as it is. -/
theorem pure_run {α : Type} (rendered : α) (bound : Binder V) :
    (pure rendered : StateM (Binder V) α) bound = (rendered, bound) :=
  rfl

/-- What `written` comes to when the first value takes the number `n`. -/
def writtenText (between : Str) : List Str → ℕ → List Str
  | [], _ => []
  | name :: names, n => (name ++ between ++ ("$" ++ numberName n)) :: writtenText between names (n + 1)

theorem written_eq (between : Str) (items : List (Str × V)) (values : List V) :
    written between items (numbered values) =
      (writtenText between (Dict.keys items) values.length,
        numbered (values ++ items.map Prod.snd)) := by
  induction items generalizing values with
  | nil =>
      rw [List.map_nil, List.append_nil]
      rfl
  | cons item items ih =>
      have hvalues : values ++ List.map Prod.snd (item :: items) =
          values ++ [item.2] ++ items.map Prod.snd := by simp
      simp only [written, StateT.bind, Bind.bind, bind_numbered, ih, List.length_append, hvalues]
      rfl

/-- The references among the names are the numbers of their values, in order. -/
theorem mentioned_written {between : Str} (hbetween : Unmarked between) {names : List Str}
    (hnames : ∀ name ∈ names, IsName name) (n : ℕ) :
    mentioned (join ", " (writtenText between names n)) =
      (List.range' n names.length).map numberName := by
  rw [mentioned_join (by decide) (by decide) (by decide)]
  induction names generalizing n with
  | nil => rfl
  | cons name names ih =>
      have hname : Unmarked (name ++ between) :=
        (Name.unmarked ⟨name, hnames name List.mem_cons_self⟩).append hbetween
      rw [writtenText, List.flatMap_cons, mentioned_unmarked_append hname,
        mentioned_reference (numberName_words n),
        ih fun other hother => hnames other (List.mem_cons_of_mem _ hother)]
      rfl

end TessariDB
