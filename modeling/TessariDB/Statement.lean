import TessariDB.Query

/-!
# The Four Statements

`statement.py`: `SELECT`, `CREATE`, `UPDATE` and `DELETE` over one collection, built call by
call and then rendered.

## Main results

* `Select.render_eq`, `Write.renderCreate_eq`, `Write.renderUpdate_eq`, `Delete.render_eq`: what
  is rendered, as a text that depends on no value and the list of the values bound.
* `Select.mentioned_text` and its siblings: the references in that text.
* `Select.within_head`, `Select.within_tail`: the characters around its `WHERE`.
-/

namespace TessariDB

open Utf8 Text References

variable {V : Type}

/-! ### Counts -/

def U64_MAX : ℤ := 2 ^ 64 - 1

/-- A count that was checked. -/
structure Count where
  value : ℤ
  valid : 0 ≤ value ∧ value ≤ U64_MAX

/-- `_count`. -/
def count (value : ℤ) (what : String) : Except Rejected Count :=
  if h : 0 ≤ value ∧ value ≤ U64_MAX then .ok ⟨value, h⟩
  else .error (.valueError (what ++ " is an unsigned 64-bit integer, got " ++ str value))

theorem unmarked_digits (n : ℕ) : Unmarked (digits n) :=
  unmarked_of_words fun c hc => .inr (isDigit_of_mem_digits c hc)

theorem unmarked_str (z : ℤ) : Unmarked (str z) := by
  rw [str]
  split
  · exact Plain.append (by decide) (unmarked_digits _)
  · exact unmarked_digits _

/-- The digits of a count have no sign before them. -/
theorem Count.words (count : Count) : ∀ c ∈ str count.value, IsWord c := by
  rw [str, if_neg (by have := count.valid.1; omega)]
  exact fun c hc => .inr (isDigit_of_mem_digits c hc)

/-! ### What texts are made of -/

/-- Every character is one of a class. -/
def Within (P : CodePoint → Prop) (s : Str) : Prop := ∀ c ∈ s, P c

instance (P : CodePoint → Prop) [DecidablePred P] (s : Str) : Decidable (Within P s) :=
  List.decidableBAll P s

/-- A class that holds the characters of names and the signs a `SELECT` is written with. -/
structure Admits (P : CodePoint → Prop) : Prop where
  word : ∀ c, IsWord c → P c
  sign : ∀ c ∈ ofString " *,():", P c

section Classes

variable {P : CodePoint → Prop}

theorem within_nil : Within P [] := List.forall_mem_nil _

theorem Within.append {s t : Str} (hs : Within P s) (ht : Within P t) : Within P (s ++ t) :=
  List.forall_mem_append.mpr ⟨hs, ht⟩

theorem Within.join {sep : Str} (hsep : Within P sep) {parts : List Str}
    (hparts : ∀ part ∈ parts, Within P part) : Within P (join sep parts) := by
  induction parts with
  | nil => exact within_nil
  | cons part parts ih =>
      obtain ⟨hpart, hrest⟩ := List.forall_mem_cons.mp hparts
      cases parts with
      | nil => exact hpart
      | cons other parts => exact (hpart.append hsep).append (ih hrest)

theorem Admits.words (hP : Admits P) {s : Str} (h : ∀ c ∈ s, IsWord c) : Within P s :=
  fun c hc => hP.word c (h c hc)

/-- A text of the program's own, checked by running the test. -/
theorem Admits.literal (hP : Admits P) {s : Str}
    (h : (s.all fun c => decide (IsWord c ∨ c ∈ ofString " *,():")) = true) : Within P s :=
  fun c hc => (forall_mem_of_all h c hc).elim (hP.word c) (hP.sign c)

theorem within_ne_iff {s : Str} : Within (· ≠ codePoint 0x24) s ↔ Unmarked s :=
  ⟨fun h hmem => h _ hmem rfl, fun h _ hc heq => h (heq ▸ hc)⟩

/-- A mark is no character of a name, and none of the signs. -/
theorem admits_unmarked : Admits (· ≠ codePoint 0x24) where
  word c hc heq := absurd (heq ▸ hc) (by decide)
  sign := forall_mem_of_all (by decide)

end Classes

theorem unmarked_join {sep : Str} (hsep : Unmarked sep) {parts : List Str}
    (hparts : ∀ part ∈ parts, Unmarked part) : Unmarked (join sep parts) :=
  within_ne_iff.mp (Within.join (within_ne_iff.mpr hsep) fun part hpart =>
    within_ne_iff.mpr (hparts part hpart))

/-! ### `SELECT` -/

/-- One item of a projection, as the call that asked for it left it. -/
inductive Item where
  | field (name : Name)
  | lines (name : Name) (start count : Count)

def Item.text : Item → Str
  | .field name => name.text
  | .lines name start count =>
      "string::lines(" ++ name.text ++ ", " ++ str start.value ++ ", " ++ str count.value ++
        ") AS " ++ name.text

/-- One key of an order. -/
structure Order where
  field : Name
  descending : Bool

def Order.text (order : Order) : Str :=
  order.field.text ++ " " ++ (if order.descending then ofString "DESC" else ofString "ASC")

structure Select (V : Type) where
  table : Name
  items : List Item
  narrowing : Option (Filter V)
  order : List Order
  start : Option Count
  limit : Option Count
  staleness : Option Span
  answeredBy : Option Answerer

/-- An optional clause of a statement. -/
def clause (word : String) (text : Option Str) : Str := text.elim [] (ofString word ++ ·)

theorem Admits.clause {P : CodePoint → Prop} (hP : Admits P) {word : String}
    (hword : ((ofString word).all fun c => decide (IsWord c ∨ c ∈ ofString " *,():")) = true)
    {text : Option Str} (htext : ∀ t ∈ text, Within P t) : Within P (clause word text) := by
  cases text with
  | none => exact within_nil
  | some t => exact (hP.literal hword).append (htext t rfl)

/-- An optional clause begins with its word, so what it stands before may be a reference. -/
theorem cut_clause_append {word : String} (hword : Cut word) (hne : ofString word ≠ [])
    (text : Option Str) {b : Str} (hb : Cut b) : Cut (clause word text ++ b) := by
  cases text with
  | none => exact hb
  | some t =>
      rw [clause, Option.elim_some, List.append_assoc]
      exact hword.append hne _

/-- `", ".join(parts)`, where there are any. -/
def listed (parts : List Str) : Option Str := if parts = [] then none else some (join ", " parts)

namespace Select

/-- `select`. -/
def new (table : Str) : Except Rejected (Select V) := do
  let table ← checkName "a table" table
  return ⟨table, [], none, [], none, none, none, none⟩

def field (name : Str) (s : Select V) : Except Rejected (Select V) := do
  let name ← checkName "a field" name
  return { s with items := s.items ++ [.field name] }

def lines (field : Str) (start count : ℤ) (s : Select V) : Except Rejected (Select V) := do
  let name ← checkName "a field" field
  let start ← TessariDB.count start "a window start"
  let count ← TessariDB.count count "a window count"
  return { s with items := s.items ++ [.lines name start count] }

/-- `where`: a second one replaces the first. -/
def narrow (filter : Filter V) (s : Select V) : Except Rejected (Select V) :=
  .ok { s with narrowing := some filter }

def orderBy (field : Str) (descending : Bool) (s : Select V) : Except Rejected (Select V) := do
  let field ← checkName "a field" field
  return { s with order := s.order ++ [⟨field, descending⟩] }

def startAt (value : ℤ) (s : Select V) : Except Rejected (Select V) := do
  let value ← TessariDB.count value "a start"
  return { s with start := some value }

def limitTo (value : ℤ) (s : Select V) : Except Rejected (Select V) := do
  let value ← TessariDB.count value "a limit"
  return { s with limit := some value }

def stale (span : Str) (s : Select V) : Except Rejected (Select V) := do
  let span ← checkSpan span
  return { s with staleness := some span }

def answered (answerer : Str) (s : Select V) : Except Rejected (Select V) := do
  let answerer ← checkAnswerer answerer
  return { s with answeredBy := some answerer }

/-- The script up to the `WHERE`. -/
def head (s : Select V) : Str :=
  "SELECT " ++ (listed (s.items.map Item.text)).getD "*" ++ " FROM " ++ s.table.text

/-- The script after the `WHERE`. -/
def tail (s : Select V) : Str :=
  clause " ORDER BY " (listed (s.order.map Order.text)) ++
    clause " START " (s.start.map (str ·.value)) ++
    clause " LIMIT " (s.limit.map (str ·.value)) ++
    clause " STALENESS " (s.staleness.map Span.text) ++
    clause " ANSWERED BY " (s.answeredBy.map Answerer.word) ++ ";"

def render (s : Select V) : Rendered V :=
  let (narrowed, parameters) := renderWhere s.narrowing []
  ⟨s.head ++ narrowed ++ s.tail, parameters⟩

end Select

section Classes

variable {P : CodePoint → Prop}

theorem Admits.listed (hP : Admits P) {parts : List Str} (hparts : ∀ part ∈ parts, Within P part) :
    ∀ t ∈ listed parts, Within P t := by
  intro t ht
  rw [TessariDB.listed] at ht
  split at ht
  · cases ht
  · cases ht
    exact (hP.literal (by decide)).join hparts

theorem Item.within (item : Item) (hP : Admits P) : Within P item.text := by
  cases item with
  | field name => exact hP.words name.words
  | lines name start count =>
      have hhead : Within P "string::lines(" := hP.literal (by decide)
      have hcomma : Within P ", " := hP.literal (by decide)
      have has : Within P ") AS " := hP.literal (by decide)
      have hname := hP.words name.words
      exact (((((hhead.append hname).append hcomma).append (hP.words start.words)).append
        hcomma).append (hP.words count.words)).append has |>.append hname

theorem Order.within (order : Order) (hP : Admits P) : Within P order.text := by
  have hspace : Within P " " := hP.literal (by decide)
  refine ((hP.words order.field.words).append hspace).append ?_
  split
  · exact hP.literal (by decide)
  · exact hP.literal (by decide)

end Classes

namespace Select

variable (s : Select V)

/-- The script of a `Select`. -/
def text : Str := s.head ++ whereText s.narrowing 0 ++ s.tail

/-- **Rendering a `Select`.** -/
theorem render_eq : s.render = ⟨s.text, numbered (whereOperands s.narrowing)⟩ := by
  have h := renderWhere_eq s.narrowing []
  simp only [render]
  rw [show ([] : Binder V) = numbered [] from rfl, h]
  rfl

/-- The script up to the `WHERE` is made of names and signs. -/
theorem within_head {P : CodePoint → Prop} (hP : Admits P) : Within P s.head := by
  have hitems : Within P ((listed (s.items.map Item.text)).getD "*") := by
    have hlisted : ∀ t ∈ listed (s.items.map Item.text), Within P t :=
      hP.listed fun part hpart => by
        obtain ⟨item, -, rfl⟩ := List.mem_map.mp hpart
        exact item.within hP
    cases h : listed (s.items.map Item.text) with
    | none => exact hP.literal (by decide)
    | some t => exact hlisted t h
  exact (((hP.literal (s := "SELECT ") (by decide)).append hitems).append
    (hP.literal (s := " FROM ") (by decide))).append (hP.words s.table.words)

/-- So is the script after the `WHERE`, up to the end of the statement. -/
theorem within_tail {P : CodePoint → Prop} (hP : Admits P) :
    ∃ clauses, s.tail = clauses ++ ofString ";" ∧ Within P clauses := by
  have hcount : ∀ count : Option Count, ∀ t ∈ count.map (str ·.value), Within P t := by
    intro count t ht
    obtain ⟨count, -, rfl⟩ := Option.map_eq_some_iff.mp ht
    exact hP.words count.words
  have horder : ∀ t ∈ listed (s.order.map Order.text), Within P t :=
    hP.listed fun part hpart => by
      obtain ⟨order, -, rfl⟩ := List.mem_map.mp hpart
      exact order.within hP
  have hstale : ∀ t ∈ s.staleness.map Span.text, Within P t := by
    intro t ht
    obtain ⟨span, -, rfl⟩ := Option.map_eq_some_iff.mp ht
    exact hP.words span.words
  have hanswered : ∀ t ∈ s.answeredBy.map Answerer.word, Within P t := by
    intro t ht
    obtain ⟨answerer, -, rfl⟩ := Option.map_eq_some_iff.mp ht
    refine hP.literal ?_
    cases answerer <;> decide
  exact ⟨_, rfl, ((((hP.clause (by decide) horder).append
    (hP.clause (by decide) (hcount s.start))).append
    (hP.clause (by decide) (hcount s.limit))).append (hP.clause (by decide) hstale)).append
    (hP.clause (by decide) hanswered)⟩

theorem unmarked_head : Unmarked s.head := within_ne_iff.mp (s.within_head admits_unmarked)

theorem unmarked_tail : Unmarked s.tail := by
  obtain ⟨clauses, htail, hclauses⟩ := s.within_tail admits_unmarked
  rw [htail]
  exact (within_ne_iff.mp hclauses).append (by decide)

theorem cut_tail : Cut s.tail := by
  simp only [tail, List.append_assoc]
  refine cut_clause_append (by decide) (by decide) _ ?_
  refine cut_clause_append (by decide) (by decide) _ ?_
  refine cut_clause_append (by decide) (by decide) _ ?_
  refine cut_clause_append (by decide) (by decide) _ ?_
  refine cut_clause_append (by decide) (by decide) _ ?_
  decide

theorem mentioned_text : mentioned s.text =
    (List.range (whereOperands s.narrowing).length).map numberName := by
  rw [text, List.append_assoc, mentioned_unmarked_append s.unmarked_head,
    mentioned_append_cut _ s.cut_tail, mentioned_whereText, mentioned_unmarked s.unmarked_tail,
    List.append_nil, List.range_eq_range']

end Select

/-- One call on a `Select`. -/
inductive SelectCall (V : Type) where
  | field (name : Str)
  | lines (field : Str) (start count : ℤ)
  | narrow (filter : Filter V)
  | orderBy (field : Str) (descending : Bool)
  | start (count : ℤ)
  | limit (count : ℤ)
  | staleness (span : Str)
  | answeredBy (answerer : Str)

def SelectCall.run : SelectCall V → Select V → Except Rejected (Select V)
  | .field name => Select.field name
  | .lines name from_ number => Select.lines name from_ number
  | .narrow filter => Select.narrow filter
  | .orderBy name descending => Select.orderBy name descending
  | .start value => Select.startAt value
  | .limit value => Select.limitTo value
  | .staleness span => Select.stale span
  | .answeredBy answerer => Select.answered answerer

/-- A `Select` built by calls in order; the first refusal is what is raised. -/
def Select.build (table : Str) (calls : List (SelectCall V)) : Except Rejected (Select V) := do
  let s ← Select.new table
  calls.foldlM (fun s call => call.run s) s

/-! ### Writes -/

/-- `_Write`: a table, an identity and the fields set so far. -/
structure Write (V : Type) where
  table : Name
  identity : Option V
  fields : List (Str × V)

/-- One call of `set`: a mapping, and keywords. -/
structure SetCall (V : Type) where
  fields : List (Str × V)
  named : List (Str × V)

/-- The assignments of a sequence of calls, first to last. -/
def SetCall.assignments (calls : List (SetCall V)) : List (Str × V) :=
  calls.flatMap fun call => call.fields ++ call.named

namespace Write

def new (table : Str) (identity : Option V) : Except Rejected (Write V) := do
  let table ← checkName "a table" table
  return ⟨table, identity, []⟩

def set (call : SetCall V) (w : Write V) : Write V :=
  let assigned := call.fields ++ call.named
  { w with fields := assigned.foldl (fun d item => Dict.set d item.1 item.2) w.fields }

/-- A write built by calls of `set` in order. -/
def build (table : Str) (identity : Option V) (calls : List (SetCall V)) :
    Except Rejected (Write V) := do
  let w ← new table identity
  return calls.foldl (fun w call => w.set call) w

theorem foldl_set (calls : List (SetCall V)) (w : Write V) :
    calls.foldl (fun w call => w.set call) w = { w with
      fields := (SetCall.assignments calls).foldl (fun d item => Dict.set d item.1 item.2)
        w.fields } := by
  induction calls generalizing w with
  | nil => rfl
  | cons call calls ih =>
      rw [List.foldl_cons, ih, SetCall.assignments, SetCall.assignments, List.flatMap_cons,
        List.foldl_append]
      rfl

/-- A write that was built: its table was checked, and its fields are what the calls assigned. -/
theorem build_eq (table : Str) (identity : Option V) (calls : List (SetCall V)) :
    build table identity calls = (checkName "a table" table).map fun table =>
      ⟨table, identity, Dict.ofPairs (SetCall.assignments calls)⟩ := by
  rw [build, new]
  cases checkName "a table" table with
  | error _ => rfl
  | ok table => exact congrArg Except.ok (foldl_set calls ⟨table, identity, []⟩)

/-- What the values of a write are bound in: the identity, and the fields by name. -/
def bound (w : Write V) : List V := w.identity.toList ++ (Dict.sorted w.fields).map Prod.snd

/-- `Create.render`. -/
def renderCreate (w : Write V) : Except Rejected (Rendered V) := do
  let fields ← checkedFields w.fields
  let render : StateM (Binder V) Str := do
    let subject ← match w.identity with
      | none => pure w.table.text
      | some identity => do
          let reference ← bind identity
          pure (w.table.text ++ ":" ++ reference)
    let object ← renderObject fields.items
    return "CREATE " ++ subject ++ " = " ++ object ++ ";"
  let (script, parameters) := render []
  return ⟨script, parameters⟩

/-- `Update.render`. -/
def renderUpdate (w : Write V) : Except Rejected (Rendered V) := do
  let fields ← checkedFields w.fields
  match w.identity with
  | none => throw (.builderError ⟨.incomplete, "", []⟩)
  | some identity =>
      let render : StateM (Binder V) Str := do
        let reference ← bind identity
        let assignments ← written " = " (Dict.sorted fields.items)
        return "UPDATE " ++ w.table.text ++ ":" ++ reference ++ " SET " ++
          join ", " assignments ++ ";"
      let (script, parameters) := render []
      return ⟨script, parameters⟩

/-- `<table>` or `<table>:$p0`. -/
def subjectText (w : Write V) : Str :=
  w.identity.elim w.table.text fun _ => w.table.text ++ ":" ++ ("$" ++ numberName 0)

/-- The names written with their references, after the identity. -/
def assignedText (between : Str) (w : Write V) : Str :=
  join ", " (writtenText between (Dict.keys (Dict.sorted w.fields)) w.identity.toList.length)

def createText (w : Write V) : Str :=
  "CREATE " ++ w.subjectText ++ " = " ++ ("\x7b " ++ w.assignedText ": " ++ " \x7d") ++ ";"

def updateText (w : Write V) : Str :=
  "UPDATE " ++ w.subjectText ++ " SET " ++ w.assignedText " = " ++ ";"

/-- **Rendering a `CREATE`.** -/
theorem renderCreate_eq (w : Write V) :
    w.renderCreate = (checkedFields w.fields).map fun _ => ⟨w.createText, numbered w.bound⟩ := by
  obtain ⟨table, identity, items⟩ := w
  rw [renderCreate]
  cases hfields : checkedFields items with
  | error e => rfl
  | ok fields =>
      obtain rfl := items_of_checkedFields hfields
      cases identity with
      | none =>
          have h := written_eq ": " (Dict.sorted fields.items) []
          simp only [renderObject, Bind.bind, StateT.bind, Except.bind, pure_run]
          rw [show ([] : Binder V) = numbered [] from rfl, h]
          rfl
      | some identity =>
          have h := written_eq ": " (Dict.sorted fields.items) [identity]
          have hbind := bind_numbered [] identity
          simp only [renderObject, Bind.bind, StateT.bind, Except.bind, pure_run]
          rw [show ([] : Binder V) = numbered [] from rfl, hbind, List.nil_append]
          simp only [h]
          rfl

/-- **Rendering an `UPDATE`.** -/
theorem renderUpdate_eq (w : Write V) :
    w.renderUpdate = (checkedFields w.fields).bind fun _ => w.identity.elim
      (.error (.builderError ⟨.incomplete, "", []⟩)) fun _ =>
        .ok ⟨w.updateText, numbered w.bound⟩ := by
  obtain ⟨table, identity, items⟩ := w
  rw [renderUpdate]
  cases hfields : checkedFields items with
  | error e => rfl
  | ok fields =>
      obtain rfl := items_of_checkedFields hfields
      cases identity with
      | none => rfl
      | some identity =>
          have h := written_eq " = " (Dict.sorted fields.items) [identity]
          have hbind := bind_numbered [] identity
          simp only [Bind.bind, StateT.bind, Except.bind, pure_run]
          rw [show ([] : Binder V) = numbered [] from rfl, hbind, List.nil_append]
          simp only [h]
          rfl

theorem mentioned_subjectText_append (w : Write V) {b : Str} (hb : Cut b) :
    mentioned (w.subjectText ++ b) =
      (List.range w.identity.toList.length).map numberName ++ mentioned b := by
  rw [mentioned_append_cut _ hb]
  congr 1
  obtain ⟨table, _ | identity, items⟩ := w
  · exact mentioned_unmarked table.unmarked
  · have hcolon : Unmarked (table.text ++ ":") := table.unmarked.append (by decide)
    rw [subjectText, Option.elim_some, mentioned_unmarked_append hcolon,
      mentioned_reference (numberName_words 0)]
    rfl

/-- The references of a write are the numbers of what it binds, in order. -/
theorem mentioned_assigned {w : Write V} (hnames : ∀ item ∈ w.fields, IsName item.1)
    {between : Str} (hbetween : Unmarked between) :
    (List.range w.identity.toList.length).map numberName ++ mentioned (w.assignedText between) =
      (List.range w.bound.length).map numberName := by
  have hsorted : ∀ name ∈ Dict.keys (Dict.sorted w.fields), IsName name := fun name hname => by
    obtain ⟨item, hitem, rfl⟩ := List.mem_map.mp hname
    exact hnames item (Dict.mem_sorted.mp hitem)
  rw [assignedText, mentioned_written hbetween hsorted, ← List.map_append, bound,
    List.length_append, List.length_map, Dict.keys, List.length_map, List.range_eq_range',
    List.range_eq_range', ← List.range'_append_1, Nat.zero_add]

theorem mentioned_createText {w : Write V} (hnames : ∀ item ∈ w.fields, IsName item.1) :
    mentioned w.createText = (List.range w.bound.length).map numberName := by
  have hcreate : Unmarked "CREATE " := by decide
  have hopen : Cut (ofString " = " ++ ofString "\x7b ") := by decide
  have hmiddle : Unmarked (ofString " = " ++ ofString "\x7b ") := by decide
  have hclose : Cut (ofString " \x7d" ++ ofString ";") := by decide
  have hend : Unmarked (ofString " \x7d" ++ ofString ";") := by decide
  have hsplit : w.createText = ofString "CREATE " ++ (w.subjectText ++
      ((ofString " = " ++ ofString "\x7b ") ++ (w.assignedText ": " ++
        (ofString " \x7d" ++ ofString ";")))) := by
    simp only [createText, List.append_assoc]
  rw [hsplit, mentioned_unmarked_append hcreate,
    mentioned_subjectText_append w (hopen.append (by decide) _),
    mentioned_unmarked_append hmiddle, mentioned_append_cut _ hclose, mentioned_unmarked hend,
    List.append_nil, mentioned_assigned hnames (by decide)]

theorem mentioned_updateText {w : Write V} (hnames : ∀ item ∈ w.fields, IsName item.1) :
    mentioned w.updateText = (List.range w.bound.length).map numberName := by
  have hupdate : Unmarked "UPDATE " := by decide
  have hcut : Cut " SET " := by decide
  have hset : Unmarked " SET " := by decide
  have hclose : Cut ";" := by decide
  have hend : Unmarked ";" := by decide
  have hsplit : w.updateText = ofString "UPDATE " ++ (w.subjectText ++
      (ofString " SET " ++ (w.assignedText " = " ++ ofString ";"))) := by
    simp only [updateText, List.append_assoc]
  rw [hsplit, mentioned_unmarked_append hupdate,
    mentioned_subjectText_append w (hcut.append (by decide) _),
    mentioned_unmarked_append hset, mentioned_append_cut _ hclose, mentioned_unmarked hend,
    List.append_nil, mentioned_assigned hnames (by decide)]

end Write

/-- `Delete`. -/
structure Delete (V : Type) where
  table : Name
  identity : V

def Delete.new (table : Str) (identity : V) : Except Rejected (Delete V) := do
  let table ← checkName "a table" table
  return ⟨table, identity⟩

def Delete.render (d : Delete V) : Rendered V :=
  let (reference, parameters) := bind d.identity []
  ⟨"DELETE " ++ d.table.text ++ ":" ++ reference ++ ";", parameters⟩

/-- **Rendering a `DELETE`.** -/
theorem Delete.render_eq (d : Delete V) :
    d.render = ⟨"DELETE " ++ d.table.text ++ ":" ++ ("$" ++ numberName 0) ++ ";",
      numbered [d.identity]⟩ := by
  have h := bind_numbered [] d.identity
  simp only [Delete.render]
  rw [show ([] : Binder V) = numbered [] from rfl, h]
  rfl

theorem Delete.mentioned_text (d : Delete V) :
    mentioned d.render.script = [numberName 0] := by
  have hhead : Unmarked (ofString "DELETE " ++ d.table.text ++ ":") :=
    (Plain.append (by decide) d.table.unmarked).append (by decide)
  have hclose : Cut ";" := by decide
  have hend : Unmarked ";" := by decide
  rw [Delete.render_eq, List.append_assoc, mentioned_unmarked_append hhead,
    mentioned_append_cut _ hclose, mentioned_unmarked hend, List.append_nil,
    mentioned_reference (numberName_words 0)]

end TessariDB
