import TessariDB.FilterReading
import TessariDB.Grammar
import TessariDB.StatementText

/-!
# Reading a Statement Back

What a builder has built, as a tree: `Statement`. Its text is a language of clauses, and a reader
that knows the words of the language, and no rule of precedence, takes a text apart into the tree
it was rendered from. In the text a value is a reference; looked up among the parameters, the
references are the values again.

## Main results

* `Statement.parses`: the language of the statements.
* `Built.rendered_eq`: rendering writes that language.
* `statement_built_is_statement_run`: the statement that was built is the statement that runs.
-/

namespace TessariDB

open Utf8 Text References Infix Grammar

variable {V W : Type}

/-! ### Trees -/

/-- Names with what is assigned to them, one at least. -/
abbrev Assigned (V : Type) := (Name × V) × List (Name × V)

/-- A statement. -/
inductive Statement (V : Type) where
  | select (s : Select V)
  | create (table : Name) (identity : Option V) (fields : Assigned V)
  | update (table : Name) (identity : V) (fields : Assigned V)
  | delete (table : Name) (identity : V)
  | claim (worker : QueueStatements) (count : Count) (narrowing : Option (Filter V))

/-! ### Names and numbers -/

/-- A rest that no name goes on in. -/
abbrev Cutoff (rest : Str) : Prop := Break isWord rest

theorem parses_name : Parses Name.text Cutoff (readRun isWord nameOf) :=
  .of_reads (reads_run (fun name c hc => decide_eq_true (name.words c hc)) nameOf_eq_some_iff)

theorem parses_reference : Parses Reference.text Cutoff (readRun isWord referenceOf) :=
  .of_reads (reads_run (fun reference c hc => decide_eq_true (reference.words c hc))
    referenceOf_eq_some_iff)

/-- A text that passes a check, as what it then is. -/
def checkedAs {α : Type} (P : Str → Prop) [DecidablePred P] (make : ∀ text, P text → α)
    (text : Str) : Option α :=
  if h : P text then some (make text h) else none

theorem checkedAs_eq_some_iff {α : Type} {P : Str → Prop} [DecidablePred P]
    (make : ∀ text, P text → α) (write : α → Str) (hvalid : ∀ a, P (write a))
    (hwrite : ∀ text h, write (make text h) = text) (hmake : ∀ a, make (write a) (hvalid a) = a)
    (text : Str) (a : α) : checkedAs P make text = some a ↔ text = write a := by
  rw [checkedAs]
  constructor
  · intro h
    split at h
    · next hP =>
      rw [← Option.some.inj h, hwrite]
    · cases h
  · rintro rfl
    rw [dif_pos (hvalid a), hmake]

def Count.text (count : Count) : Str := str count.value

/-- A numeral of a count, without zeros before it. -/
def IsCount (text : Str) : Prop :=
  digits (number text) = text ∧ ((number text : ℕ) : ℤ) ≤ U64_MAX

instance (text : Str) : Decidable (IsCount text) := instDecidableAnd

def countOf : Str → Option Count :=
  checkedAs IsCount fun text h => ⟨number text, Int.natCast_nonneg _, h.2⟩

theorem Count.text_eq (count : Count) : count.text = digits count.value.toNat := by
  have hnonneg := count.valid.1
  rw [text, str, if_neg (by omega)]
  congr 1
  omega

theorem Count.number_text (count : Count) : ((number count.text : ℕ) : ℤ) = count.value := by
  rw [text_eq, number_digits, Int.toNat_of_nonneg count.valid.1]

theorem Count.isCount (count : Count) : IsCount count.text := by
  refine ⟨?_, count.number_text.trans_le count.valid.2⟩
  rw [text_eq, number_digits]

theorem countOf_eq_some_iff (text : Str) (count : Count) :
    countOf text = some count ↔ text = count.text := by
  have hcountOf := checkedAs_eq_some_iff (P := IsCount)
    (fun text h => ⟨number text, Int.natCast_nonneg _, h.2⟩) Count.text Count.isCount
    (fun text h => by rw [Count.text_eq]; exact h.1) (fun count => by simp only [count.number_text])
  exact hcountOf text count

theorem parses_count : Parses Count.text Cutoff (readRun isWord countOf) :=
  .of_reads (reads_run (fun count c hc => decide_eq_true (count.words c hc)) countOf_eq_some_iff)

def spanOf : Str → Option Span := checkedAs IsSpan Span.mk

theorem parses_span : Parses Span.text Cutoff (readRun isWord spanOf) := by
  have hspanOf := checkedAs_eq_some_iff Span.mk Span.text Span.valid
    (fun _ _ => rfl) fun _ => rfl
  exact .of_reads (reads_run (fun span c hc => decide_eq_true (span.words c hc)) hspanOf)

def labelOf : Str → Option Label := checkedAs IsLabel Label.mk

def isLabelChar (c : CodePoint) : Bool := decide (IsLabelChar c)

theorem parses_label :
    Parses Label.text (Break isLabelChar) (readRun isLabelChar labelOf) := by
  have hlabelOf := checkedAs_eq_some_iff Label.mk Label.text Label.valid
    (fun _ _ => rfl) fun _ => rfl
  exact .of_reads
    (reads_run (fun label c hc => decide_eq_true (label.valid.2.2 c hc)) hlabelOf)

theorem Answerer.word_free (v w : Answerer) (h : v.word <+: w.word) : v = w := by
  cases v <;> cases w <;> first | rfl | exact absurd h (by decide)

theorem parses_answerer : Parses Answerer.word Anything (readKey Answerer.word [.any, .leader]) :=
  .of_reads (reads_key _ (by intro a; cases a <;> simp) Answerer.word_free)

theorem parses_filter :
    Parses filterFormat.write Cutoff fun text => filterFormat.read text.length text :=
  .format filterFormat

/-! ### Words -/

/-- Words after which no name goes on. -/
abbrev Cutting (words : List Str) : Prop := ∀ w ∈ words, w ≠ [] ∧ Break isWord w

theorem cutoff_of_begins (words : List Str) (hwords : Cutting words) (rest : Str)
    (h : Begins words rest) : Cutoff rest := h.break_ hwords

theorem cutoff_append {word : Str} (hne : word ≠ []) (hcut : Break isWord word) (rest : Str) :
    Cutoff (word ++ rest) := hcut.append hne rest

/-! ### Projections and orders -/

def LINES : Str := ofString "string::lines("

/-- A window on a field, and the name it arrives under. -/
abbrev Window := Name × Count × Count × Name

def Window.text (w : Window) : Str :=
  LINES ++ (w.1.text ++ ((ofString ", " ++ w.2.1.text) ++ ((ofString ", " ++ w.2.2.1.text) ++
    (ofString ") AS " ++ w.2.2.2.text))))

def readWindow : Infix.Reader CodePoint Window :=
  readAfter LINES (readPair (readRun isWord nameOf)
    (readPair (readAfter (ofString ", ") (readRun isWord countOf))
      (readPair (readAfter (ofString ", ") (readRun isWord countOf))
        (readAfter (ofString ") AS ") (readRun isWord nameOf)))))

theorem parses_window : Parses Window.text Cutoff readWindow := by
  have hcomma : ∀ rest, Cutoff (ofString ", " ++ rest) := cutoff_append (by decide) (by decide)
  have has : ∀ rest, Cutoff (ofString ") AS " ++ rest) := cutoff_append (by decide) (by decide)
  have hcount := (parses_count.after (ofString ", ")).pair (parses_name.after (ofString ") AS "))
    fun b rest _ => by rw [List.append_assoc]; exact has _
  have hstart := (parses_count.after (ofString ", ")).pair hcount fun b rest _ => by
    rw [List.append_assoc, List.append_assoc]; exact hcomma _
  have hname := parses_name.pair hstart fun b rest _ => by
    rw [List.append_assoc, List.append_assoc]; exact hcomma _
  exact hname.after LINES

/-- A window or a field by its name. A window's field arrives under its own name. -/
def itemOf : Window ⊕ Name → Option Item
  | .inl w => if w.1 = w.2.2.2 then some (.lines w.1 w.2.1 w.2.2.1) else none
  | .inr name => some (.field name)

def Item.kind : Item → Window ⊕ Name
  | .field name => .inr name
  | .lines name start count => .inl (name, start, count, name)

theorem itemOf_eq_some_iff (kind : Window ⊕ Name) (item : Item) :
    itemOf kind = some item ↔ kind = item.kind := by
  rcases kind with ⟨name, start, count, other⟩ | name
  · rw [itemOf]
    constructor
    · intro h
      split at h
      · next hsame =>
        cases h
        obtain rfl : name = other := hsame
        rfl
      · cases h
    · intro h
      cases item with
      | field name => cases h
      | lines name start count =>
          cases h
          exact if_pos rfl
  · constructor
    · intro h
      cases h
      rfl
    · intro h
      cases item with
      | field name =>
          cases h
          rfl
      | lines name start count => cases h

def readItem : Infix.Reader CodePoint Item :=
  readVia itemOf (readEither readWindow (readRun isWord nameOf))

/-- What may follow an item. -/
def AFTER_ITEM : List Str := [ofString ", ", ofString " FROM "]

/-- No name is the beginning of a window. -/
theorem not_window (name : Name) {rest : Str} (hrest : Begins AFTER_ITEM rest) :
    ¬ LINES <+: name.text ++ rest := by
  rintro ⟨behind, heq⟩
  have hsplit : LINES ++ behind = ofString "string" ++ (ofString "::lines(" ++ behind) := by
    rw [← List.append_assoc]
    rfl
  rw [hsplit] at heq
  have hcut : Cutoff rest := cutoff_of_begins _ (by decide) rest hrest
  have hsame := run_append_inj (P := IsWord) (forall_mem_of_all (by decide)) name.words
    (by intro c hc; cases hc; decide)
    (fun c hc => by simpa [isWord] using hcut c hc) heq
  refine hrest.not_other (ofString "::lines(") (by decide) ?_
  rw [← hsame.2]
  exact List.prefix_append _ _

theorem parses_item : Parses (fun item : Item => Sum.elim Window.text Name.text item.kind)
    (Begins AFTER_ITEM) readItem := by
  have hcut := cutoff_of_begins AFTER_ITEM (by decide)
  refine ((parses_window.mono hcut).either (parses_name.mono hcut) ?_).via _ _ itemOf_eq_some_iff
  intro name rest hrest
  exact readAfter_of_not (not_window name hrest) _

theorem Item.text_eq (item : Item) : item.text = Sum.elim Window.text Name.text item.kind := by
  cases item with
  | field name => rfl
  | lines name start count => simp only [text, kind, Sum.elim_inl, Window.text, LINES, Count.text,
      List.append_assoc]

theorem Item.not_star (item : Item) (rest : Str) : ¬ ofString "*" <+: item.text ++ rest := by
  rintro ⟨behind, heq⟩
  cases item with
  | field name =>
      obtain ⟨_ | ⟨c, text⟩, hvalid⟩ := name
      · exact hvalid
      · obtain rfl : codePoint 0x2A = c := (List.cons.inj heq).1
        exact absurd hvalid.1 (by decide)
  | lines name start count =>
      rw [Item.text_eq, kind, Sum.elim_inl, Window.text, List.append_assoc] at heq
      have hfirst := congrArg (List.take 1) heq
      rw [List.take_append_of_le_length (by decide), List.take_append_of_le_length (by decide)]
        at hfirst
      exact absurd hfirst (by decide)

/-- One item at least, or none. -/
abbrev Projected := Unit ⊕ (Item × List Item)

def Projected.text : Projected → Str :=
  Sum.elim (fun _ => ofString "*") (writeSeparated (ofString ", ") Item.text)

def readProjected : Infix.Reader CodePoint Projected :=
  readEither (readWord (ofString "*")) (readSeparated (ofString ", ") readItem)

theorem parses_projected : Parses Projected.text (Begins [ofString " FROM "]) readProjected := by
  have hitem : Parses Item.text (Begins AFTER_ITEM) readItem := by
    have h := parses_item
    simp only [← Item.text_eq] at h
    exact h
  refine ((parses_word _).mono fun _ _ => trivial).either
    (hitem.separated (by decide) (by decide)) ?_
  rintro ⟨item, items⟩ rest -
  refine needs_word _ _ ?_
  rw [writeSeparated, List.append_assoc]
  exact item.not_star _

/-- The two directions, as an order writes them. -/
def direction (descending : Bool) : Str :=
  if descending then ofString " DESC" else ofString " ASC"

theorem direction_free (v w : Bool) (h : direction v <+: direction w) : v = w := by
  cases v <;> cases w <;> first | rfl | exact absurd h (by decide)

theorem Order.text_eq (order : Order) : order.text = order.field.text ++ direction order.descending := by
  rw [text, direction, List.append_assoc]
  split <;> rfl

def Order.parts (order : Order) : Name × Bool := (order.field, order.descending)

def readOrder : Infix.Reader CodePoint Order :=
  readAs (fun p => ⟨p.1, p.2⟩)
    (readPair (readRun isWord nameOf) (readKey direction [true, false]))

theorem parses_order : Parses Order.text Anything readOrder := by
  have hdirection : Parses direction Anything (readKey direction [true, false]) :=
    .of_reads (reads_key _ (by decide) direction_free)
  have hpair := parses_name.pair hdirection fun b rest _ => by
    cases b <;> exact cutoff_append (by decide) (by decide) rest
  have h : Parses (fun order : Order => order.field.text ++ direction order.descending) Anything
      readOrder := hpair.as (g := Order.parts) (fun _ => rfl) fun _ => rfl
  simp only [← Order.text_eq] at h
  exact h

/-! ### `SELECT` -/

def filterText (filter : Filter Reference) : Str := filterFormat.write filter.tree

def readFilterText : Infix.Reader CodePoint (Filter Reference) :=
  readAs Filter.ofTree fun text => filterFormat.read text.length text

theorem tree_ofTree (tree : Tree Leaf Junction) : (Filter.ofTree tree).tree = tree := by
  induction tree with
  | leaf _ => rfl
  | node _ _ _ ihl ihr => rw [Filter.ofTree, Filter.tree, ihl, ihr]

theorem parses_filterText : Parses filterText Cutoff readFilterText :=
  parses_filter.as tree_ofTree Filter.ofTree_tree

/-- What may follow a clause of a `SELECT`, from the last clause to the first. -/
def AFTER_ANSWERED : List Str := [ofString ";"]
def AFTER_STALE : List Str := ofString " ANSWERED BY " :: AFTER_ANSWERED
def AFTER_LIMIT : List Str := ofString " STALENESS " :: AFTER_STALE
def AFTER_START : List Str := ofString " LIMIT " :: AFTER_LIMIT
def AFTER_ORDER : List Str := ofString " START " :: AFTER_START
def AFTER_WHERE : List Str := ofString " ORDER BY " :: AFTER_ORDER
def AFTER_TABLE : List Str := ofString " WHERE " :: AFTER_WHERE

/-- The clauses of a `SELECT`. -/
abbrev SelectClauses := Option (Filter Reference) × Option (Order × List Order) × Option Count ×
  Option Count × Option Span × Option Answerer

def SelectClauses.text (c : SelectClauses) : Str :=
  writeClause (ofString " WHERE ") filterText c.1 ++
    (writeClause (ofString " ORDER BY ") (writeSeparated (ofString ", ") Order.text) c.2.1 ++
      (writeClause (ofString " START ") Count.text c.2.2.1 ++
        (writeClause (ofString " LIMIT ") Count.text c.2.2.2.1 ++
          (writeClause (ofString " STALENESS ") Span.text c.2.2.2.2.1 ++
            writeClause (ofString " ANSWERED BY ") Answerer.word c.2.2.2.2.2))))

def readSelectClauses : Infix.Reader CodePoint SelectClauses :=
  readPair (readClause (ofString " WHERE ") readFilterText)
    (readPair (readClause (ofString " ORDER BY ") (readSeparated (ofString ", ") readOrder))
      (readPair (readClause (ofString " START ") (readRun isWord countOf))
        (readPair (readClause (ofString " LIMIT ") (readRun isWord countOf))
          (readPair (readClause (ofString " STALENESS ") (readRun isWord spanOf))
            (readClause (ofString " ANSWERED BY ") (readKey Answerer.word [.any, .leader]))))))

theorem parses_selectClauses :
    Clauses SelectClauses.text AFTER_TABLE AFTER_ANSWERED readSelectClauses := by
  have hanswered := parses_answerer.last (ofString " ANSWERED BY ") AFTER_ANSWERED
    (fun _ _ => trivial) (by decide)
  have hstale := hanswered.cons parses_span (ofString " STALENESS ")
    (cutoff_of_begins AFTER_STALE (by decide)) (by decide)
  have hlimit := hstale.cons parses_count (ofString " LIMIT ")
    (cutoff_of_begins AFTER_LIMIT (by decide)) (by decide)
  have hstart := hlimit.cons parses_count (ofString " START ")
    (cutoff_of_begins AFTER_START (by decide)) (by decide)
  have horders : Parses (writeSeparated (ofString ", ") Order.text) (Begins AFTER_ORDER)
      (readSeparated (ofString ", ") readOrder) :=
    (parses_order.mono fun _ _ => trivial).separated (by decide) (by decide)
  have horder := hstart.cons horders (ofString " ORDER BY ") (fun _ h => h) (by decide)
  exact horder.cons parses_filterText (ofString " WHERE ")
    (cutoff_of_begins AFTER_WHERE (by decide)) (by decide)

/-- A `SELECT` in its parts. -/
abbrev SelectParts := Projected × Name × SelectClauses

def SelectParts.text (p : SelectParts) : Str :=
  (ofString "SELECT " ++ (p.1.text ++ (ofString " FROM " ++ (p.2.1.text ++ p.2.2.text)))) ++
    ofString ";"

def readSelectParts : Infix.Reader CodePoint SelectParts :=
  readBefore (readAfter (ofString "SELECT ") (readPair readProjected
    (readAfter (ofString " FROM ") (readPair (readRun isWord nameOf) readSelectClauses))))
    (ofString ";")

theorem parses_selectParts : Parses SelectParts.text Anything readSelectParts := by
  have htable := parses_name.pair parses_selectClauses.parses fun c rest hrest =>
    cutoff_of_begins AFTER_TABLE (by decide) _ (parses_selectClauses.begins c rest hrest)
  have hitems := parses_projected.pair (htable.after (ofString " FROM ")) fun p rest _ => by
    rw [List.append_assoc]
    exact begins_append List.mem_cons_self _
  exact (hitems.after (ofString "SELECT ")).before fun rest => begins_append List.mem_cons_self _

/-- No list, or one with its first element. -/
def listOf {α : Type} : Option (α × List α) → List α
  | none => []
  | some (a, as) => a :: as

def unlist {α : Type} : List α → Option (α × List α)
  | [] => none
  | a :: as => some (a, as)

theorem unlist_listOf {α : Type} (as : Option (α × List α)) : unlist (listOf as) = as := by
  cases as <;> rfl

theorem listOf_unlist {α : Type} (as : List α) : listOf (unlist as) = as := by
  cases as <;> rfl

def SelectParts.select (p : SelectParts) : Select Reference where
  table := p.2.1
  items := p.1.elim (fun _ => []) fun items => items.1 :: items.2
  narrowing := p.2.2.1
  order := listOf p.2.2.2.1
  start := p.2.2.2.2.1
  limit := p.2.2.2.2.2.1
  staleness := p.2.2.2.2.2.2.1
  answeredBy := p.2.2.2.2.2.2.2

def Select.parts (s : Select Reference) : SelectParts :=
  (match s.items with
    | [] => .inl ()
    | item :: items => .inr (item, items),
    s.table, s.narrowing, unlist s.order, s.start, s.limit, s.staleness, s.answeredBy)

def readSelect : Infix.Reader CodePoint (Select Reference) :=
  readAs SelectParts.select readSelectParts

theorem parses_select : Parses (fun s : Select Reference => s.parts.text) Anything readSelect := by
  refine parses_selectParts.as ?_ ?_
  · rintro ⟨- | ⟨item, items⟩, table, filter, order, clauses⟩
    all_goals simp only [SelectParts.select, Select.parts, Sum.elim_inl, Sum.elim_inr, unlist_listOf]
  · rintro ⟨table, - | ⟨item, items⟩, filter, order, start, limit, staleness, answeredBy⟩
    all_goals simp only [SelectParts.select, Select.parts, Sum.elim_inl, Sum.elim_inr, listOf_unlist]

/-! ### The other statements -/

/-- A name with the reference of what is assigned to it. -/
def assignedText (between : Str) (p : Name × Reference) : Str :=
  p.1.text ++ (between ++ p.2.text)

def readAssigned (between : Str) : Infix.Reader CodePoint (Name × Reference) :=
  readPair (readRun isWord nameOf) (readAfter between (readRun isWord referenceOf))

theorem parses_assigned {between : Str} (hne : between ≠ []) (hcut : Break isWord between) :
    Parses (assignedText between) Cutoff (readAssigned between) :=
  parses_name.pair (parses_reference.after between) fun _ rest _ => by
    rw [List.append_assoc]
    exact cutoff_append hne hcut _

/-- Assignments with a comma between them, and a word at their end. -/
theorem parses_assignments (between close : Str) (hne : between ≠ [])
    (hcut : Break isWord between) (hclose : Cutting [ofString ", ", close])
    (hunlike : Unlike (ofString ", ") close) :
    Parses (writeSeparated (ofString ", ") (assignedText between)) (Begins [close])
      (readSeparated (ofString ", ") (readAssigned between)) :=
  ((parses_assigned hne hcut).mono (cutoff_of_begins _ hclose)).separated (by decide)
    (List.forall_mem_singleton.mpr hunlike)

abbrev CreateParts := Name × Option Reference × Assigned Reference

def CreateParts.text (p : CreateParts) : Str :=
  (ofString "CREATE " ++ (p.1.text ++ (writeClause (ofString ":$") Reference.text p.2.1 ++
    (ofString " = \x7b " ++ writeSeparated (ofString ", ") (assignedText (ofString ": $")) p.2.2)))) ++
      ofString " \x7d;"

def readCreateParts : Infix.Reader CodePoint CreateParts :=
  readBefore (readAfter (ofString "CREATE ") (readPair (readRun isWord nameOf)
    (readPair (readClause (ofString ":$") (readRun isWord referenceOf))
      (readAfter (ofString " = \x7b ")
        (readSeparated (ofString ", ") (readAssigned (ofString ": $")))))))
    (ofString " \x7d;")

theorem parses_createParts : Parses CreateParts.text Anything readCreateParts := by
  have hfields := (parses_assignments (ofString ": $") (ofString " \x7d;")
    (by decide) (by decide) (by decide) (by decide)).after (ofString " = \x7b ")
  have hidentity := parses_reference.last (ofString ":$") [ofString " = \x7b "]
    (cutoff_of_begins _ (by decide)) (by decide)
  have hbody := hidentity.parses.pair hfields fun p rest _ => by
    rw [List.append_assoc]
    exact begins_append List.mem_cons_self _
  have htable := parses_name.pair hbody fun p rest _ => by
    rw [List.append_assoc, List.append_assoc]
    exact cutoff_of_begins [ofString ":$", ofString " = \x7b "] (by decide) _
      (hidentity.begins _ _ (begins_append List.mem_cons_self _))
  exact (htable.after (ofString "CREATE ")).before fun rest => begins_append List.mem_cons_self _

abbrev UpdateParts := Name × Reference × Assigned Reference

def UpdateParts.text (p : UpdateParts) : Str :=
  (ofString "UPDATE " ++ (p.1.text ++ ((ofString ":$" ++ p.2.1.text) ++
    (ofString " SET " ++ writeSeparated (ofString ", ") (assignedText (ofString " = $")) p.2.2)))) ++
      ofString ";"

def readUpdateParts : Infix.Reader CodePoint UpdateParts :=
  readBefore (readAfter (ofString "UPDATE ") (readPair (readRun isWord nameOf)
    (readPair (readAfter (ofString ":$") (readRun isWord referenceOf))
      (readAfter (ofString " SET ")
        (readSeparated (ofString ", ") (readAssigned (ofString " = $")))))))
    (ofString ";")

theorem parses_updateParts : Parses UpdateParts.text Anything readUpdateParts := by
  have hfields := (parses_assignments (ofString " = $") (ofString ";")
    (by decide) (by decide) (by decide) (by decide)).after (ofString " SET ")
  have hbody := (parses_reference.after (ofString ":$")).pair hfields fun p rest _ => by
    rw [List.append_assoc]
    exact cutoff_append (by decide) (by decide) _
  have htable := parses_name.pair hbody fun p rest _ => by
    rw [List.append_assoc, List.append_assoc]
    exact cutoff_append (by decide) (by decide) _
  exact (htable.after (ofString "UPDATE ")).before fun rest => begins_append List.mem_cons_self _

abbrev DeleteParts := Name × Reference

def DeleteParts.text (p : DeleteParts) : Str :=
  (ofString "DELETE " ++ (p.1.text ++ (ofString ":$" ++ p.2.text))) ++ ofString ";"

def readDeleteParts : Infix.Reader CodePoint DeleteParts :=
  readBefore (readAfter (ofString "DELETE ") (readPair (readRun isWord nameOf)
    (readAfter (ofString ":$") (readRun isWord referenceOf)))) (ofString ";")

theorem parses_deleteParts : Parses DeleteParts.text Anything readDeleteParts := by
  have htable := parses_name.pair (parses_reference.after (ofString ":$")) fun p rest _ => by
    rw [List.append_assoc]
    exact cutoff_append (by decide) (by decide) _
  exact (htable.after (ofString "DELETE ")).before (cutoff_append (by decide) (by decide))

abbrev ClaimParts := Name × Name × Label × Count × Name × Option (Filter Reference)

def ClaimParts.text (p : ClaimParts) : Str :=
  (ofString "USE NAMESPACE " ++ (p.1.text ++ ((ofString "; USE DATABASE " ++ p.2.1.text) ++
    ((ofString "; USE CONSUMER '" ++ p.2.2.1.text) ++ ((ofString "'; CLAIM " ++ p.2.2.2.1.text) ++
      ((ofString " FROM " ++ p.2.2.2.2.1.text) ++
        writeClause (ofString " WHERE ") filterText p.2.2.2.2.2)))))) ++ ofString ";"

def readClaimParts : Infix.Reader CodePoint ClaimParts :=
  readBefore (readAfter (ofString "USE NAMESPACE ") (readPair (readRun isWord nameOf)
    (readPair (readAfter (ofString "; USE DATABASE ") (readRun isWord nameOf))
      (readPair (readAfter (ofString "; USE CONSUMER '") (readRun isLabelChar labelOf))
        (readPair (readAfter (ofString "'; CLAIM ") (readRun isWord countOf))
          (readPair (readAfter (ofString " FROM ") (readRun isWord nameOf))
            (readClause (ofString " WHERE ") readFilterText))))))) (ofString ";")

theorem parses_claimParts : Parses ClaimParts.text Anything readClaimParts := by
  have hfilter := parses_filterText.last (ofString " WHERE ") [ofString ";"]
    (cutoff_of_begins _ (by decide)) (by decide)
  have hqueue := (parses_name.after (ofString " FROM ")).pair hfilter.parses fun a rest hrest =>
    cutoff_of_begins [ofString " WHERE ", ofString ";"] (by decide) _ (hfilter.begins a rest hrest)
  have hcount := (parses_count.after (ofString "'; CLAIM ")).pair hqueue fun p rest _ => by
    rw [List.append_assoc, List.append_assoc]
    exact cutoff_append (by decide) (by decide) _
  have hworker := (parses_label.after (ofString "; USE CONSUMER '")).pair hcount fun p rest _ => by
    rw [List.append_assoc, List.append_assoc]
    exact Break.append (by decide) (by decide) _
  have hdatabase := (parses_name.after (ofString "; USE DATABASE ")).pair hworker fun p rest _ => by
    rw [List.append_assoc, List.append_assoc]
    exact cutoff_append (by decide) (by decide) _
  have hnamespace := parses_name.pair hdatabase fun p rest _ => by
    rw [List.append_assoc, List.append_assoc]
    exact cutoff_append (by decide) (by decide) _
  exact (hnamespace.after (ofString "USE NAMESPACE ")).before fun rest =>
    begins_append List.mem_cons_self _

/-! ### Any statement -/

namespace Statement

abbrev Parts := Select Reference ⊕ CreateParts ⊕ UpdateParts ⊕ DeleteParts ⊕ ClaimParts

def ofParts : Parts → Statement Reference
  | .inl s => .select s
  | .inr (.inl (table, identity, fields)) => .create table identity fields
  | .inr (.inr (.inl (table, identity, fields))) => .update table identity fields
  | .inr (.inr (.inr (.inl (table, identity)))) => .delete table identity
  | .inr (.inr (.inr (.inr (inNamespace, inDatabase, worker, count, queue, narrowing)))) =>
      .claim ⟨inNamespace, inDatabase, queue, worker⟩ count narrowing

def parts : Statement Reference → Parts
  | .select s => .inl s
  | .create table identity fields => .inr (.inl (table, identity, fields))
  | .update table identity fields => .inr (.inr (.inl (table, identity, fields)))
  | .delete table identity => .inr (.inr (.inr (.inl (table, identity))))
  | .claim s count narrowing =>
      .inr (.inr (.inr (.inr (s.inNamespace, s.inDatabase, s.worker, count, s.queue, narrowing))))

def Parts.text : Parts → Str :=
  Sum.elim (fun s => s.parts.text) (Sum.elim CreateParts.text (Sum.elim UpdateParts.text
    (Sum.elim DeleteParts.text ClaimParts.text)))

/-- How a statement over references is written. -/
def text (statement : Statement Reference) : Str := Parts.text statement.parts

def readParts : Infix.Reader CodePoint Parts :=
  readEither readSelect (readEither readCreateParts (readEither readUpdateParts
    (readEither readDeleteParts readClaimParts)))

theorem parses_parts : Parses Parts.text Anything readParts := by
  have hcreate : ∀ p rest, Begins [ofString "CREATE "] (CreateParts.text p ++ rest) := fun p rest => by
    rw [CreateParts.text, List.append_assoc, List.append_assoc]
    exact begins_append List.mem_cons_self _
  have hupdate : ∀ p rest, Begins [ofString "UPDATE "] (UpdateParts.text p ++ rest) := fun p rest => by
    rw [UpdateParts.text, List.append_assoc, List.append_assoc]
    exact begins_append List.mem_cons_self _
  have hdelete : ∀ p rest, Begins [ofString "DELETE "] (DeleteParts.text p ++ rest) := fun p rest => by
    rw [DeleteParts.text, List.append_assoc, List.append_assoc]
    exact begins_append List.mem_cons_self _
  have hclaim : ∀ p rest, Begins [ofString "USE NAMESPACE "] (ClaimParts.text p ++ rest) :=
    fun p rest => by
      rw [ClaimParts.text, List.append_assoc, List.append_assoc]
      exact begins_append List.mem_cons_self _
  have hneeds : ∀ (word : Str) {α : Type} (read : Infix.Reader CodePoint α) (close : Str),
      Needs word (readBefore (readAfter word read) close) :=
    fun word _ read close => (needs_after word read).before close
  refine parses_select.either (parses_createParts.either (parses_updateParts.either
    (parses_deleteParts.either parses_claimParts ?_) ?_) ?_) ?_
  · exact fun p rest _ => (hneeds _ _ _).none (hclaim p rest) (by decide)
  · rintro (p | p) rest -
    · exact (hneeds _ _ _).none (hdelete p rest) (by decide)
    · exact (hneeds _ _ _).none (hclaim p rest) (by decide)
  · rintro (p | p | p) rest -
    · exact (hneeds _ _ _).none (hupdate p rest) (by decide)
    · exact (hneeds _ _ _).none (hdelete p rest) (by decide)
    · exact (hneeds _ _ _).none (hclaim p rest) (by decide)
  · rintro (p | p | p | p) rest -
    · exact ((hneeds _ _ _).as _).none (hcreate p rest) (by decide)
    · exact ((hneeds _ _ _).as _).none (hupdate p rest) (by decide)
    · exact ((hneeds _ _ _).as _).none (hdelete p rest) (by decide)
    · exact ((hneeds _ _ _).as _).none (hclaim p rest) (by decide)

def read : Infix.Reader CodePoint (Statement Reference) := readAs ofParts readParts

/-- **The language of the statements.** -/
theorem parses : Parses text Anything read := by
  refine parses_parts.as ?_ ?_
  · rintro (s | ⟨_, _, _⟩ | ⟨_, _, _⟩ | ⟨_, _⟩ | ⟨_, _, _, _, _, _⟩)
    all_goals rfl
  · intro statement
    cases statement <;> rfl

/-- The statement a whole text is. -/
def readWhole (script : Str) : Option (Statement Reference) := readAll read script

theorem readWhole_eq_some_iff {script : Str} {statement : Statement Reference} :
    readWhole script = some statement ↔ script = statement.text :=
  parses.readAll_eq_some_iff trivial

end Statement

/-! ### Values and references -/

/-- Names with the numbers of what is assigned to them, from `n` on. -/
def numberFrom : List (Name × V) → ℕ → List (Name × Reference)
  | [], _ => []
  | p :: ps, n => (p.1, .number n) :: numberFrom ps (n + 1)

namespace Assigned

def list (fields : Assigned V) : List (Name × V) := fields.1 :: fields.2

def values (fields : Assigned V) : List V := fields.list.map Prod.snd

def map (f : V → W) (fields : Assigned V) : Assigned W :=
  ((fields.1.1, f fields.1.2), fields.2.map fun p => (p.1, f p.2))

def referenced (fields : Assigned V) (n : ℕ) : Assigned Reference :=
  ((fields.1.1, .number n), numberFrom fields.2 (n + 1))

end Assigned

namespace Statement

def map (f : V → W) : Statement V → Statement W
  | .select s => .select (s.map f)
  | .create table identity fields => .create table (identity.map f) (fields.map f)
  | .update table identity fields => .update table (f identity) (fields.map f)
  | .delete table identity => .delete table (f identity)
  | .claim s count narrowing => .claim s count (narrowing.map (Filter.map f))

/-- The values, in the order they are numbered in. -/
def values : Statement V → List V
  | .select s => whereOperands s.narrowing
  | .create _ identity fields => identity.toList ++ fields.values
  | .update _ identity fields => identity :: fields.values
  | .delete _ identity => [identity]
  | .claim _ _ narrowing => whereOperands narrowing

/-- Each value replaced by the reference it is bound to. -/
def referenced : Statement V → Statement Reference
  | .select s => .select ⟨s.table, s.items, s.narrowing.map fun filter => filter.referenced 0,
      s.order, s.start, s.limit, s.staleness, s.answeredBy⟩
  | .create table identity fields =>
      .create table (identity.map fun _ => .number 0) (fields.referenced identity.toList.length)
  | .update table _ fields => .update table (.number 0) (fields.referenced 1)
  | .delete table _ => .delete table (.number 0)
  | .claim s count narrowing => .claim s count (narrowing.map fun filter => filter.referenced 0)

/-- What is sent of a statement. -/
def rendered (statement : Statement V) : Rendered V :=
  ⟨statement.referenced.text, numbered statement.values⟩

end Statement

/-! ### Looking the values up -/

theorem map_get?_numberFrom (ps : List (Name × V)) (before : List V) :
    (numberFrom ps before.length).map (fun p =>
        (p.1, Dict.get? (numbered (before ++ ps.map Prod.snd)) p.2.text)) =
      ps.map fun p => (p.1, some p.2) := by
  induction ps generalizing before with
  | nil => rfl
  | cons p ps ih =>
      have hrest := ih (before ++ [p.2])
      rw [List.length_append, List.append_assoc] at hrest
      have hfirst : Dict.get? (numbered (before ++ p.2 :: ps.map Prod.snd))
          (numberName before.length) = some p.2 := get?_numbered before p.2 _
      exact congrArg₂ _ (congrArg _ hfirst) hrest

theorem Assigned.map_get?_referenced (fields : Assigned V) (before : List V) :
    (fields.referenced before.length).map (fun reference =>
        Dict.get? (numbered (before ++ fields.values)) reference.text) = fields.map some := by
  have h := map_get?_numberFrom fields.list before
  obtain ⟨hfirst, hrest⟩ := List.cons.inj h
  exact Prod.ext hfirst hrest

theorem map_get?_narrowing (narrowing : Option (Filter V)) :
    (narrowing.map fun filter => filter.referenced 0).map (Filter.map fun reference =>
        Dict.get? (numbered (whereOperands narrowing)) reference.text) =
      narrowing.map (Filter.map some) := by
  cases narrowing with
  | none => rfl
  | some filter =>
      have h := filter.map_get?_referenced [] []
      rw [List.append_nil, List.nil_append] at h
      exact congrArg some h

/-- **Looked up among the parameters, the references are the values.** -/
theorem Statement.map_get?_referenced (statement : Statement V) :
    statement.referenced.map (fun reference =>
        Dict.get? (numbered statement.values) reference.text) = statement.map some := by
  cases statement with
  | select s => 
      have h := map_get?_narrowing s.narrowing
      simp only [referenced, map, Select.map, values, h]
  | create table identity fields =>
      have h := fields.map_get?_referenced identity.toList
      have hidentity : ∀ v ∈ identity,
          Dict.get? (numbered (identity.toList ++ fields.values)) (numberName 0) = some v := by
        rintro v rfl
        exact get?_numbered [] v _
      cases identity with
      | none => simp only [referenced, map, values, h, Option.map_none]
      | some v =>
          simp only [referenced, map, values, h, Option.map_some, Reference.number,
            hidentity v rfl]
  | update table identity fields =>
      have h : (fields.referenced 1).map (fun reference => Dict.get?
          (numbered (identity :: fields.values)) reference.text) = fields.map some :=
        fields.map_get?_referenced [identity]
      have hidentity : Dict.get? (numbered (identity :: fields.values)) (numberName 0) =
          some identity := get?_numbered [] identity fields.values
      simp only [referenced, map, values, Reference.number, h, hidentity]
  | delete table identity =>
      have hidentity : Dict.get? (numbered [identity]) (numberName 0) = some identity :=
        get?_numbered [] identity []
      simp only [referenced, map, values, Reference.number, hidentity]
  | claim s count narrowing =>
      have h := map_get?_narrowing narrowing
      simp only [referenced, map, values, h]

/-! ### Built statements as trees -/

/-- Items whose names were checked. -/
def namedItems (items : List (Str × V)) (h : ∀ item ∈ items, IsName item.1) : List (Name × V) :=
  items.pmap (fun item hitem => (⟨item.1, hitem⟩, item.2)) h

/-- The fields of a write, checked and by ascending name. -/
def assignedOf (items : List (Str × V)) : Except Rejected (Assigned V) := do
  let fields ← checkedFields items
  match namedItems (Dict.sorted fields.items)
      fun item hitem => fields.named item (Dict.mem_sorted.mp hitem) with
  | [] => throw (.builderError ⟨.incomplete, "", []⟩)
  | p :: ps => return (p, ps)

/-- The count of a claim. -/
def claimCount (count : ℤ) : Except Rejected Count :=
  if h : 1 ≤ count ∧ count ≤ CEILING then
    .ok ⟨count, by omega, h.2.trans (by decide)⟩
  else .error (.builderError ⟨.notACount, "a count", str count⟩)

/-- What was built, as a tree. -/
def Built.statement : Built V → Except Rejected (Statement V)
  | .select table calls => do
      let s ← Select.build table calls
      return .select s
  | .create table identity calls => do
      let w ← Write.build table identity calls
      let fields ← assignedOf w.fields
      return .create w.table w.identity fields
  | .update table identity calls => do
      let w ← Write.build table identity calls
      let fields ← assignedOf w.fields
      match w.identity with
      | none => throw (.builderError ⟨.incomplete, "", []⟩)
      | some identity => return .update w.table identity fields
  | .delete table identity => do
      let d ← Delete.new table identity
      return .delete d.table d.identity
  | .claim inNamespace inDatabase queue worker count narrowing => do
      let s ← QueueStatements.new inNamespace inDatabase queue worker
      let count ← claimCount count
      return .claim s count narrowing

theorem map_namedItems (items : List (Str × V)) (h : ∀ item ∈ items, IsName item.1) :
    (namedItems items h).map (fun p => (p.1.text, p.2)) = items := by
  induction items with
  | nil => rfl
  | cons item items ih => exact congrArg (item :: ·) (ih fun i hi => h i (List.mem_cons_of_mem _ hi))

theorem assignedOf_of_error {items : List (Str × V)} {why : Rejected}
    (h : checkedFields items = .error why) : assignedOf items = .error why := by
  rw [assignedOf, h]
  rfl

/-- The checked fields of a write are the sorted ones, under the same names. -/
theorem assignedOf_of_ok {items : List (Str × V)} {checked : Fields V}
    (h : checkedFields items = .ok checked) : ∃ fields, assignedOf items = .ok fields ∧
      fields.list.map (fun p => (p.1.text, p.2)) = Dict.sorted items := by
  obtain rfl := items_of_checkedFields h
  have hmap := map_namedItems (Dict.sorted checked.items)
    fun item hitem => checked.named item (Dict.mem_sorted.mp hitem)
  have hne : checked.items ≠ [] := (checkedFields_ok_iff.mp ⟨checked, h⟩).1
  rw [assignedOf, h]
  change ∃ fields, (match namedItems (Dict.sorted checked.items) _ with
    | [] => throw (.builderError ⟨.incomplete, "", []⟩)
    | p :: ps => return (p, ps) : Except Rejected (Assigned V)) = .ok fields ∧ _
  cases hnamed : namedItems (Dict.sorted checked.items)
      fun item hitem => checked.named item (Dict.mem_sorted.mp hitem) with
  | nil =>
      rw [hnamed, List.map_nil] at hmap
      exact absurd ((Dict.sorted_perm checked.items).symm.trans (List.Perm.of_eq hmap.symm)).eq_nil hne
  | cons p ps =>
      rw [hnamed] at hmap
      exact ⟨(p, ps), rfl, hmap⟩

/-! ### Rendering writes the language -/

theorem writeClause_eq {α : Type} (word : String) (write : α → Str) (a : Option α) :
    clause word (a.map write) = writeClause (ofString word) write a := by
  cases a <;> rfl

theorem join_eq {α : Type} (sep : Str) (write : α → Str) (a : α) (as : List α) :
    join sep ((a :: as).map write) = writeSeparated sep write (a, as) := by
  induction as generalizing a with
  | nil =>
      rw [writeSeparated, writeMany, List.flatMap_nil, List.append_nil]
      rfl
  | cons b as ih =>
      have hrest := ih b
      rw [List.map_cons] at hrest
      rw [List.map_cons, List.map_cons, join_cons_cons, hrest]
      simp only [writeSeparated, writeMany, List.flatMap_cons, List.append_assoc]

theorem listed_eq {α : Type} (word : String) (write : α → Str) (as : List α) :
    clause word (listed (as.map write)) =
      writeClause (ofString word) (writeSeparated (ofString ", ") write) (unlist as) := by
  cases as with
  | nil => rfl
  | cons a as => rw [unlist, writeClause, Option.elim_some, ← join_eq]; rfl

theorem whereText_eq (narrowing : Option (Filter V)) :
    whereText narrowing 0 = writeClause (ofString " WHERE ") filterText
      (narrowing.map fun filter => filter.referenced 0) := by
  cases narrowing with
  | none => rfl
  | some filter =>
      rw [whereText, Option.elim_some, Option.map_some, writeClause, Option.elim_some, filterText,
        filter.text_eq_write]

/-- The names and numbers of assignments, as they are written. -/
theorem join_writtenText {between : Str} {mark : Str} (hmark : mark = between ++ ofString "$")
    (fields : Assigned V) (n : ℕ) :
    join ", " (writtenText between (fields.list.map fun p => p.1.text) n) =
      writeSeparated (ofString ", ") (assignedText mark) (fields.referenced n) := by
  have hwritten : ∀ (ps : List (Name × V)) n, writtenText between (ps.map fun p => p.1.text) n =
      (numberFrom ps n).map (assignedText mark) := by
    intro ps
    induction ps with
    | nil => exact fun _ => rfl
    | cons p ps ih =>
        intro n
        rw [List.map_cons, writtenText, numberFrom, List.map_cons, ih]
        simp only [assignedText, Reference.number, hmark, List.append_assoc]
  rw [hwritten]
  exact join_eq _ _ _ _

theorem Select.text_eq (s : Select V) :
    s.text = (Statement.select s).referenced.text := by
  have hitems : (listed (s.items.map Item.text)).getD "*" =
      Projected.text (match s.items with
        | [] => .inl ()
        | item :: items => .inr (item, items)) := by
    cases s.items with
    | nil => rfl
    | cons item items => exact join_eq (ofString ", ") Item.text item items
  simp only [text, head, tail, hitems, whereText_eq, listed_eq, writeClause_eq,
    Statement.referenced, Statement.text, Statement.parts, Statement.Parts.text, Sum.elim_inl,
    parts, SelectParts.text, SelectClauses.text, List.append_assoc]
  rfl

/-- The assignments of a write, by ascending name. -/
theorem Write.assignedText_eq {w : Write V} {fields : Assigned V} {between : Str} {mark : Str}
    (hfields : fields.list.map (fun p => (p.1.text, p.2)) = Dict.sorted w.fields)
    (hmark : mark = between ++ ofString "$") :
    w.assignedText between = writeSeparated (ofString ", ") (TessariDB.assignedText mark)
      (fields.referenced w.identity.toList.length) := by
  have hkeys : Dict.keys (Dict.sorted w.fields) = fields.list.map fun p => p.1.text := by
    rw [← hfields, Dict.keys, List.map_map]
    rfl
  rw [assignedText, hkeys, join_writtenText hmark]

theorem Write.bound_eq {w : Write V} {fields : Assigned V}
    (hfields : fields.list.map (fun p => (p.1.text, p.2)) = Dict.sorted w.fields) :
    w.bound = w.identity.toList ++ fields.values := by
  rw [bound, ← hfields, List.map_map]
  rfl

theorem Write.createText_eq {w : Write V} {fields : Assigned V}
    (hfields : fields.list.map (fun p => (p.1.text, p.2)) = Dict.sorted w.fields) :
    w.createText = (Statement.create w.table w.identity fields).referenced.text := by
  have hassigned := assignedText_eq hfields
    (show ofString ": $" = ofString ": " ++ ofString "$" from rfl)
  obtain ⟨table, identity, items⟩ := w
  rw [createText, hassigned]
  cases identity with
  | none =>
      simp only [subjectText, Statement.referenced, Statement.text, Statement.parts,
        Statement.Parts.text, Sum.elim_inr, Sum.elim_inl, CreateParts.text, Option.map_none,
        writeClause, Option.elim_none, List.append_assoc, List.nil_append]
      rfl
  | some identity =>
      simp only [subjectText, Statement.referenced, Statement.text, Statement.parts,
        Statement.Parts.text, Sum.elim_inr, Sum.elim_inl, CreateParts.text, Option.map_some,
        writeClause, Option.elim_some, List.append_assoc]
      rfl

theorem Write.updateText_eq {table : Name} {identity : V} {items : List (Str × V)}
    {fields : Assigned V}
    (hfields : fields.list.map (fun p => (p.1.text, p.2)) = Dict.sorted items) :
    (⟨table, some identity, items⟩ : Write V).updateText =
      (Statement.update table identity fields).referenced.text := by
  have hassigned := @assignedText_eq V ⟨table, some identity, items⟩ fields " = " _ hfields
    (show ofString " = $" = ofString " = " ++ ofString "$" from rfl)
  rw [updateText, hassigned]
  simp only [subjectText, Statement.referenced, Statement.text, Statement.parts,
    Statement.Parts.text, Sum.elim_inr, Sum.elim_inl, UpdateParts.text, Option.elim_some,
    List.append_assoc]
  rfl

theorem Delete.render_eq_rendered (d : Delete V) :
    d.render = (Statement.delete d.table d.identity).rendered := by
  have htext : ofString "DELETE " ++ d.table.text ++ ":" ++ ("$" ++ numberName 0) ++ ";" =
      (Statement.delete d.table d.identity).referenced.text := by
    simp only [Statement.referenced, Statement.text, Statement.parts, Statement.Parts.text,
      Sum.elim_inr, Sum.elim_inl, DeleteParts.text, List.append_assoc]
    rfl
  rw [d.render_eq, htext]
  rfl

theorem QueueStatements.claim_eq_rendered (s : QueueStatements) (n : ℤ)
    (narrowing : Option (Filter V)) :
    s.claim n narrowing =
      (claimCount n).map fun count => (Statement.claim s count narrowing).rendered := by
  rw [s.claim_eq, claimCount]
  split
  · next hcount =>
    have htext : ∀ count : Count, s.tenancy ++ "USE CONSUMER '" ++ s.worker.text ++ "'; CLAIM " ++
        str count.value ++ " FROM " ++ s.queue.text ++ whereText narrowing 0 ++ ";" =
          (Statement.claim s count narrowing).referenced.text := fun count => by
      simp only [tenancy, TessariDB.tenancy, whereText_eq, Statement.referenced, Statement.text,
        Statement.parts, Statement.Parts.text, Sum.elim_inr, ClaimParts.text, List.append_assoc]
      rfl
    rw [htext ⟨n, by omega, hcount.2.trans (by decide)⟩]
    rfl
  · rfl

/-- **What is rendered is the language of the statements**, and nothing else is rendered. -/
theorem Built.rendered_eq (b : Built V) : b.rendered = b.statement.map Statement.rendered := by
  cases b with
  | select table calls =>
      rw [rendered, statement, Sequences.map_bind]
      refine bind_congr fun s => ?_
      rw [s.render_eq, s.text_eq]
      rfl
  | create table identity calls =>
      rw [rendered, statement, Sequences.map_bind]
      refine bind_congr fun w => ?_
      rw [w.renderCreate_eq]
      cases hchecked : checkedFields w.fields with
      | error why =>
          rw [assignedOf_of_error hchecked]
          rfl
      | ok checked =>
          obtain ⟨fields, hassigned, hfields⟩ := assignedOf_of_ok hchecked
          rw [hassigned, w.createText_eq hfields, w.bound_eq hfields]
          rfl
  | update table identity calls =>
      rw [rendered, statement, Sequences.map_bind]
      refine bind_congr fun w => ?_
      rw [w.renderUpdate_eq]
      cases hchecked : checkedFields w.fields with
      | error why =>
          rw [assignedOf_of_error hchecked]
          rfl
      | ok checked =>
          obtain ⟨fields, hassigned, hfields⟩ := assignedOf_of_ok hchecked
          obtain ⟨name, _ | subject, items⟩ := w
          · rw [hassigned]
            rfl
          · rw [hassigned, Write.updateText_eq hfields, Write.bound_eq hfields]
            rfl
  | delete table identity =>
      rw [rendered, statement, Sequences.map_bind]
      refine bind_congr fun d => ?_
      rw [d.render_eq_rendered]
      rfl
  | claim inNamespace inDatabase queue worker n narrowing =>
      rw [rendered, statement, Sequences.map_bind]
      refine bind_congr fun s => ?_
      rw [s.claim_eq_rendered]
      cases claimCount n <;> rfl

/-! ### The statement that runs -/

section

variable {f : V → W} (hf : Function.Injective f)

include hf

theorem Filter.map_injective : Function.Injective (Filter.map f) := by
  intro a
  induction a with
  | comparison field operator value =>
      rintro (⟨field', operator', value'⟩ | _) h
      · rw [map, map, comparison.injEq] at h
        rw [comparison.injEq]
        exact ⟨h.1, h.2.1, hf h.2.2⟩
      · cases h
  | junction word left right ihl ihr =>
      rintro (_ | ⟨word', left', right'⟩) h
      · cases h
      · rw [map, map, junction.injEq] at h
        rw [junction.injEq]
        exact ⟨h.1, ihl h.2.1, ihr h.2.2⟩

theorem Assigned.map_injective : Function.Injective (Assigned.map f) := by
  have hfield : Function.Injective fun p : Name × V => (p.1, f p.2) := fun p q h =>
    Prod.ext (Prod.ext_iff.mp h).1 (hf (Prod.ext_iff.mp h).2)
  intro a b h
  have hfirst := (Prod.ext_iff.mp h).1
  have hrest := (Prod.ext_iff.mp h).2
  exact Prod.ext (hfield hfirst) (List.map_injective_iff.mpr hfield hrest)

/-- Statements over other values are the same where the values are the same. -/
theorem Statement.map_injective : Function.Injective (Statement.map f) := by
  have hfilter := Option.map_injective (Filter.map_injective hf)
  have hfields := Assigned.map_injective hf
  rintro (s | ⟨table, identity, fields⟩ | ⟨table, identity, fields⟩ | ⟨table, identity⟩ |
    ⟨s, count, narrowing⟩) (s' | ⟨table', identity', fields'⟩ | ⟨table', identity', fields'⟩ |
    ⟨table', identity'⟩ | ⟨s', count', narrowing'⟩) h
  case select.select =>
    obtain ⟨table, items, narrowing, order, start, limit, staleness, answeredBy⟩ := s
    obtain ⟨table', items', narrowing', order', start', limit', staleness', answeredBy'⟩ := s'
    simp only [map, Select.map, select.injEq, Select.mk.injEq] at h ⊢
    exact ⟨h.1, h.2.1, hfilter h.2.2.1, h.2.2.2⟩
  case create.create =>
    simp only [map, create.injEq] at h ⊢
    exact ⟨h.1, Option.map_injective hf h.2.1, hfields h.2.2⟩
  case update.update =>
    simp only [map, update.injEq] at h ⊢
    exact ⟨h.1, hf h.2.1, hfields h.2.2⟩
  case delete.delete =>
    simp only [map, delete.injEq] at h ⊢
    exact ⟨h.1, hf h.2⟩
  case claim.claim =>
    simp only [map, claim.injEq] at h ⊢
    exact ⟨h.1, h.2.1, hfilter h.2.2⟩
  all_goals cases h

end

/-- What is sent of a statement is read back, and the parameters are its values. -/
theorem Statement.readWhole_rendered (statement : Statement V) :
    readWhole statement.rendered.script = some statement.referenced ∧
      statement.referenced.map (fun reference =>
        Dict.get? statement.rendered.parameters reference.text) = statement.map some :=
  ⟨readWhole_eq_some_iff.mpr rfl, statement.map_get?_referenced⟩

/-- No two statements are sent alike. -/
theorem Statement.rendered_injective :
    Function.Injective (rendered : Statement V → Rendered V) := by
  intro a b h
  obtain ⟨hread, hlook⟩ := a.readWhole_rendered
  obtain ⟨hread', hlook'⟩ := b.readWhole_rendered
  rw [h, hread', Option.some_inj] at hread
  rw [← hread, h, hlook'] at hlook
  exact (map_injective (Option.some_injective V) hlook).symm

/-- **The statement that was built is the statement that runs.** What a builder renders is read
back, with no rule of precedence, as the tree of what was built, with every value where it was
put; no other text is read so; and what is rendered of two builders is the same exactly when
their statements are. -/
theorem statement_built_is_statement_run {b : Built V} {r : Rendered V} (h : b.rendered = .ok r) :
    ∃ statement, b.statement = .ok statement ∧
      (∀ script, Statement.readWhole script = some statement.referenced ↔ script = r.script) ∧
      statement.referenced.map (fun reference => Dict.get? r.parameters reference.text) =
        statement.map some ∧
      ∀ (b' : Built V) (r' : Rendered V), b'.rendered = .ok r' →
        (r' = r ↔ b'.statement = .ok statement) := by
  have hbuilt : ∀ (c : Built V) (q : Rendered V), c.rendered = .ok q →
      ∃ statement, c.statement = .ok statement ∧ q = statement.rendered := by
    intro c q hc
    rw [c.rendered_eq] at hc
    obtain ⟨statement, hstatement, rfl⟩ := Sequences.map_eq_ok.mp hc
    exact ⟨statement, hstatement, rfl⟩
  obtain ⟨statement, hstatement, rfl⟩ := hbuilt b r h
  refine ⟨statement, hstatement, fun script => Statement.readWhole_eq_some_iff,
    statement.readWhole_rendered.2, fun b' r' h' => ?_⟩
  obtain ⟨other, hother, rfl⟩ := hbuilt b' r' h'
  rw [Statement.rendered_injective.eq_iff, hother, Except.ok.injEq]

theorem update_built_is_update_run :
    let b : Built ℕ := .update (ofString "t") (some 7)
      [⟨[(ofString "b", 2)], []⟩, ⟨[(ofString "a", 1)], []⟩]
    ∃ statement, b.statement = .ok statement ∧ ∀ script,
      Statement.readWhole script = some statement.referenced ↔
        script = ofString "UPDATE t:$p0 SET a = $p1, b = $p2;" := by
  intro b
  have hrendered : b.rendered = .ok ⟨ofString "UPDATE t:$p0 SET a = $p1, b = $p2;",
      numbered [7, 1, 2]⟩ := by rfl
  obtain ⟨statement, hstatement, hread, -⟩ := statement_built_is_statement_run hrendered
  exact ⟨statement, hstatement, hread⟩

end TessariDB
