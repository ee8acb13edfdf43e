import TessariDB.Measures
import TessariDB.StatementText

/-!
# Statements that Cannot be Ended

What a caller writes into a statement is a name, a span, a count or one of two words, and each is
checked. A span is counts and units, so it holds letters and digits only, as a name does, and a
count is not negative. So a script holds one semicolon, which ends it, and nothing that opens a
string or a comment.

## Main results

* `isSpan_iff`: what `check_span` accepts.
* `Built.closed_of_rendered`: the scripts of the four statements.
* `nothing_written_ends_it`: both.
-/

namespace TessariDB

open Utf8 Text References

variable {V : Type}

/-! ### Spans -/

/-- At least one digit, and a unit. -/
structure SpanPart (part : Str × String) : Prop where
  count_ne : part.1 ≠ []
  digits : ∀ c ∈ part.1, IsDigit c
  unit : part.2 ∈ SPAN_UNITS

/-- One or more counts with their units. -/
def SpanGrammar (text : Str) : Prop :=
  ∃ parts : List (Str × String), parts ≠ [] ∧ (∀ part ∈ parts, SpanPart part) ∧
    text = parts.flatMap fun part => part.1 ++ ofString part.2

/-- The units in the order they are looked for. -/
def sortedUnits : List String := SPAN_UNITS.insertionSort fun u v => v.length ≤ u.length

theorem sortedUnits_eq : sortedUnits = ["ns", "us", "ms", "s", "m", "h", "d", "w"] := by
  decide +kernel

theorem mem_sortedUnits {u : String} : u ∈ sortedUnits ↔ u ∈ SPAN_UNITS :=
  (List.perm_insertionSort _ SPAN_UNITS).mem_iff

/-- The longer units are looked for first, so none is missed for one that it begins with. -/
theorem sortedUnits_table :
    Measures.Table (fun c => decide (IsDigit c)) ofString sortedUnits where
  word_ne u hu := by
    rw [sortedUnits_eq] at hu
    revert u
    decide
  word_digits u hu c hc := by
    have hletters : (SPAN_UNITS.all fun v => (ofString v).all fun d => decide ¬ IsDigit d) = true := by
      decide
    have hunit := List.all_eq_true.mp hletters u (mem_sortedUnits.mp hu)
    exact decide_eq_false (forall_mem_of_all hunit c hc)
  order := by
    rw [sortedUnits_eq]
    decide

/-- A turn of the loop takes a count and its unit off. -/
theorem spanTurn_eq (rest : Str) :
    spanTurn rest =
      (Measures.turn (fun c => decide (IsDigit c)) ofString sortedUnits rest).map Prod.snd := by
  rw [spanTurn, Measures.turn]
  split
  · rfl
  · rw [Option.map_map]
    rfl

/-- The loop runs to the end of what is made of counts and units. -/
theorem spanLoop_iff {fuel : ℕ} {seen : Bool} {text : Str} :
    spanLoop fuel seen text = true ↔ (seen = true ∨ text ≠ []) ∧
      ∃ parts, Measures.scan (fun c => decide (IsDigit c)) ofString sortedUnits fuel text =
        some parts := by
  induction fuel generalizing seen text with
  | zero =>
      cases text with
      | nil => simp [spanLoop, Measures.scan]
      | cons c text => simp [spanLoop, Measures.scan]
  | succ fuel ih =>
      cases text with
      | nil => simp [spanLoop, Measures.scan]
      | cons c text =>
          rw [spanLoop, spanTurn_eq, Measures.scan]
          cases Measures.turn (fun c => decide (IsDigit c)) ofString sortedUnits (c :: text) with
          | none => simp
          | some taken => simp [ih, Option.bind_eq_some_iff]

/-- **What `check_span` accepts**: one or more counts with their units. -/
theorem isSpan_iff (text : Str) : IsSpan text ↔ SpanGrammar text := by
  rw [IsSpan, spanLoop_iff, SpanGrammar]
  constructor
  · rintro ⟨hne, parts, hscan⟩
    obtain ⟨hparts, htext⟩ := (sortedUnits_table.scan_eq_some_iff le_rfl).mp hscan
    refine ⟨parts, ?_, fun part hpart => ?_, htext⟩
    · rintro rfl
      rcases hne with hseen | hne
      · cases hseen
      · exact hne htext
    · obtain ⟨hcount, hdigits, hunit⟩ := hparts part hpart
      exact ⟨hcount, fun c hc => of_decide_eq_true (hdigits c hc), mem_sortedUnits.mp hunit⟩
  · rintro ⟨parts, hne, hparts, htext⟩
    refine ⟨.inr ?_, parts, (sortedUnits_table.scan_eq_some_iff le_rfl).mpr ⟨fun part hpart => ?_,
      htext⟩⟩
    · obtain ⟨part, parts, rfl⟩ := List.exists_cons_of_ne_nil hne
      have hcount := (hparts part List.mem_cons_self).count_ne
      simp [htext, hcount]
    · obtain ⟨hcount, hdigits, hunit⟩ := hparts part hpart
      exact ⟨hcount, fun c hc => decide_eq_true (hdigits c hc), mem_sortedUnits.mpr hunit⟩

/-! ### What may stand in a script -/

/-- A name character, a space or a sign of the language; no semicolon among them. -/
def MayStand (c : CodePoint) : Prop := IsWord c ∨ c ∈ ofString " *,():$=!<>\x7b\x7d"

instance (c : CodePoint) : Decidable (MayStand c) := instDecidableOr

/-- Text that ends no statement, and opens no string and no comment. -/
abbrev Harmless (s : Str) : Prop := Within MayStand s

theorem admits_mayStand : Admits MayStand where
  word _ := .inl
  sign := forall_mem_of_all (by decide)

theorem harmless_reference (n : ℕ) : Harmless ("$" ++ numberName n) :=
  Within.append (by decide) (admits_mayStand.words (numberName_words n))

/-! ### Clauses -/

theorem Filter.harmless_text (filter : Filter V) (n : ℕ) : Harmless (filter.text n) := by
  have hspace : Harmless " " := by decide
  induction filter generalizing n with
  | comparison field operator value =>
      have hoperator : Harmless operator.value := by cases operator <;> decide
      exact ((((admits_mayStand.words field.words).append hspace).append hoperator).append
        hspace).append (harmless_reference n)
  | junction word left right ihl ihr =>
      have hopen : Harmless "(" := by decide
      have hclose : Harmless ")" := by decide
      have hword : Harmless word.word := by cases word <;> decide
      exact (((((hopen.append (ihl n)).append hspace).append hword).append hspace).append
        (ihr _)).append hclose

theorem harmless_whereText (filter : Option (Filter V)) (n : ℕ) :
    Harmless (whereText filter n) := by
  cases filter with
  | none => exact within_nil
  | some filter => exact Within.append (by decide) (filter.harmless_text n)

theorem harmless_writtenText {between : Str} (hbetween : Harmless between) {names : List Str}
    (hnames : ∀ name ∈ names, IsName name) (n : ℕ) :
    ∀ part ∈ writtenText between names n, Harmless part := by
  induction names generalizing n with
  | nil => exact List.forall_mem_nil _
  | cons name names ih =>
      obtain ⟨hname, hnames⟩ := List.forall_mem_cons.mp hnames
      have hhead : Harmless name := admits_mayStand.words (Name.words ⟨name, hname⟩)
      exact List.forall_mem_cons.mpr
        ⟨(hhead.append hbetween).append (harmless_reference n), ih hnames (n + 1)⟩

/-! ### Scripts -/

/-- Harmless text and the end of the statement. -/
def ClosedScript (script : Str) : Prop := ∃ body, Harmless body ∧ script = body ++ ofString ";"

theorem closed_of_harmless {body : Str} (h : Harmless body) :
    ClosedScript (body ++ ofString ";") :=
  ⟨body, h, rfl⟩

theorem Select.closed_text (s : Select V) : ClosedScript s.text := by
  obtain ⟨clauses, htail, hclauses⟩ := s.within_tail admits_mayStand
  rw [text, htail, ← List.append_assoc]
  exact closed_of_harmless
    (((s.within_head admits_mayStand).append (harmless_whereText _ _)).append hclauses)

namespace Write

variable {w : Write V}

theorem harmless_subjectText : Harmless w.subjectText := by
  obtain ⟨table, _ | identity, items⟩ := w
  · exact admits_mayStand.words table.words
  · have hcolon : Harmless ":" := by decide
    exact ((admits_mayStand.words table.words).append hcolon).append (harmless_reference 0)

theorem harmless_assignedText (hnames : ∀ item ∈ w.fields, IsName item.1) {between : Str}
    (hbetween : Harmless between) : Harmless (w.assignedText between) := by
  have hcomma : Harmless ", " := by decide
  refine hcomma.join (harmless_writtenText hbetween (fun name hname => ?_) _)
  obtain ⟨item, hitem, rfl⟩ := List.mem_map.mp hname
  exact hnames item (Dict.mem_sorted.mp hitem)

theorem closed_createText (hnames : ∀ item ∈ w.fields, IsName item.1) :
    ClosedScript w.createText := by
  have hcreate : Harmless "CREATE " := by decide
  have hequals : Harmless " = " := by decide
  have hopen : Harmless "\x7b " := by decide
  have hclose : Harmless " \x7d" := by decide
  have hassigned : Harmless (w.assignedText ": ") := harmless_assignedText hnames (by decide)
  exact closed_of_harmless (((hcreate.append harmless_subjectText).append hequals).append
    ((hopen.append hassigned).append hclose))

theorem closed_updateText (hnames : ∀ item ∈ w.fields, IsName item.1) :
    ClosedScript w.updateText := by
  have hupdate : Harmless "UPDATE " := by decide
  have hset : Harmless " SET " := by decide
  exact closed_of_harmless (((hupdate.append harmless_subjectText).append hset).append
    (harmless_assignedText hnames (by decide)))

end Write

/-- One of the four statements of the builder. -/
inductive Built.OfBuilder : Built V → Prop where
  | select (table : Str) (calls : List (SelectCall V)) : OfBuilder (.select table calls)
  | create (table : Str) (identity : Option V) (calls : List (SetCall V)) :
      OfBuilder (.create table identity calls)
  | update (table : Str) (identity : Option V) (calls : List (SetCall V)) :
      OfBuilder (.update table identity calls)
  | delete (table : Str) (identity : V) : OfBuilder (.delete table identity)

/-- **What is rendered is closed.** -/
theorem Built.closed_of_rendered {b : Built V} (hb : b.OfBuilder) {r : Rendered V}
    (h : b.rendered = .ok r) : ClosedScript r.script := by
  cases hb with
  | select table calls =>
      obtain ⟨s, -, h⟩ := Sequences.bind_eq_ok.mp h
      cases h
      rw [s.render_eq]
      exact s.closed_text
  | create table identity calls =>
      obtain ⟨w, -, hnames, rfl⟩ := Built.create_eq_ok h
      exact Write.closed_createText hnames
  | update table identity calls =>
      obtain ⟨w, -, hnames, rfl⟩ := Built.update_eq_ok h
      exact Write.closed_updateText hnames
  | delete table identity =>
      obtain ⟨d, -, h⟩ := Sequences.bind_eq_ok.mp h
      cases h
      have hdelete : Harmless "DELETE " := by decide
      have hcolon : Harmless ":" := by decide
      rw [Delete.render_eq]
      exact closed_of_harmless (((hdelete.append (admits_mayStand.words d.table.words)).append
        hcolon).append (harmless_reference 0))

/-- The end of a statement. -/
def SEMICOLON : CodePoint := codePoint 0x3B

/-- Exactly one semicolon, at the end, and no character but these. -/
structure EndsOnce (script : Str) : Prop where
  once : script.count SEMICOLON = 1
  last : script.getLast? = some SEMICOLON
  characters : ∀ c ∈ script, IsWord c ∨ c ∈ ofString " *,():$=!<>\x7b\x7d;"

theorem ClosedScript.endsOnce {script : Str} (h : ClosedScript script) : EndsOnce script := by
  obtain ⟨body, hbody, rfl⟩ := h
  have hsemicolon : SEMICOLON ∉ body := fun hmem =>
    absurd (hbody SEMICOLON hmem) (by decide)
  refine ⟨?_, ?_, fun c hc => ?_⟩
  · rw [List.count_append, List.count_eq_zero.mpr hsemicolon]
    rfl
  · exact List.getLast?_concat
  · rcases List.mem_append.mp hc with hc | hc
    · rcases hbody c hc with hword | hsign
      · exact .inl hword
      · exact .inr (List.mem_append_left (ofString ";") hsign)
    · exact .inr (List.mem_append_right (ofString " *,():$=!<>\x7b\x7d") hc)

/-- **Nothing written into a statement ends it.** A span is accepted exactly when it is counts with
units, and whatever is passed to the builder, a script it renders holds one semicolon, its last
character, and no character that opens a string or a comment. -/
theorem nothing_written_ends_it (text : Str) (b : Built V) (hb : b.OfBuilder) :
    ((∃ span, checkSpan text = .ok span) ↔ SpanGrammar text) ∧
      ∀ r, b.rendered = .ok r → EndsOnce r.script := by
  refine ⟨?_, fun r hr => (Built.closed_of_rendered hb hr).endsOnce⟩
  rw [← isSpan_iff]
  by_cases hspan : IsSpan text <;> simp [checkSpan, hspan]

/-- A page of a table, as fresh as a minute and a half. -/
theorem nothing_written_ends_it_select :
    ((∃ span, checkSpan "1m30s" = .ok span) ↔ SpanGrammar "1m30s") ∧
      EndsOnce "SELECT * FROM t LIMIT 5 STALENESS 1m30s;" := by
  have h := nothing_written_ends_it "1m30s" (.select "t" [.staleness "1m30s", .limit 5] : Built ℕ)
    (.select _ _)
  exact ⟨h.1, h.2 ⟨"SELECT * FROM t LIMIT 5 STALENESS 1m30s;", []⟩ rfl⟩

end TessariDB
