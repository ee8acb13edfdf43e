import TessariDB.Infix
import TessariDB.Query

/-!
# Reading a Filter Back

The text of a filter is a fully parenthesised infix language: a comparison is a leaf, `AND` and
`OR` are the words between two sides. A reader that knows nothing of how the two words bind takes
the text apart into the tree it was rendered from, and the references in it are bound to the
operands that tree was built with.

## Main results

* `Filter.text_eq_write`: the renderer writes that language.
* `filter_built_is_filter_run`: the tree that was built is the tree that runs.
-/

namespace TessariDB

open Utf8 Text References Infix

variable {V W : Type}

/-! ### Leaves and words -/

/-- The name of a parameter, where a value stands in a filter. -/
structure Reference where
  text : Str
  words : ∀ c ∈ text, IsWord c
  deriving DecidableEq

/-- The reference to the value at a place. -/
def Reference.number (n : ℕ) : Reference := ⟨numberName n, numberName_words n⟩

/-- What stands between a field and the name of its value. -/
def Operator.between (operator : Operator) : Str := " " ++ operator.value ++ " $"

/-- What stands between the two sides of a junction. -/
def Junction.between (word : Junction) : Str := " " ++ word.word ++ " "

/-- `text` as a checked name. -/
def nameOf (text : Str) : Option Name := if h : IsName text then some ⟨text, h⟩ else none

/-- `text` as a reference. -/
def referenceOf (text : Str) : Option Reference :=
  if h : ∀ c ∈ text, IsWord c then some ⟨text, h⟩ else none

theorem nameOf_eq_some_iff (text : Str) (name : Name) :
    nameOf text = some name ↔ text = name.text := by
  rw [nameOf]
  constructor
  · intro h
    split at h
    · cases h
      rfl
    · cases h
  · rintro rfl
    rw [dif_pos name.valid]

theorem referenceOf_eq_some_iff (text : Str) (reference : Reference) :
    referenceOf text = some reference ↔ text = reference.text := by
  rw [referenceOf]
  constructor
  · intro h
    split at h
    · cases h
      rfl
    · cases h
  · rintro rfl
    rw [dif_pos reference.words]

theorem Operator.between_free (o p : Operator) (h : o.between <+: p.between) : o = p := by
  cases o <;> cases p <;> first | rfl | exact absurd h (by decide)

theorem Junction.between_free (v w : Junction) (h : v.between <+: w.between) : v = w := by
  cases v <;> cases w <;> first | rfl | exact absurd h (by decide)

/-- `field operator $reference`. -/
abbrev Leaf := Name × Operator × Reference

def isWord (c : CodePoint) : Bool := decide (IsWord c)

def readLeaf : Infix.Reader CodePoint Leaf :=
  readPair (readRun isWord nameOf)
    (readPair (readKey Operator.between [.eq, .ne, .lt, .le, .gt, .ge])
      (readRun isWord referenceOf))

def leafText (leaf : Leaf) : Str := leaf.1.text ++ (leaf.2.1.between ++ leaf.2.2.text)

theorem leaf_reads : Reads leafText (Break isWord) readLeaf := by
  have hname : Reads Name.text (Break isWord) (readRun isWord nameOf) :=
    reads_run (fun name c hc => decide_eq_true (name.words c hc)) nameOf_eq_some_iff
  have hreference : Reads Reference.text (Break isWord) (readRun isWord referenceOf) :=
    reads_run (fun reference c hc => decide_eq_true (reference.words c hc))
      referenceOf_eq_some_iff
  have hoperator := reads_key [Operator.eq, .ne, .lt, .le, .gt, .ge]
    (by intro o; cases o <;> simp) Operator.between_free
  refine reads_pair hname (reads_pair hoperator hreference fun _ _ _ => trivial) ?_
  rintro ⟨operator, reference⟩ rest -
  have hblank : Break isWord operator.between := by cases operator <;> decide
  rw [List.append_assoc]
  exact hblank.append (by cases operator <;> decide) _

/-- The language filters are rendered in. -/
def filterFormat : Format CodePoint Leaf Junction where
  opening := codePoint 0x28
  closing := codePoint 0x29
  leaf := leafText
  word := Junction.between
  readLeaf := readLeaf
  readWord := readKey Junction.between [.and, .or]
  Ends := Break isWord
  leaf_reads := leaf_reads
  word_reads := reads_key _ (by intro w; cases w <;> simp) Junction.between_free
  leaf_open := by
    rintro ⟨⟨_ | ⟨c, name⟩, hvalid⟩, operator, reference⟩ rest h
    · exact hvalid
    · have hc : c = codePoint 0x28 := Option.some.inj h
      exact absurd hvalid.1 (by rw [hc]; decide)
  ends_word := by
    intro word rest
    have hblank : Break isWord word.between := by cases word <;> decide
    exact hblank.append (by cases word <;> decide) rest
  ends_closing := by
    intro rest c hc
    cases hc
    decide
  ends_nil := by
    intro c hc
    cases hc

/-! ### Filters as trees -/

namespace Filter

/-- The tree alone: its connectives, and the field and the operator at every leaf. -/
def shape (filter : Filter V) : Filter Unit := filter.map fun _ => ()

def tree : Filter Reference → Tree Leaf Junction
  | .comparison field operator reference => .leaf (field, operator, reference)
  | .junction word left right => .node word left.tree right.tree

def ofTree : Tree Leaf Junction → Filter Reference
  | .leaf leaf => .comparison leaf.1 leaf.2.1 leaf.2.2
  | .node word left right => .junction word (ofTree left) (ofTree right)

@[simp] theorem ofTree_tree (filter : Filter Reference) : ofTree filter.tree = filter := by
  induction filter with
  | comparison _ _ _ => rfl
  | junction _ _ _ ihl ihr => rw [tree, ofTree, ihl, ihr]

/-- Each operand replaced by the reference it is bound to, the first by number `n`. -/
def referenced : Filter V → ℕ → Filter Reference
  | .comparison field operator _, n => .comparison field operator (.number n)
  | .junction word left right, n =>
      .junction word (left.referenced n) (right.referenced (n + left.operands.length))

/-- **The renderer writes the language.** -/
theorem text_eq_write (filter : Filter V) (n : ℕ) :
    filter.text n = filterFormat.write (filter.referenced n).tree := by
  induction filter generalizing n with
  | comparison field operator value =>
      have hmark : ofString " $" = ofString " " ++ ofString "$" := by decide
      simp only [text, referenced, tree, Format.write, filterFormat, leafText, Operator.between,
        hmark, Reference.number, List.append_assoc]
  | junction word left right ihl ihr =>
      have hopen : ofString "(" = [codePoint 0x28] := by decide
      have hclose : ofString ")" = [codePoint 0x29] := by decide
      simp only [text, referenced, tree, Format.write, ihl, ihr, hopen, hclose, List.append_assoc]
      simp only [filterFormat, Junction.between, List.append_assoc, List.cons_append,
        List.nil_append]

@[simp] theorem shape_referenced (filter : Filter V) (n : ℕ) :
    (filter.referenced n).shape = filter.shape := by
  induction filter generalizing n with
  | comparison _ _ _ => rfl
  | junction word _ _ ihl ihr =>
      simp only [shape] at ihl ihr
      simp only [shape, referenced, map, ihl, ihr]

/-- What the text is depends on the shape alone. -/
theorem text_eq_of_shape {f : Filter V} {g : Filter W} (h : f.shape = g.shape) (n : ℕ) :
    f.text n = g.text n := by
  rw [← text_map (fun _ => ()) f, ← text_map (fun _ => ()) g]
  exact congrArg (fun filter => filter.text n) h

end Filter

/-! ### Bound values -/

theorem keyed_numbered (values : List V) : Dict.Keyed (numbered values) := by
  rw [Dict.Keyed, keys_numbered]
  exact List.nodup_range.map fun _ _ => numberName_injective

/-- A reference finds the value that was bound under its number. -/
theorem get?_numbered (before : List V) (value : V) (after : List V) :
    Dict.get? (numbered (before ++ value :: after)) (numberName before.length) = some value := by
  refine Dict.get?_of_mem (keyed_numbered _) ?_
  rw [numbered, List.mapIdx_append, List.mapIdx_cons]
  simp

/-- Looked up among the parameters, the references are the operands again. -/
theorem Filter.map_get?_referenced (filter : Filter V) (before after : List V) :
    (filter.referenced before.length).map (fun reference =>
        Dict.get? (numbered (before ++ (filter.operands ++ after))) reference.text) =
      filter.map some := by
  induction filter generalizing before after with
  | comparison field operator value =>
      simp only [operands, referenced, map, Reference.number, List.cons_append, List.nil_append,
        get?_numbered]
  | junction word left right ihl ihr =>
      have hright := ihr (before ++ left.operands) after
      simp only [List.length_append, List.append_assoc] at hright
      simp only [operands, referenced, map, List.append_assoc, ihl, hright]

/-! ### The tree that runs -/

/-- A reader of filters that assumes nothing of how `AND` and `OR` bind. -/
def readFilter (text : Str) : Option (Filter Reference) :=
  (filterFormat.readAll text).map Filter.ofTree

theorem readFilter_text (filter : Filter V) (n : ℕ) :
    readFilter (filter.text n) = some (filter.referenced n) := by
  rw [readFilter, filterFormat.readAll_eq_some_iff.mpr (filter.text_eq_write n), Option.map_some,
    Filter.ofTree_tree]

theorem Filter.render_fresh (filter : Filter V) :
    filter.render [] = (filter.text 0, numbered filter.operands) :=
  filter.render_eq []

/-- **The filter tree that was built is the tree that runs.** Two filters rendered with fresh
binders give one text exactly when they have the same shape, connectives, fields and operators.
The text is read back, with no rule of precedence, as the tree it was rendered from, in which
every reference is bound to the operand that stood there. -/
theorem filter_built_is_filter_run (f : Filter V) (g : Filter W) :
    ((f.render []).1 = (g.render []).1 ↔ f.shape = g.shape) ∧
    ∃ read, readFilter (f.render []).1 = some read ∧ read.shape = f.shape ∧
      read.map (fun reference => Dict.get? (f.render []).2 reference.text) = f.map some := by
  simp only [Filter.render_fresh]
  refine ⟨⟨fun h => ?_, fun h => Filter.text_eq_of_shape h 0⟩, ?_⟩
  · have hread : some (f.referenced 0) = some (g.referenced 0) := by
      rw [← readFilter_text f 0, h, readFilter_text g 0]
    rw [← f.shape_referenced 0, Option.some.inj hread, g.shape_referenced]
  · have hbound := f.map_get?_referenced [] []
    simp only [List.append_nil, List.nil_append] at hbound
    exact ⟨f.referenced 0, readFilter_text f 0, f.shape_referenced 0, hbound⟩

end TessariDB
