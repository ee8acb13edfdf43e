import TessariDB.References

/-!
# A Fully Parenthesised Infix Language

Trees whose leaves are joined two by two, written with brackets around every pair, and a reader
that takes a tree off the front of a text. The reader knows of no precedence and no side a word
binds to: it descends at a bracket and nowhere else.

A `Format` says how leaves and words are written and read. Readers are built from three pieces:
the longest run of characters of a kind (`readRun`), the keyword a text begins with (`readKey`),
and one reader after another (`readPair`).

## Main results

* `Format.read_write`: what was written is read, whatever stands behind it.
* `Format.readAll_eq_some_iff`: a whole text is read as a tree exactly when it is how that tree
  is written.
-/

namespace Infix

open References

variable {γ α β : Type}

/-! ### Readers -/

/-- Takes something off the front of a text. -/
abbrev Reader (γ α : Type) := List γ → Option (α × List γ)

/-- `read` takes off the front exactly what `write` puts there, before a rest that `Ends` it. -/
def Reads (write : α → List γ) (Ends : List γ → Prop) (read : Reader γ α) : Prop :=
  ∀ text a rest, read text = some (a, rest) ↔ text = write a ++ rest ∧ Ends rest

/-- The longest run of characters of a kind, as `make` takes it. -/
def readRun (kind : γ → Bool) (make : List γ → Option α) : Reader γ α := fun text =>
  (make (text.takeWhile kind)).map fun a => (a, text.dropWhile kind)

/-- The first keyword the text begins with. -/
def readKey [DecidableEq γ] (key : β → List γ) (keys : List β) : Reader γ β := fun text =>
  (keys.find? fun b => (key b).isPrefixOf text).map fun b => (b, text.drop (key b).length)

/-- One reader after another. -/
def readPair (first : Reader γ α) (second : Reader γ β) : Reader γ (α × β) := fun text => do
  let a ← first text
  let b ← second a.2
  return ((a.1, b.1), b.2)

theorem break_dropWhile (kind : γ → Bool) (text : List γ) :
    Break kind (text.dropWhile kind) := by
  intro c hc
  have hhead := List.head?_dropWhile_not kind text
  rw [Option.mem_def.mp hc] at hhead
  simpa using hhead

theorem reads_run {write : α → List γ} {kind : γ → Bool} {make : List γ → Option α}
    (hkind : ∀ a, ∀ c ∈ write a, kind c = true)
    (hmake : ∀ run a, make run = some a ↔ run = write a) :
    Reads write (Break kind) (readRun kind make) := by
  intro text a rest
  constructor
  · intro h
    obtain ⟨made, hmade, hrest⟩ := Option.map_eq_some_iff.mp h
    obtain ⟨rfl, rfl⟩ := Prod.mk.inj hrest
    refine ⟨?_, break_dropWhile kind text⟩
    rw [← (hmake _ _).mp hmade, List.takeWhile_append_dropWhile]
  · rintro ⟨rfl, hrest⟩
    have htake : (write a ++ rest).takeWhile kind = write a := by
      rw [takeWhile_append_break _ hrest, List.takeWhile_eq_self_iff]
      exact hkind a
    have hdrop : (write a ++ rest).dropWhile kind = rest := by
      have hsplit := List.takeWhile_append_dropWhile (p := kind) (l := write a ++ rest)
      rw [htake] at hsplit
      exact List.append_cancel_left hsplit
    rw [readRun, htake, hdrop, (hmake _ _).mpr rfl, Option.map_some]

/-- Keywords none of which begins another. -/
theorem reads_key [DecidableEq γ] {key : β → List γ} (keys : List β) (hkeys : ∀ b, b ∈ keys)
    (hfree : ∀ b c, key b <+: key c → b = c) :
    Reads key (fun _ => True) (readKey key keys) := by
  intro text b rest
  constructor
  · intro h
    obtain ⟨found, hfind, hrest⟩ := Option.map_eq_some_iff.mp h
    obtain ⟨rfl, rfl⟩ := Prod.mk.inj hrest
    have hprefix := @List.find?_some _ (fun b => (key b).isPrefixOf text) _ _ hfind
    obtain ⟨tail, rfl⟩ := List.isPrefixOf_iff_prefix.mp hprefix
    rw [List.drop_left]
    exact ⟨rfl, trivial⟩
  · rintro ⟨rfl, -⟩
    have hsome : (keys.find? fun c => (key c).isPrefixOf (key b ++ rest)).isSome := by
      rw [List.find?_isSome]
      exact ⟨b, hkeys b, List.isPrefixOf_iff_prefix.mpr (List.prefix_append _ _)⟩
    obtain ⟨found, hfind⟩ := Option.isSome_iff_exists.mp hsome
    have hprefix := @List.find?_some _ (fun c => (key c).isPrefixOf (key b ++ rest)) _ _ hfind
    -- Both are at the front of one text, so one of them begins the other.
    have hsame : found = b := by
      rcases List.prefix_or_prefix_of_prefix (List.isPrefixOf_iff_prefix.mp hprefix)
        (List.prefix_append (key b) rest) with h | h
      · exact hfree _ _ h
      · exact (hfree _ _ h).symm
    rw [readKey, hfind, hsame, Option.map_some, List.drop_left]

theorem reads_pair {write : α → List γ} {write' : β → List γ} {Ends Ends' : List γ → Prop}
    {first : Reader γ α} {second : Reader γ β} (hfirst : Reads write Ends first)
    (hsecond : Reads write' Ends' second)
    (hends : ∀ b rest, Ends' rest → Ends (write' b ++ rest)) :
    Reads (fun pair : α × β => write pair.1 ++ write' pair.2) Ends' (readPair first second) := by
  intro text pair rest
  obtain ⟨a, b⟩ := pair
  constructor
  · intro h
    obtain ⟨⟨a', text'⟩, ha, h⟩ := Option.bind_eq_some_iff.mp h
    obtain ⟨⟨b', rest'⟩, hb, h⟩ := Option.bind_eq_some_iff.mp h
    cases h
    obtain ⟨rfl, -⟩ := (hfirst _ _ _).mp ha
    obtain ⟨hrest, hends'⟩ := (hsecond _ _ _).mp hb
    simp only at hrest
    subst hrest
    exact ⟨(List.append_assoc _ _ _).symm, hends'⟩
  · rintro ⟨rfl, hrest⟩
    have ha := (hfirst (write a ++ (write' b ++ rest)) a _).mpr ⟨rfl, hends b rest hrest⟩
    have hb := (hsecond (write' b ++ rest) b rest).mpr ⟨rfl, hrest⟩
    rw [readPair, List.append_assoc, ha, Option.bind_eq_bind, Option.bind_some, hb]
    rfl

/-! ### Trees -/

/-- Leaves joined two by two. -/
inductive Tree (α β : Type) where
  | leaf (a : α)
  | node (word : β) (left right : Tree α β)

def Tree.depth : Tree α β → ℕ
  | .leaf _ => 1
  | .node _ left right => max left.depth right.depth + 1

/-- How leaves and words are written and read. No leaf begins with the bracket, and a leaf ends
where a word, the closing bracket or nothing follows. -/
structure Format (γ α β : Type) where
  opening : γ
  closing : γ
  leaf : α → List γ
  word : β → List γ
  readLeaf : Reader γ α
  readWord : Reader γ β
  Ends : List γ → Prop
  leaf_reads : Reads leaf Ends readLeaf
  word_reads : Reads word (fun _ => True) readWord
  leaf_open : ∀ a rest, (leaf a ++ rest).head? ≠ some opening
  ends_word : ∀ b rest, Ends (word b ++ rest)
  ends_closing : ∀ rest, Ends (closing :: rest)
  ends_nil : Ends []

namespace Format

variable (F : Format γ α β)

/-- Brackets around every pair. -/
def write : Tree α β → List γ
  | .leaf a => F.leaf a
  | .node word left right =>
      F.opening :: (write left ++ (F.word word ++ (write right ++ [F.closing])))

theorem depth_le_length (tree : Tree α β) : tree.depth ≤ (F.write tree).length := by
  induction tree with
  | leaf a =>
      have hne : F.leaf a ≠ [] := fun hnil => F.leaf_open a [F.opening] (by rw [hnil]; rfl)
      exact List.length_pos_iff.mpr hne
  | node word left right ihl ihr =>
      simp only [Tree.depth, write, List.length_cons, List.length_append]
      omega

variable [DecidableEq γ]

/-- Take a tree at most `fuel` brackets deep off the front. -/
def read : ℕ → Reader γ (Tree α β)
  | 0, _ => none
  | fuel + 1, text =>
      if text.head? = some F.opening then do
        let left ← read fuel text.tail
        let word ← F.readWord left.2
        let right ← read fuel word.2
        if right.2.head? = some F.closing then some (.node word.1 left.1 right.1, right.2.tail)
        else none
      else (F.readLeaf text).map fun a => (.leaf a.1, a.2)

/-- A tree that is all there is. -/
def readAll (text : List γ) : Option (Tree α β) :=
  match F.read text.length text with
  | some (tree, []) => some tree
  | _ => none

/-- **What was written is read**, whatever stands behind it. -/
theorem read_write (tree : Tree α β) {fuel : ℕ} (hfuel : tree.depth ≤ fuel) {rest : List γ}
    (hrest : F.Ends rest) : F.read fuel (F.write tree ++ rest) = some (tree, rest) := by
  induction tree generalizing fuel rest with
  | leaf a =>
      obtain ⟨fuel, rfl⟩ : ∃ n, fuel = n + 1 := ⟨fuel - 1, by simp only [Tree.depth] at hfuel; omega⟩
      rw [write, read, if_neg (F.leaf_open a rest), (F.leaf_reads _ a rest).mpr ⟨rfl, hrest⟩]
      rfl
  | node word left right ihl ihr =>
      obtain ⟨fuel, rfl⟩ : ∃ n, fuel = n + 1 := ⟨fuel - 1, by simp only [Tree.depth] at hfuel; omega⟩
      simp only [Tree.depth, Nat.add_le_add_iff_right, Nat.max_le] at hfuel
      have hright := ihr hfuel.2 (F.ends_closing rest)
      have hword := (F.word_reads _ word (F.write right ++ F.closing :: rest)).mpr ⟨rfl, trivial⟩
      have hleft := ihl hfuel.1 (F.ends_word word (F.write right ++ F.closing :: rest))
      simp only [write, read, List.cons_append, List.append_assoc, List.nil_append,
        List.head?_cons, List.tail_cons, if_true, hleft, hword, hright, Option.bind_eq_bind,
        Option.bind_some]

/-- What is read is how the tree is written. -/
theorem write_of_read {fuel : ℕ} {text rest : List γ} {tree : Tree α β}
    (h : F.read fuel text = some (tree, rest)) : text = F.write tree ++ rest := by
  induction fuel generalizing text rest tree with
  | zero => cases h
  | succ fuel ih =>
      rw [read] at h
      split at h
      · next hopen =>
        obtain ⟨⟨left, afterLeft⟩, hleft, h⟩ := Option.bind_eq_some_iff.mp h
        obtain ⟨⟨word, afterWord⟩, hword, h⟩ := Option.bind_eq_some_iff.mp h
        obtain ⟨⟨right, afterRight⟩, hright, h⟩ := Option.bind_eq_some_iff.mp h
        split at h
        · next hclose =>
          cases h
          obtain ⟨text, rfl⟩ := List.head?_eq_some_iff.mp hopen
          obtain ⟨after, hafter⟩ := List.head?_eq_some_iff.mp hclose
          simp only at hafter
          subst hafter
          obtain ⟨hword, -⟩ := (F.word_reads _ _ _).mp hword
          have hleft := ih hleft
          have hright := ih hright
          simp only at hword hright
          simp only [List.tail_cons] at hleft ⊢
          rw [write, hleft, hword, hright]
          simp
        · cases h
      · obtain ⟨⟨a, after⟩, ha, h⟩ := Option.map_eq_some_iff.mp h
        cases h
        exact ((F.leaf_reads _ _ _).mp ha).1

/-- **A text is read as the tree it is written from**, and no other text is read as it. -/
theorem readAll_eq_some_iff {text : List γ} {tree : Tree α β} :
    F.readAll text = some tree ↔ text = F.write tree := by
  rw [readAll]
  constructor
  · intro h
    split at h
    · next hread =>
      cases h
      simpa using F.write_of_read hread
    · cases h
  · rintro rfl
    have hread := F.read_write tree (F.depth_le_length tree) F.ends_nil
    rw [List.append_nil] at hread
    rw [hread]

end Format

end Infix
