import TessariDB.Infix

/-!
# Grammars

A language is given by how its trees are written and by a reader that takes a tree off the front
of a text. `Parses` ties the two together: what was written is read, before every rest that may
stand behind it, and what is read is what was written. Each form of a grammar carries the relation
from its parts to the whole: one part after another, words around a part, an optional part behind
a word, any number of parts behind a separator, and one of two kinds.

Where an optional part may be left out, the reader has to see that from what follows. `Begins`
says which words may follow; a grammar of clauses is read from its last clause to its first.

## Main results

* `Parses.pair`, `Parses.clause`, `Parses.separated`, `Parses.either`, `Parses.via`: the forms.
* `Parses.readAll_eq_some_iff`: a whole text is read as a tree exactly when it is how that tree
  is written.
-/

namespace Grammar

open Infix References

variable {γ α β : Type}

/-- `read` takes off the front what `write` puts there, before a rest that `Ends` it. -/
structure Parses (write : α → List γ) (Ends : List γ → Prop) (read : Infix.Reader γ α) : Prop where
  read_write : ∀ a rest, Ends rest → read (write a ++ rest) = some (a, rest)
  write_of_read : ∀ text a rest, read text = some (a, rest) → text = write a ++ rest

/-- Whatever follows. -/
def Anything (_ : List γ) : Prop := True

theorem anything (rest : List γ) : Anything rest := trivial

variable {write : α → List γ} {write' : β → List γ} {Ends Ends' : List γ → Prop}
  {read : Infix.Reader γ α} {read' : Infix.Reader γ β}

theorem Parses.of_reads (h : Reads write Ends read) : Parses write Ends read where
  read_write a rest hrest := (h _ a rest).mpr ⟨rfl, hrest⟩
  write_of_read text a rest hread := ((h text a rest).mp hread).1

/-- Fewer rests are asked for. -/
theorem Parses.mono (h : Parses write Ends read) (hends : ∀ rest, Ends' rest → Ends rest) :
    Parses write Ends' read where
  read_write a rest hrest := h.read_write a rest (hends rest hrest)
  write_of_read := h.write_of_read

/-- Trees without a rule of how their words bind. -/
theorem Parses.format [DecidableEq γ] (F : Format γ α β) :
    Parses F.write F.Ends fun text => F.read text.length text where
  read_write tree rest hrest := by
    refine F.read_write tree ?_ hrest
    have hdepth := F.depth_le_length tree
    rw [List.length_append]
    omega
  write_of_read _ _ _ h := F.write_of_read h

/-! ### Parts and words -/

theorem Parses.pair (h : Parses write Ends read) (h' : Parses write' Ends' read')
    (hends : ∀ b rest, Ends' rest → Ends (write' b ++ rest)) :
    Parses (fun p : α × β => write p.1 ++ write' p.2) Ends' (readPair read read') where
  read_write p rest hrest := by
    have hfirst := h.read_write p.1 _ (hends p.2 rest hrest)
    have hsecond := h'.read_write p.2 rest hrest
    rw [readPair, List.append_assoc, hfirst]
    simp only [Option.bind_eq_bind, Option.bind_some, hsecond]
    rfl
  write_of_read text p rest hread := by
    obtain ⟨⟨a, middle⟩, hfirst, hread⟩ := Option.bind_eq_some_iff.mp hread
    obtain ⟨⟨b, after⟩, hsecond, hread⟩ := Option.bind_eq_some_iff.mp hread
    cases hread
    have hmiddle := h'.write_of_read _ _ _ hsecond
    rw [h.write_of_read _ _ _ hfirst, List.append_assoc]
    exact congrArg (write a ++ ·) hmiddle

variable [DecidableEq γ]

/-- A word is taken off the front. -/
def skip (word text : List γ) : Option (List γ) :=
  if word <+: text then some (text.drop word.length) else none

@[simp] theorem skip_append (word rest : List γ) : skip word (word ++ rest) = some rest := by
  rw [skip, if_pos (List.prefix_append _ _), List.drop_left]

theorem skip_eq_some {word text rest : List γ} (h : skip word text = some rest) :
    text = word ++ rest := by
  rw [skip] at h
  split at h
  · next hword =>
    obtain ⟨tail, rfl⟩ := hword
    rw [List.drop_left] at h
    rw [Option.some.inj h]
  · cases h

theorem skip_of_not {word text : List γ} (h : ¬ word <+: text) : skip word text = none := if_neg h

/-- The word alone. -/
def readWord (word : List γ) : Infix.Reader γ Unit := fun text =>
  (skip word text).map fun rest => ((), rest)

theorem parses_word (word : List γ) : Parses (fun _ => word) Anything (readWord word) where
  read_write _ rest _ := by
    rw [readWord, skip_append]
    rfl
  write_of_read text _ rest hread := by
    obtain ⟨after, hskip, heq⟩ := Option.map_eq_some_iff.mp hread
    cases heq
    exact skip_eq_some hskip

/-- A tree behind a word. -/
def readAfter (word : List γ) (read : Infix.Reader γ α) : Infix.Reader γ α := fun text =>
  (skip word text).bind read

theorem readAfter_of_not {word text : List γ} (h : ¬ word <+: text) (read : Infix.Reader γ α) :
    readAfter word read text = none := by
  rw [readAfter, skip_of_not h]
  rfl

theorem Parses.after (word : List γ) (h : Parses write Ends read) :
    Parses (fun a => word ++ write a) Ends (readAfter word read) where
  read_write a rest hrest := by
    rw [readAfter, List.append_assoc, skip_append]
    exact h.read_write a rest hrest
  write_of_read text a rest hread := by
    obtain ⟨behind, hskip, hread⟩ := Option.bind_eq_some_iff.mp hread
    rw [skip_eq_some hskip, h.write_of_read _ _ _ hread, List.append_assoc]

/-- A tree before a word. -/
def readBefore (read : Infix.Reader γ α) (word : List γ) : Infix.Reader γ α := fun text =>
  (read text).bind fun a => (skip word a.2).map fun rest => (a.1, rest)

theorem Parses.before (h : Parses write Ends read) {word : List γ}
    (hends : ∀ rest, Ends (word ++ rest)) :
    Parses (fun a => write a ++ word) Anything (readBefore read word) where
  read_write a rest _ := by
    rw [readBefore, List.append_assoc, h.read_write a _ (hends rest), Option.bind_some, skip_append]
    rfl
  write_of_read text a rest hread := by
    obtain ⟨⟨b, behind⟩, hb, hread⟩ := Option.bind_eq_some_iff.mp hread
    obtain ⟨after, hskip, heq⟩ := Option.map_eq_some_iff.mp hread
    cases heq
    have hbehind := skip_eq_some hskip
    rw [h.write_of_read _ _ _ hb, List.append_assoc]
    exact congrArg (write b ++ ·) hbehind

/-! ### What follows -/

/-- The text begins with one of these words. -/
def Begins (words : List (List γ)) (text : List γ) : Prop := ∃ word ∈ words, word <+: text

omit [DecidableEq γ] in
theorem begins_append {words : List (List γ)} {word : List γ} (h : word ∈ words) (rest : List γ) :
    Begins words (word ++ rest) := ⟨word, h, List.prefix_append _ _⟩

/-- Neither word begins the other. -/
def Unlike (v w : List γ) : Prop := ¬ v <+: w ∧ ¬ w <+: v

instance (v w : List γ) : Decidable (Unlike v w) := instDecidableAnd

omit [DecidableEq γ] in
theorem Begins.not_other {words : List (List γ)} {text : List γ} (h : Begins words text)
    (word : List γ) (hword : ∀ w ∈ words, Unlike word w) : ¬ word <+: text := by
  obtain ⟨w, hw, hbegins⟩ := h
  intro hother
  rcases List.prefix_or_prefix_of_prefix hother hbegins with hpre | hpre
  · exact (hword w hw).1 hpre
  · exact (hword w hw).2 hpre

omit [DecidableEq γ] in
/-- Words that are breaks, and not empty. -/
theorem Begins.break_ {kind : γ → Bool} {words : List (List γ)} {text : List γ}
    (h : Begins words text) (hwords : ∀ w ∈ words, w ≠ [] ∧ Break kind w) : Break kind text := by
  obtain ⟨w, hw, rest, rfl⟩ := h
  exact (hwords w hw).2.append (hwords w hw).1 rest

/-! ### Optional parts -/

/-- Nothing, or a tree behind its word. -/
def writeClause (word : List γ) (write : α → List γ) (a : Option α) : List γ :=
  a.elim [] fun a => word ++ write a

def readClause (word : List γ) (read : Infix.Reader γ α) : Infix.Reader γ (Option α) := fun text =>
  if word <+: text then (readAfter word read text).map fun a => (some a.1, a.2)
  else some (none, text)

/-- **An optional part.** What may follow it begins with other words than its own. -/
theorem Parses.clause (h : Parses write Ends read) (word : List γ) {words : List (List γ)}
    (hends : ∀ rest, Begins words rest → Ends rest) (hword : ∀ w ∈ words, Unlike word w) :
    Parses (writeClause word write) (Begins words) (readClause word read) where
  read_write a rest hrest := by
    cases a with
    | none =>
        rw [writeClause, Option.elim_none, List.nil_append, readClause,
          if_neg (hrest.not_other _ hword)]
    | some a =>
        have hread := (h.after word).read_write a rest (hends rest hrest)
        have hbegins : word <+: (word ++ write a) ++ rest :=
          (List.prefix_append _ _).trans (List.prefix_append _ _)
        rw [writeClause, Option.elim_some, readClause, if_pos hbegins, hread]
        rfl
  write_of_read text a rest hread := by
    rw [readClause] at hread
    split at hread
    · obtain ⟨⟨b, after⟩, hb, heq⟩ := Option.map_eq_some_iff.mp hread
      cases heq
      exact (h.after word).write_of_read _ _ _ hb
    · cases hread
      rfl

omit [DecidableEq γ] in
/-- What an optional part may be followed by follows what stands before it as well. -/
theorem begins_clause {word : List γ} {words : List (List γ)} {rest : List γ}
    (h : Begins words rest) (write : α → List γ) (a : Option α) :
    Begins (word :: words) (writeClause word write a ++ rest) := by
  cases a with
  | none =>
      obtain ⟨w, hw, hbegins⟩ := h
      exact ⟨w, List.mem_cons_of_mem _ hw, hbegins⟩
  | some a =>
      rw [writeClause, Option.elim_some, List.append_assoc]
      exact begins_append List.mem_cons_self _

/-- Clauses one after another: a text behind which `ends` may follow, and which begins, together
with what follows, with one of `starts`. -/
structure Clauses (write : α → List γ) (starts ends : List (List γ)) (read : Infix.Reader γ α) :
    Prop where
  parses : Parses write (Begins ends) read
  begins : ∀ a rest, Begins ends rest → Begins starts (write a ++ rest)

/-- **One more clause**, before the others. -/
theorem Clauses.cons {words ends : List (List γ)} (h' : Clauses write' words ends read')
    (h : Parses write Ends read) (word : List γ) (hends : ∀ rest, Begins words rest → Ends rest)
    (hword : ∀ w ∈ words, Unlike word w) :
    Clauses (fun p : Option α × β => writeClause word write p.1 ++ write' p.2) (word :: words) ends
      (readPair (readClause word read) read') where
  parses := (h.clause word hends hword).pair h'.parses h'.begins
  begins p rest hrest := by
    rw [List.append_assoc]
    exact begins_clause (h'.begins p.2 rest hrest) write p.1

/-- The last clause. -/
theorem Parses.last (h : Parses write Ends read) (word : List γ) (words : List (List γ))
    (hends : ∀ rest, Begins words rest → Ends rest) (hword : ∀ w ∈ words, Unlike word w) :
    Clauses (writeClause word write) (word :: words) words (readClause word read) where
  parses := h.clause word hends hword
  begins a _ hrest := begins_clause hrest write a

/-! ### Lists -/

/-- Trees, each behind a separator. -/
def writeMany (sep : List γ) (write : α → List γ) (as : List α) : List γ :=
  as.flatMap fun a => sep ++ write a

/-- The loop of `readMany`, with at most so many turns. -/
def manyLoop (sep : List γ) (read : Infix.Reader γ α) : ℕ → Infix.Reader γ (List α)
  | 0, _ => none
  | fuel + 1, text =>
      if sep <+: text then do
        let a ← readAfter sep read text
        let as ← manyLoop sep read fuel a.2
        return (a.1 :: as.1, as.2)
      else some ([], text)

/-- A text has no more parts than characters, where a separator is no empty one. -/
def readMany (sep : List γ) (read : Infix.Reader γ α) : Infix.Reader γ (List α) := fun text =>
  manyLoop sep read (text.length + 1) text

omit [DecidableEq γ] in
theorem length_le_writeMany {sep : List γ} (hsep : sep ≠ []) (write : α → List γ) (as : List α) :
    as.length ≤ (writeMany sep write as).length := by
  have hpos := List.length_pos_iff.mpr hsep
  induction as with
  | nil => exact Nat.zero_le _
  | cons a as ih =>
      rw [writeMany] at ih
      rw [writeMany, List.flatMap_cons, List.length_append, List.length_append, List.length_cons]
      omega

omit [DecidableEq γ] in
/-- What may follow all the parts, or the separator, follows what stands before them. -/
theorem begins_many {sep : List γ} {words : List (List γ)} {rest : List γ}
    (h : Begins words rest) (write : α → List γ) (as : List α) :
    Begins (sep :: words) (writeMany sep write as ++ rest) := by
  cases as with
  | nil =>
      obtain ⟨w, hw, hbegins⟩ := h
      exact ⟨w, List.mem_cons_of_mem _ hw, hbegins⟩
  | cons a as =>
      rw [writeMany, List.flatMap_cons, List.append_assoc, List.append_assoc]
      exact begins_append List.mem_cons_self _

/-- **Any number of parts.** What may follow a part is the separator, or what follows them all. -/
theorem Parses.many {sep : List γ} {words : List (List γ)}
    (h : Parses write (Begins (sep :: words)) read) (hne : sep ≠ [])
    (hword : ∀ w ∈ words, Unlike sep w) :
    Parses (writeMany sep write) (Begins words) (readMany sep read) where
  read_write as rest hrest := by
    have hloop : ∀ fuel, as.length < fuel →
        manyLoop sep read fuel (writeMany sep write as ++ rest) = some (as, rest) := by
      intro fuel hfuel
      induction as generalizing fuel with
      | nil =>
          obtain ⟨fuel, rfl⟩ : ∃ n, fuel = n + 1 := ⟨fuel - 1, by omega⟩
          rw [writeMany, List.flatMap_nil, List.nil_append, manyLoop,
            if_neg (hrest.not_other _ hword)]
      | cons a as ih =>
          obtain ⟨fuel, rfl⟩ : ∃ n, fuel = n + 1 := ⟨fuel - 1, by omega⟩
          have hread := (h.after sep).read_write a _ (begins_many hrest write as)
          have hwritten : writeMany sep write (a :: as) ++ rest =
              (sep ++ write a) ++ (writeMany sep write as ++ rest) := by
            rw [writeMany, List.flatMap_cons, List.append_assoc]
            rfl
          have hbegins : sep <+: (sep ++ write a) ++ (writeMany sep write as ++ rest) :=
            (List.prefix_append _ _).trans (List.prefix_append _ _)
          rw [List.length_cons] at hfuel
          rw [hwritten, manyLoop, if_pos hbegins, hread]
          simp only [Option.bind_eq_bind, Option.bind_some, ih fuel (by omega)]
          rfl
    refine hloop _ ?_
    have hlength := length_le_writeMany hne write as
    rw [List.length_append]
    omega
  write_of_read text as rest hread := by
    have hloop : ∀ fuel text as rest, manyLoop sep read fuel text = some (as, rest) →
        text = writeMany sep write as ++ rest := by
      intro fuel
      induction fuel with
      | zero =>
          intro _ _ _ hread
          cases hread
      | succ fuel ih =>
          intro text as rest hread
          rw [manyLoop] at hread
          split at hread
          · obtain ⟨⟨a, after⟩, hfirst, hread⟩ := Option.bind_eq_some_iff.mp hread
            obtain ⟨⟨bs, behind⟩, hmore, hread⟩ := Option.bind_eq_some_iff.mp hread
            cases hread
            have hafter := ih _ _ _ hmore
            rw [(h.after sep).write_of_read _ _ _ hfirst, writeMany, List.flatMap_cons,
              List.append_assoc (sep ++ write a)]
            exact congrArg (sep ++ write a ++ ·) hafter
          · cases hread
            rfl
    exact hloop _ _ _ _ hread

/-- Parts with a separator between them, one at least. -/
def writeSeparated (sep : List γ) (write : α → List γ) (as : α × List α) : List γ :=
  write as.1 ++ writeMany sep write as.2

def readSeparated (sep : List γ) (read : Infix.Reader γ α) : Infix.Reader γ (α × List α) :=
  readPair read (readMany sep read)

theorem Parses.separated {sep : List γ} {words : List (List γ)}
    (h : Parses write (Begins (sep :: words)) read) (hne : sep ≠ [])
    (hword : ∀ w ∈ words, Unlike sep w) :
    Parses (writeSeparated sep write) (Begins words) (readSeparated sep read) :=
  h.pair (h.many hne hword) fun as _ hrest => begins_many hrest write as

/-! ### Other trees -/

/-- Other trees for the same texts, and for some texts none. -/
def readVia (make : α → Option β) (read : Infix.Reader γ α) : Infix.Reader γ β := fun text =>
  (read text).bind fun a => (make a.1).map fun b => (b, a.2)

omit [DecidableEq γ] in
theorem Parses.via (h : Parses write Ends read) (make : α → Option β) (unmake : β → α)
    (hmake : ∀ a b, make a = some b ↔ a = unmake b) :
    Parses (fun b => write (unmake b)) Ends (readVia make read) where
  read_write b rest hrest := by
    rw [readVia, h.read_write _ rest hrest, Option.bind_some, (hmake _ _).mpr rfl]
    rfl
  write_of_read text b rest hread := by
    obtain ⟨⟨a, after⟩, ha, hread⟩ := Option.bind_eq_some_iff.mp hread
    obtain ⟨made, hmade, heq⟩ := Option.map_eq_some_iff.mp hread
    cases heq
    rw [← (hmake _ _).mp hmade]
    exact h.write_of_read _ _ _ ha

/-- Other trees for the same texts. -/
def readAs (f : α → β) (read : Infix.Reader γ α) : Infix.Reader γ β := readVia (some ∘ f) read

omit [DecidableEq γ] in
theorem Parses.as (h : Parses write Ends read) {f : α → β} {g : β → α} (hleft : ∀ a, g (f a) = a)
    (hright : ∀ b, f (g b) = b) : Parses (fun b => write (g b)) Ends (readAs f read) := by
  refine h.via _ g fun a b => ?_
  rw [Function.comp_apply, Option.some_inj]
  constructor
  · rintro rfl
    exact (hleft a).symm
  · rintro rfl
    exact hright b

/-! ### Kinds -/

/-- What is read begins with this word. -/
def Needs (word : List γ) (read : Infix.Reader γ α) : Prop :=
  ∀ text, ¬ word <+: text → read text = none

theorem needs_word (word : List γ) : Needs word (readWord word) := by
  intro text hnot
  rw [readWord, skip_of_not hnot]
  rfl

theorem needs_after (word : List γ) (read : Infix.Reader γ α) :
    Needs word (readAfter word read) := fun _ h => readAfter_of_not h read

theorem Needs.before {word : List γ} (h : Needs word read) (close : List γ) :
    Needs word (readBefore read close) := by
  intro text hnot
  rw [readBefore, h text hnot]
  rfl

omit [DecidableEq γ] in
theorem Needs.via {word : List γ} (h : Needs word read) (make : α → Option β) :
    Needs word (readVia make read) := by
  intro text hnot
  rw [readVia, h text hnot]
  rfl

omit [DecidableEq γ] in
theorem Needs.as {word : List γ} (h : Needs word read) (f : α → β) : Needs word (readAs f read) :=
  h.via _

omit [DecidableEq γ] in
/-- A text that begins with other words. -/
theorem Needs.none {word text : List γ} {words : List (List γ)} (h : Needs word read)
    (htext : Begins words text) (hword : ∀ w ∈ words, Unlike word w) : read text = none :=
  h text (htext.not_other word hword)

/-- The first reader, or else the second. -/
def readEither (read : Infix.Reader γ α) (read' : Infix.Reader γ β) : Infix.Reader γ (α ⊕ β) :=
  fun text =>
    match read text with
    | some a => some (.inl a.1, a.2)
    | none => (read' text).map fun b => (.inr b.1, b.2)

omit [DecidableEq γ] in
/-- **One of two kinds.** What the second is written as is none of the first. -/
theorem Parses.either (h : Parses write Ends read) (h' : Parses write' Ends read')
    (hnot : ∀ b rest, Ends rest → read (write' b ++ rest) = none) :
    Parses (Sum.elim write write') Ends (readEither read read') where
  read_write a rest hrest := by
    cases a with
    | inl a => rw [Sum.elim_inl, readEither, h.read_write a rest hrest]
    | inr b =>
        rw [Sum.elim_inr, readEither, hnot b rest hrest, h'.read_write b rest hrest]
        rfl
  write_of_read text a rest hread := by
    rw [readEither] at hread
    split at hread
    · next hfirst =>
      cases hread
      exact h.write_of_read _ _ _ hfirst
    · obtain ⟨⟨b, after⟩, hsecond, heq⟩ := Option.map_eq_some_iff.mp hread
      cases heq
      exact h'.write_of_read _ _ _ hsecond

/-! ### Whole texts -/

/-- A tree that is all there is. -/
def readAll (read : Infix.Reader γ α) (text : List γ) : Option α :=
  match read text with
  | some (a, []) => some a
  | _ => none

omit [DecidableEq γ] in
/-- **A whole text is read as the tree it is written from**, and no other text is. -/
theorem Parses.readAll_eq_some_iff (h : Parses write Ends read) (hnil : Ends []) {text : List γ}
    {a : α} : readAll read text = some a ↔ text = write a := by
  rw [readAll]
  constructor
  · intro hread
    split at hread
    · next hall =>
      cases hread
      simpa using h.write_of_read _ _ _ hall
    · cases hread
  · rintro rfl
    have hread := h.read_write a [] hnil
    rw [List.append_nil] at hread
    rw [hread]

omit [DecidableEq γ] in
/-- No two trees are written alike. -/
theorem Parses.injective (h : Parses write Ends read) (hnil : Ends []) :
    Function.Injective write := fun _ _ hab =>
  Option.some.inj (((h.readAll_eq_some_iff hnil).mpr hab).symm.trans
    ((h.readAll_eq_some_iff hnil).mpr rfl)).symm

end Grammar
