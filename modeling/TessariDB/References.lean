import Mathlib.Data.List.TakeWhile

/-!
# References in a Text

A mark and the name characters after it are a reference. `references` lists the names a text
refers to, left to right; a name is the longest run of name characters after its mark.

A text is `Plain` when it holds no mark, and `Sealed` when whatever follows it belongs to no
reference of its own. A text that does not begin with a name character is a `Break`.

## Main results

* `references_append`, `references_append_break`: the references of a text built from two.
* `references_mark`: a mark, a name and a break.
-/

namespace References

variable {α : Type} (mark : α) (isName : α → Bool)

/-- No mark occurs. -/
def Plain (s : List α) : Prop := mark ∉ s

/-- After the last mark some character is no name character. -/
def Sealed : List α → Prop
  | [] => True
  | c :: s => (c = mark → ∃ d ∈ s, isName d = false) ∧ Sealed s

/-- The text does not begin with a name character. -/
def Break (s : List α) : Prop := ∀ c ∈ s.head?, isName c = false

instance (s : List α) : Decidable (Break isName s) :=
  inferInstanceAs (Decidable (∀ c ∈ s.head?, isName c = false))

section Texts

variable {mark isName}

theorem Plain.sealed {s : List α} (h : Plain mark s) : Sealed mark isName s := by
  induction s with
  | nil => trivial
  | cons c s ih =>
      rw [Plain, List.mem_cons, not_or] at h
      exact ⟨fun heq => absurd heq.symm h.1, ih h.2⟩

theorem Plain.append {s t : List α} (hs : Plain mark s) (ht : Plain mark t) :
    Plain mark (s ++ t) := by
  rw [Plain, List.mem_append, not_or]
  exact ⟨hs, ht⟩

/-- A text of name characters holds no mark, which is none. -/
theorem plain_of_name (hmark : isName mark = false) {s : List α}
    (hs : ∀ c ∈ s, isName c = true) : Plain mark s := by
  intro hmem
  rw [hs mark hmem] at hmark
  cases hmark

/-- A text that begins with a break and is not empty keeps beginning with it. -/
theorem Break.append {s : List α} (hs : Break isName s) (hne : s ≠ []) (b : List α) :
    Break isName (s ++ b) := by
  cases s with
  | nil => exact absurd rfl hne
  | cons c s => exact hs

theorem Break.append_break {s b : List α} (hs : Break isName s) (hb : Break isName b) :
    Break isName (s ++ b) := by
  cases s with
  | nil => exact hb
  | cons c s => exact hs

theorem takeWhile_append_break (s : List α) {b : List α} (hb : Break isName b) :
    (s ++ b).takeWhile isName = s.takeWhile isName := by
  induction s with
  | nil =>
      cases b with
      | nil => rfl
      | cons c b =>
          have hc : isName c = false := hb c rfl
          simp [hc]
  | cons c s ih => simp only [List.cons_append, List.takeWhile_cons, ih]

theorem takeWhile_append_of_exists {s : List α} (h : ∃ d ∈ s, isName d = false) (b : List α) :
    (s ++ b).takeWhile isName = s.takeWhile isName := by
  induction s with
  | nil => simp at h
  | cons c s ih =>
      cases hc : isName c with
      | false => simp [hc]
      | true =>
          obtain ⟨d, hd, hfalse⟩ := h
          rcases List.mem_cons.mp hd with rfl | hd
          · rw [hc] at hfalse
            cases hfalse
          · simp only [List.cons_append, List.takeWhile_cons, ih ⟨d, hd, hfalse⟩]

end Texts

variable [DecidableEq α]

instance (s : List α) : Decidable (Plain mark s) := inferInstanceAs (Decidable (¬ _))

instance decidableSealed : ∀ s : List α, Decidable (Sealed mark isName s)
  | [] => inferInstanceAs (Decidable True)
  | c :: s =>
      haveI := decidableSealed s
      inferInstanceAs (Decidable ((c = mark → ∃ d ∈ s, isName d = false) ∧ Sealed mark isName s))

/-- The names that follow a mark, left to right. -/
def references : List α → List (List α)
  | [] => []
  | c :: s => if c = mark then s.takeWhile isName :: references s else references s

variable {mark isName}

@[simp] theorem references_nil : references mark isName [] = [] := rfl

theorem references_of_plain {s : List α} (h : Plain mark s) : references mark isName s = [] := by
  induction s with
  | nil => rfl
  | cons c s ih =>
      rw [Plain, List.mem_cons, not_or] at h
      rw [references, if_neg (Ne.symm h.1), ih h.2]

/-- Two texts side by side, the first of them sealed. -/
theorem references_append {s : List α} (hs : Sealed mark isName s) (b : List α) :
    references mark isName (s ++ b) = references mark isName s ++ references mark isName b := by
  induction s with
  | nil => rfl
  | cons c s ih =>
      obtain ⟨hc, hs⟩ := hs
      rw [List.cons_append, references, references]
      split
      · next heq => rw [takeWhile_append_of_exists (hc heq), ih hs, List.cons_append]
      · exact ih hs

/-- Two texts side by side, the second of them beginning with no name character. -/
theorem references_append_break (s : List α) {b : List α} (hb : Break isName b) :
    references mark isName (s ++ b) = references mark isName s ++ references mark isName b := by
  induction s with
  | nil => rfl
  | cons c s ih =>
      rw [List.cons_append, references, references]
      split
      · rw [takeWhile_append_break s hb, ih, List.cons_append]
      · exact ih

theorem references_plain_append {s : List α} (hs : Plain mark s) (b : List α) :
    references mark isName (s ++ b) = references mark isName b := by
  rw [references_append hs.sealed, references_of_plain hs, List.nil_append]

/-- A mark and a name after it, with nothing else. -/
theorem references_mark (hmark : isName mark = false) {name : List α}
    (hname : ∀ c ∈ name, isName c = true) :
    references mark isName (mark :: name) = [name] := by
  rw [references, if_pos rfl, references_of_plain (plain_of_name hmark hname),
    List.takeWhile_eq_self_iff.mpr hname]

end References
