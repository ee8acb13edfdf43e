import TessariDB.Infix

/-!
# Texts with Holes

A template is a text with holes, each for a word of characters of one kind. A text that was filled
in is read back from its words, where every hole stands before a character of another kind or at
the end.

A language of several templates is read with the first one that fits. Two templates are apart
where they part at a character, before one of them goes on in a hole that could take it. Then no
text is read with both, and the order in which they are tried is of no account.

## Main results

* `read_eq_some_iff`: a text is read as the words it is filled in with, and no other text is.
* `readFirst_eq_some_iff`: the same of templates that are apart, and of the one that was filled in.
-/

namespace Templates

open References

variable {κ γ τ : Type}

/-- A character that stands for itself, or a hole. -/
inductive Mark (κ γ : Type) where
  | char (c : γ)
  | hole (k : κ)

abbrev Template (κ γ : Type) := List (Mark κ γ)

/-- A text without holes. -/
def literal (text : List γ) : Template κ γ := text.map .char

/-- The text of a template, with words in its holes. -/
def fill : Template κ γ → List (List γ) → List γ
  | .char c :: t, words => c :: fill t words
  | .hole _ :: t, word :: words => word ++ fill t words
  | _, _ => []

@[simp] theorem fill_nil (words : List (List γ)) : fill ([] : Template κ γ) words = [] := by
  cases words <;> rfl

theorem fill_literal (text : List γ) (t : Template κ γ) (words : List (List γ)) :
    fill (literal text ++ t) words = text ++ fill t words := by
  induction text with
  | nil => rfl
  | cons c text ih => exact congrArg (c :: ·) ih

theorem fill_hole (k : κ) (t : Template κ γ) (word : List γ) (words : List (List γ)) :
    fill (.hole k :: t) (word :: words) = word ++ fill t words := rfl

variable (kind : κ → γ → Bool)

/-- A word for each hole, of its kind and not empty. -/
inductive Fits : Template κ γ → List (List γ) → Prop
  | nil : Fits [] []
  | char {t : Template κ γ} {words : List (List γ)} (c : γ) (rest : Fits t words) :
      Fits (.char c :: t) words
  | hole {t : Template κ γ} {words : List (List γ)} {k : κ} {word : List γ} (ne : word ≠ [])
      (chars : ∀ c ∈ word, kind k c = true) (rest : Fits t words) :
      Fits (.hole k :: t) (word :: words)

/-- Every hole ends where its word does. -/
def Tidy : Template κ γ → Prop
  | [] => True
  | .char _ :: t => Tidy t
  | .hole k :: .char c :: t => kind k c = false ∧ Tidy t
  | [.hole _] => True
  | .hole _ :: .hole _ :: _ => False

instance decidableTidy : (t : Template κ γ) → Decidable (Tidy kind t)
  | [] => .isTrue trivial
  | .char _ :: t => decidableTidy t
  | .hole k :: .char c :: t =>
      haveI := decidableTidy t
      inferInstanceAs (Decidable (kind k c = false ∧ Tidy kind t))
  | [.hole _] => .isTrue trivial
  | .hole _ :: .hole _ :: _ => .isFalse id

variable {kind}

theorem Fits.literal {t : Template κ γ} {words : List (List γ)} (h : Fits kind t words)
    (text : List γ) : Fits kind (literal text ++ t) words := by
  induction text with
  | nil => exact h
  | cons c text ih => exact .char c ih

/-- What follows a hole of a tidy template is of another kind. -/
theorem Tidy.break_ {k : κ} {t : Template κ γ} (h : Tidy kind (.hole k :: t))
    {words : List (List γ)} (hfits : Fits kind t words) : Break (kind k) (fill t words) := by
  cases hfits with
  | nil => exact fun c hc => by cases hc
  | char c _ =>
      intro d hd
      obtain rfl : c = d := Option.some.inj hd
      exact h.1
  | hole _ _ _ => exact h.elim

@[simp] theorem tidy_literal (text : List γ) (t : Template κ γ) :
    Tidy kind (literal text ++ t) ↔ Tidy kind t := by
  induction text with
  | nil => rfl
  | cons c text ih => exact ih

/-- A hole before a text that begins with a character of another kind. -/
theorem tidy_hole {k : κ} {text : List γ} (hne : text ≠ []) (hbreak : Break (kind k) text)
    (t : Template κ γ) : Tidy kind (.hole k :: (literal text ++ t)) ↔ Tidy kind t := by
  cases text with
  | nil => exact absurd rfl hne
  | cons c text =>
      have hc : kind k c = false := hbreak c rfl
      exact (and_iff_right hc).trans (tidy_literal text t)

theorem Tidy.tail {k : κ} {t : Template κ γ} (h : Tidy kind (.hole k :: t)) : Tidy kind t := by
  rcases t with - | ⟨c | k', t⟩
  · trivial
  · exact h.2
  · exact h.elim

variable [DecidableEq γ] (kind)

/-- The words of a text: a hole takes all it can. -/
def read : Template κ γ → List γ → Option (List (List γ))
  | [], [] => some []
  | [], _ :: _ => none
  | .char _ :: _, [] => none
  | .char c :: t, d :: text => if c = d then read t text else none
  | .hole k :: t, text =>
      if text.takeWhile (kind k) = [] then none
      else (read t (text.dropWhile (kind k))).map (text.takeWhile (kind k) :: ·)

variable {kind}

theorem fits_of_read {t : Template κ γ} {text : List γ} {words : List (List γ)}
    (h : read kind t text = some words) : Fits kind t words ∧ text = fill t words := by
  induction t generalizing text words with
  | nil =>
      cases text with
      | nil =>
          cases h
          exact ⟨.nil, rfl⟩
      | cons c text => cases h
  | cons mark t ih =>
      cases mark with
      | char c =>
          cases text with
          | nil => cases h
          | cons d text =>
              rw [read] at h
              split at h
              · next hsame =>
                obtain ⟨hfits, hfill⟩ := ih h
                exact ⟨.char c hfits, by rw [← hsame, hfill]; rfl⟩
              · cases h
      | hole k =>
          rw [read] at h
          split at h
          · cases h
          · next hne =>
            obtain ⟨rest, hrest, rfl⟩ := Option.map_eq_some_iff.mp h
            obtain ⟨hfits, hfill⟩ := ih hrest
            refine ⟨.hole hne (fun c hc => List.mem_takeWhile_imp hc) hfits, ?_⟩
            rw [fill_hole, ← hfill, List.takeWhile_append_dropWhile]

theorem read_fill {t : Template κ γ} {words : List (List γ)} (htidy : Tidy kind t)
    (hfits : Fits kind t words) : read kind t (fill t words) = some words := by
  induction hfits with
  | nil => rfl
  | @char t words c hfits ih =>
      rw [fill, read, if_pos rfl]
      exact ih htidy
  | @hole t words k word hne hchars hfits ih =>
      have hbreak := htidy.break_ hfits
      have htake : (word ++ fill t words).takeWhile (kind k) = word := by
        rw [takeWhile_append_break _ hbreak, List.takeWhile_eq_self_iff]
        exact hchars
      have hdrop : (word ++ fill t words).dropWhile (kind k) = fill t words := by
        have hsplit := List.takeWhile_append_dropWhile (p := kind k) (l := word ++ fill t words)
        rw [htake] at hsplit
        exact List.append_cancel_left hsplit
      rw [fill_hole, read, htake, hdrop, if_neg hne, ih htidy.tail, Option.map_some]

/-- **A text is read as the words it is filled in with**, and no other text is. -/
theorem read_eq_some_iff {t : Template κ γ} (htidy : Tidy kind t) {text : List γ}
    {words : List (List γ)} :
    read kind t text = some words ↔ Fits kind t words ∧ text = fill t words := by
  constructor
  · exact fits_of_read
  · rintro ⟨hfits, rfl⟩
    exact read_fill htidy hfits

/-! ### Templates that are apart -/

variable (kind)

/-- Two templates part before they could be filled in alike. -/
def Apart : Template κ γ → Template κ γ → Prop
  | [], [] => False
  | [], _ :: _ => True
  | _ :: _, [] => True
  | .char c :: t, .char d :: t' => c ≠ d ∨ Apart t t'
  | .char c :: _, .hole k :: _ => kind k c = false
  | .hole k :: _, .char c :: _ => kind k c = false
  | .hole k :: t, .hole k' :: t' => k = k' ∧ Apart t t'

instance decidableApart [DecidableEq κ] : (t t' : Template κ γ) → Decidable (Apart kind t t')
  | [], [] => .isFalse id
  | [], _ :: _ => .isTrue trivial
  | _ :: _, [] => .isTrue trivial
  | .char c :: t, .char d :: t' =>
      haveI := decidableApart t t'
      inferInstanceAs (Decidable (c ≠ d ∨ Apart kind t t'))
  | .char c :: _, .hole k :: _ => inferInstanceAs (Decidable (kind k c = false))
  | .hole k :: _, .char c :: _ => inferInstanceAs (Decidable (kind k c = false))
  | .hole k :: t, .hole k' :: t' =>
      haveI := decidableApart t t'
      inferInstanceAs (Decidable (k = k' ∧ Apart kind t t'))

variable {kind}

omit [DecidableEq γ] in
@[simp] theorem apart_literal (text : List γ) (t t' : Template κ γ) :
    Apart kind (literal text ++ t) (literal text ++ t') ↔ Apart kind t t' := by
  induction text with
  | nil => rfl
  | cons c text ih => exact (or_iff_right (not_not.mpr rfl)).trans ih

omit [DecidableEq γ] in
@[simp] theorem apart_hole (k : κ) (t t' : Template κ γ) :
    Apart kind (.hole k :: t) (.hole k :: t') ↔ Apart kind t t' := and_iff_right rfl

/-- A hole takes no word from a text that begins with a character of another kind. -/
theorem read_hole_of_false {k : κ} {c : γ} (h : kind k c = false) (t : Template κ γ)
    (text : List γ) : read kind (.hole k :: t) (c :: text) = none := by
  rw [read, List.takeWhile_cons_of_neg (by simp [h]), if_pos rfl]

/-- **No text is read with both.** -/
theorem read_of_apart {t t' : Template κ γ} (h : Apart kind t t') (text : List γ) :
    read kind t text = none ∨ read kind t' text = none := by
  induction t generalizing t' text with
  | nil =>
      cases t' with
      | nil => exact h.elim
      | cons mark t' =>
          cases text with
          | nil =>
              right
              cases mark with
              | char d => rfl
              | hole k => rfl
          | cons c text => exact .inl rfl
  | cons mark t ih =>
      cases t' with
      | nil =>
          cases text with
          | nil =>
              left
              cases mark with
              | char d => rfl
              | hole k => rfl
          | cons c text => exact .inr rfl
      | cons mark' t' =>
          cases text with
          | nil =>
              left
              cases mark with
              | char c => rfl
              | hole k => rfl
          | cons e text =>
              match mark, mark', h with
              | .char c, .char d, h =>
                  rw [read, read]
                  by_cases hc : c = e
                  · by_cases hd : d = e
                    · rw [if_pos hc, if_pos hd]
                      exact ih (h.resolve_left (not_not.mpr (hc.trans hd.symm))) text
                    · exact .inr (if_neg hd)
                  · exact .inl (if_neg hc)
              | .char c, .hole k, h =>
                  by_cases hc : c = e
                  · exact .inr (read_hole_of_false (hc ▸ h) t' text)
                  · exact .inl (if_neg hc)
              | .hole k, .char c, h =>
                  by_cases hc : c = e
                  · exact .inl (read_hole_of_false (hc ▸ h) t text)
                  · exact .inr (if_neg hc)
              | .hole k, .hole k', h =>
                  obtain ⟨rfl, hrest⟩ := h
                  rcases ih hrest ((e :: text).dropWhile (kind k)) with hnone | hnone
                  · left
                    rw [read, hnone, Option.map_none, ite_self]
                  · right
                    rw [read, hnone, Option.map_none, ite_self]

variable (kind) in
/-- The first of these templates with which a text is read, and its words. -/
def readFirst (template : τ → Template κ γ) (forms : List τ) (text : List γ) :
    Option (τ × List (List γ)) :=
  forms.findSome? fun form => (read kind (template form) text).map (form, ·)

/-- **The form that was filled in is read**, and no other. -/
theorem readFirst_eq_some_iff {template : τ → Template κ γ} {forms : List τ}
    (htidy : ∀ form ∈ forms, Tidy kind (template form))
    (hapart : forms.Pairwise fun form form' => Apart kind (template form) (template form'))
    {text : List γ} {form : τ} {words : List (List γ)} :
    readFirst kind template forms text = some (form, words) ↔
      form ∈ forms ∧ Fits kind (template form) words ∧ text = fill (template form) words := by
  induction forms with
  | nil =>
      constructor
      · intro h
        cases h
      · rintro ⟨h, -⟩
        cases h
  | cons first forms ih =>
      obtain ⟨hfirst, hapart⟩ := List.pairwise_cons.mp hapart
      have ih := ih (fun form h => htidy form (List.mem_cons_of_mem _ h)) hapart
      rw [readFirst] at ih
      have hread : ∀ words, read kind (template first) text = some words ↔
          Fits kind (template first) words ∧ text = fill (template first) words := fun _ =>
        read_eq_some_iff (htidy first List.mem_cons_self)
      rw [readFirst, List.findSome?_cons, List.mem_cons]
      cases hwords : read kind (template first) text with
      | none =>
          rw [Option.map_none]
          dsimp only
          rw [ih]
          constructor
          · exact fun h => ⟨.inr h.1, h.2⟩
          · rintro ⟨rfl | hform, hrest⟩
            · rw [(hread words).mpr hrest] at hwords
              cases hwords
            · exact ⟨hform, hrest⟩
      | some found =>
          rw [Option.map_some]
          dsimp only
          constructor
          · intro h
            cases h
            exact ⟨.inl rfl, (hread _).mp hwords⟩
          · rintro ⟨rfl | hform, hrest⟩
            · rw [(hread words).mpr hrest] at hwords
              cases hwords
              rfl
            · have hother :=
                (read_eq_some_iff (htidy form (List.mem_cons_of_mem _ hform))).mpr hrest
              rcases read_of_apart (hfirst form hform) text with hnone | hnone
              · rw [hnone] at hwords
                cases hwords
              · rw [hnone] at hother
                cases hother

end Templates
