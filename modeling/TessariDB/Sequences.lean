import Mathlib.Data.List.Forall2

/-!
# Sequences

Lists worked through element by element, with a failure ending the work.

## Main results

* `mapM_eq_ok`: when all the work is done, and what comes of it.
* `FailsWith.bind`, `FailsWith.mapM`: the errors that work may end with.
* `EndsWith.bind`, `EndsWith.mapM`: the error that work ends with.
* `map_eq_map_of`: what a map keeps apart, element by element, it keeps apart in lists.
-/

namespace Sequences

variable {ε α β γ δ : Type}

theorem bind_eq_ok {x : Except ε α} {f : α → Except ε β} {b : β} :
    x >>= f = .ok b ↔ ∃ a, x = .ok a ∧ f a = .ok b := by
  constructor
  · intro h
    cases x with
    | error e => cases h
    | ok a => exact ⟨a, rfl, h⟩
  · rintro ⟨a, rfl, h⟩
    exact h

theorem map_eq_ok {x : Except ε α} {f : α → β} {b : β} :
    x.map f = .ok b ↔ ∃ a, x = .ok a ∧ f a = b := by
  cases x with
  | error e => simp [Except.map]
  | ok a => simp [Except.map]

theorem map_bind (g : β → γ) (x : Except ε α) (f : α → Except ε β) :
    (x >>= f).map g = x >>= fun a => (f a).map g := by
  cases x <;> rfl

/-- **The work is done when it is done on every element.** -/
theorem mapM_eq_ok {f : α → Except ε β} {as : List α} {bs : List β} :
    as.mapM f = .ok bs ↔ List.Forall₂ (fun a b => f a = .ok b) as bs := by
  induction as generalizing bs with
  | nil =>
      rw [List.mapM_nil, List.forall₂_nil_left_iff]
      exact ⟨fun h => by cases h; rfl, fun h => h ▸ rfl⟩
  | cons a as ih =>
      rw [List.mapM_cons, bind_eq_ok, List.forall₂_cons_left_iff]
      constructor
      · rintro ⟨b, hb, h⟩
        obtain ⟨bs', hbs', heq⟩ := bind_eq_ok.mp h
        cases heq
        exact ⟨b, bs', hb, ih.mp hbs', rfl⟩
      · rintro ⟨b, bs', hb, hbs', rfl⟩
        exact ⟨b, hb, bind_eq_ok.mpr ⟨bs', ih.mpr hbs', rfl⟩⟩

/-- The work can be done exactly when it can be done on every element. -/
theorem exists_mapM_ok {f : α → Except ε β} {as : List α} :
    (∃ bs, as.mapM f = .ok bs) ↔ ∀ a ∈ as, ∃ b, f a = .ok b := by
  simp only [mapM_eq_ok]
  induction as with
  | nil => simp
  | cons a as ih =>
      rw [List.forall_mem_cons, ← ih]
      constructor
      · rintro ⟨bs, h⟩
        obtain ⟨b, bs, hb, hbs, -⟩ := List.forall₂_cons_left_iff.mp h
        exact ⟨⟨b, hb⟩, bs, hbs⟩
      · rintro ⟨⟨b, hb⟩, bs, hbs⟩
        exact ⟨b :: bs, .cons hb hbs⟩

/-- Work that undoes a relation, element by element. -/
theorem mapM_of_forall₂ {r : α → β → Prop} {f : β → Except ε α} {as : List α} {bs : List β}
    (h : List.Forall₂ r as bs) (hf : ∀ a ∈ as, ∀ b, r a b → f b = .ok a) : bs.mapM f = .ok as := by
  rw [mapM_eq_ok]
  induction h with
  | nil => exact .nil
  | cons hab _ ih =>
      rw [List.forall_mem_cons] at hf
      exact .cons (hf.1 _ hab) (ih hf.2)

/-- Whatever error the work ends with is one of these. -/
def FailsWith (errors : ε → Prop) (x : Except ε α) : Prop := ∀ e, x = .error e → errors e

namespace FailsWith

variable {errors : ε → Prop} {x : Except ε α}

theorem ok (a : α) : FailsWith errors (.ok a : Except ε α) := nofun

theorem error {e : ε} (h : errors e) : FailsWith errors (.error e : Except ε α) := by
  rintro _ ⟨⟩
  exact h

theorem bind {f : α → Except ε β} (hx : FailsWith errors x)
    (hf : ∀ a, x = .ok a → FailsWith errors (f a)) : FailsWith errors (x >>= f) := by
  cases x with
  | error e => exact error (hx e rfl)
  | ok a => exact hf a rfl

/-- What is made of a result does not fail. -/
theorem map (hx : FailsWith errors x) (f : α → β) :
    FailsWith errors (do return f (← x)) :=
  hx.bind fun a _ => ok (f a)

theorem mapM {f : α → Except ε β} {as : List α} (h : ∀ a ∈ as, FailsWith errors (f a)) :
    FailsWith errors (as.mapM f) := by
  induction as with
  | nil => exact ok []
  | cons a as ih =>
      rw [List.forall_mem_cons] at h
      rw [List.mapM_cons]
      exact h.1.bind fun b _ => (ih h.2).map (b :: ·)

end FailsWith

/-- The work ends with the first of these, or is done when there is none. -/
def EndsWith (raises : δ → ε → Prop) (x : Except ε α) : List δ → Prop
  | [] => ∃ a, x = .ok a
  | d :: _ => ∃ e, x = .error e ∧ raises d e

namespace EndsWith

variable {raises : δ → ε → Prop} {x : Except ε α} {d : δ} {ds ds' : List δ}

theorem ok (a : α) : EndsWith raises (.ok a) [] := ⟨a, rfl⟩

theorem error {e : ε} (h : raises d e) : EndsWith raises (.error e : Except ε α) (d :: ds) :=
  ⟨e, rfl, h⟩

theorem bind {f : α → Except ε β} (hx : EndsWith raises x ds)
    (hf : ∀ a, x = .ok a → EndsWith raises (f a) ds') : EndsWith raises (x >>= f) (ds ++ ds') := by
  cases ds with
  | nil =>
      obtain ⟨a, rfl⟩ := hx
      exact hf a rfl
  | cons d ds =>
      obtain ⟨e, rfl, he⟩ := hx
      exact error he

/-- What is made of a result ends the work no sooner. -/
theorem map (hx : EndsWith raises x ds) (f : α → β) : EndsWith raises (do return f (← x)) ds := by
  rw [← List.append_nil ds]
  exact hx.bind fun a _ => ok (f a)

theorem mapM {f : α → Except ε β} {as : List α} {dss : List (List δ)}
    (h : List.Forall₂ (fun a ds => EndsWith raises (f a) ds) as dss) :
    EndsWith raises (as.mapM f) dss.flatten := by
  induction h with
  | nil => exact ok []
  | cons hhead _ ih =>
      rw [List.mapM_cons, List.flatten_cons]
      exact hhead.bind fun b _ => ih.map (b :: ·)

/-- The same, where what ends the work is known of each element. -/
theorem mapM_flatMap {f : α → Except ε β} {g : α → List δ} {as : List α}
    (h : ∀ a ∈ as, EndsWith raises (f a) (g a)) :
    EndsWith raises (as.mapM f) (as.flatMap g) := by
  rw [List.flatMap]
  refine mapM ?_
  rw [List.forall₂_map_right_iff, List.forall₂_same]
  exact h

/-- Under another name for what was raised. -/
theorem mapError {ε' : Type} {raises' : δ → ε' → Prop} {g : ε → ε'} (hx : EndsWith raises x ds)
    (h : ∀ d e, raises d e → raises' d (g e)) : EndsWith raises' (x.mapError g) ds := by
  cases ds with
  | nil =>
      obtain ⟨a, rfl⟩ := hx
      exact ok a
  | cons d ds =>
      obtain ⟨e, rfl, he⟩ := hx
      exact error (h d e he)

end EndsWith

theorem EndsWith.of_ok {raises : δ → ε → Prop} {a : α} {ds : List δ}
    (h : EndsWith raises (.ok a) ds) : ds = [] := by
  cases ds with
  | nil => rfl
  | cons d ds =>
      obtain ⟨e, he, -⟩ := h
      cases he

theorem EndsWith.of_error {raises : δ → ε → Prop} {e : ε} {ds : List δ}
    (h : EndsWith raises (.error e : Except ε α) ds) : ∃ d, ds.head? = some d ∧ raises d e := by
  cases ds with
  | nil =>
      obtain ⟨a, ha⟩ := h
      cases ha
  | cons d ds =>
      obtain ⟨e', he, hraises⟩ := h
      cases he
      exact ⟨d, rfl, hraises⟩

/-- What there is to say where a condition does not hold. -/
def lacking (P : Prop) [Decidable P] (d : δ) : List δ := if P then [] else [d]

section

variable {P : Prop} [Decidable P] {raises : δ → ε → Prop} {d : δ}

theorem lacking_of (h : P) : lacking P d = [] := if_pos h

theorem lacking_of_not (h : ¬ P) : lacking P d = [d] := if_neg h

/-- Work with one condition. -/
theorem EndsWith.lacking {a : α} {e : ε} (h : raises d e) :
    EndsWith raises (if P then .ok a else .error e) (lacking P d) := by
  split
  · next hP =>
    rw [lacking_of hP]
    exact ok a
  · next hP =>
    rw [lacking_of_not hP]
    exact error h

end

/-- What comes of the work when each element has one result. -/
theorem forall₂_eq_map {r : α → β → Prop} {g : α → β} {as : List α} {bs : List β}
    (h : List.Forall₂ r as bs) (hg : ∀ a ∈ as, ∀ b, r a b → b = g a) : bs = as.map g := by
  induction h with
  | nil => rfl
  | cons hab _ ih =>
      rw [List.forall_mem_cons] at hg
      rw [List.map_cons, hg.1 _ hab, ih hg.2]

/-- **What a map keeps apart, it keeps apart in lists.** -/
theorem map_eq_map_of {f : α → γ} {g : β → γ} {r : α → β → Prop} {as : List α} {bs : List β}
    (h : as.map f = bs.map g) (hr : ∀ a ∈ as, ∀ b ∈ bs, f a = g b → r a b) :
    List.Forall₂ r as bs := by
  induction as generalizing bs with
  | nil =>
      cases bs with
      | nil => exact .nil
      | cons b bs => cases h
  | cons a as ih =>
      cases bs with
      | nil => cases h
      | cons b bs =>
          obtain ⟨hhead, htail⟩ := List.cons.inj h
          exact .cons (hr a List.mem_cons_self b List.mem_cons_self hhead)
            (ih htail fun a ha b hb => hr a (List.mem_cons_of_mem _ ha) b (List.mem_cons_of_mem _ hb))

end Sequences
