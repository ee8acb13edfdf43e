import TessariDB.ByteStream

/-!
# Two Runs in Lockstep

Two computations with a state and errors, run from states that are related. They run in lockstep
when they return related values or raise one error, and leave related states behind either way. A
relation of states that forgets a secret says of a computation in lockstep with itself that
nothing but what is forgotten depends on the secret.

## Main results

* `Lockstep.bind`, `Lockstep.tryCatch`: lockstep is kept where computations are composed.
* `lockstep_keeping`: an invariant is kept where a computation runs in lockstep with itself.
-/

namespace ByteStream

variable {ε ε' σ τ α β γ δ : Type} {R : σ → τ → Prop} {V : α → β → Prop} {U : γ → δ → Prop}

/-- Related values or one error, and related states. -/
inductive Matched (R : σ → τ → Prop) (V : α → β → Prop) :
    EStateM.Result ε σ α → EStateM.Result ε τ β → Prop
  | ok {a : α} {b : β} {s : σ} {t : τ} (values : V a b) (states : R s t) :
      Matched R V (.ok a s) (.ok b t)
  | error {e : ε} {s : σ} {t : τ} (states : R s t) : Matched R V (.error e s) (.error e t)

/-- From related states two computations come to results that match. -/
def Lockstep (R : σ → τ → Prop) (V : α → β → Prop) (m : EStateM ε σ α) (n : EStateM ε τ β) :
    Prop :=
  ∀ s t, R s t → Matched R V (m s) (n t)

theorem Matched.after {x : EStateM.Result ε σ α} {y : EStateM.Result ε τ β}
    (h : Matched R V x y) : R (after x) (after y) := by
  cases h with
  | ok _ hstates => exact hstates
  | error hstates => exact hstates

theorem Matched.outcome_eq {x : EStateM.Result ε σ α} {y : EStateM.Result ε τ α}
    (h : Matched R Eq x y) : outcome x = outcome y := by
  cases h with
  | ok hvalues _ => exact congrArg Except.ok hvalues
  | error _ => rfl

namespace Lockstep

variable {m : EStateM ε σ α} {n : EStateM ε τ β} {f : α → EStateM ε σ γ} {g : β → EStateM ε τ δ}

theorem pure {a : α} {b : β} (h : V a b) :
    Lockstep R V (Pure.pure a : EStateM ε σ α) (Pure.pure b : EStateM ε τ β) :=
  fun _ _ hst => .ok h hst

theorem throw (e : ε) :
    Lockstep R V (MonadExcept.throw e : EStateM ε σ α) (MonadExcept.throw e : EStateM ε τ β) :=
  fun _ _ hst => .error hst

theorem settle (x : Except ε α) :
    Lockstep R Eq (settle x : EStateM ε σ α) (ByteStream.settle x : EStateM ε τ α) := by
  intro s t hst
  cases x with
  | ok a => exact .ok rfl hst
  | error e => exact .error hst

/-- What two runs in lockstep come to. -/
theorem run (h : Lockstep R V m n) {s : σ} {t : τ} (hst : R s t) :
    (∃ a b s' t', m s = .ok a s' ∧ n t = .ok b t' ∧ V a b ∧ R s' t') ∨
      ∃ e s' t', m s = .error e s' ∧ n t = .error e t' ∧ R s' t' := by
  have hresult := h s t hst
  generalize m s = x at hresult
  generalize n t = y at hresult
  cases hresult with
  | ok hvalues hstates => exact .inl ⟨_, _, _, _, rfl, rfl, hvalues, hstates⟩
  | error hstates => exact .inr ⟨_, _, _, rfl, rfl, hstates⟩

/-- **One computation after another.** -/
theorem bind (h : Lockstep R V m n) (hf : ∀ a b, V a b → Lockstep R U (f a) (g b)) :
    Lockstep R U (m >>= f) (n >>= g) := by
  intro s t hst
  rcases h.run hst with ⟨a, b, s', t', hm, hn, hvalues, hstates⟩ | ⟨e, s', t', hm, hn, hstates⟩
  · rw [bind_of_ok hm, bind_of_ok hn]
    exact hf a b hvalues s' t' hstates
  · rw [bind_of_error hm, bind_of_error hn]
    exact .error hstates

/-- Where both go on in one way with one value. -/
theorem bind_eq {m : EStateM ε σ α} {n : EStateM ε τ α} {f : α → EStateM ε σ γ}
    {g : α → EStateM ε τ δ} (h : Lockstep R Eq m n) (hf : ∀ a, Lockstep R U (f a) (g a)) :
    Lockstep R U (m >>= f) (n >>= g) :=
  h.bind fun a _ hab => hab ▸ hf a

/-- With something made of each value. -/
theorem map {k : α → γ} {l : β → δ} (h : Lockstep R V m n) (hmade : ∀ a b, V a b → U (k a) (l b)) :
    Lockstep R U (k <$> m) (l <$> n) := by
  intro s t hst
  change Matched R U (EStateM.map k m s) (EStateM.map l n t)
  rw [EStateM.map, EStateM.map]
  rcases h.run hst with ⟨a, b, s', t', hm, hn, hvalues, hstates⟩ | ⟨e, s', t', hm, hn, hstates⟩
  · rw [hm, hn]
    exact .ok (hmade a b hvalues) hstates
  · rw [hm, hn]
    exact .error hstates

theorem discard (h : Lockstep R V m n) : Lockstep R Eq (discard m) (Functor.discard n) := by
  intro s t hst
  rcases h.run hst with ⟨a, b, s', t', hm, hn, -, hstates⟩ | ⟨e, s', t', hm, hn, hstates⟩
  · rw [discard_of_ok hm, discard_of_ok hn]
    exact .ok rfl hstates
  · rw [discard_of_error hm, discard_of_error hn]
    exact .error hstates

/-- What is caught is one error. -/
theorem tryCatch {handle : ε → EStateM ε σ α} {handle' : ε → EStateM ε τ β}
    (h : Lockstep R V m n) (hhandle : ∀ e, Lockstep R V (handle e) (handle' e)) :
    Lockstep R V (tryCatch m handle) (MonadExcept.tryCatch n handle') := by
  intro s t hst
  rcases h.run hst with ⟨a, b, s', t', hm, hn, hvalues, hstates⟩ | ⟨e, s', t', hm, hn, hstates⟩
  · rw [tryCatch_of_ok hm, tryCatch_of_ok hn]
    exact .ok hvalues hstates
  · rw [tryCatch_of_error hm, tryCatch_of_error hn]
    exact hhandle e s' t' hstates

/-- Under another name for the errors. -/
theorem adaptExcept (rename : ε → ε') (h : Lockstep R V m n) :
    Lockstep R V (m.adaptExcept rename) (n.adaptExcept rename) := by
  intro s t hst
  rw [EStateM.adaptExcept, EStateM.adaptExcept]
  rcases h.run hst with ⟨a, b, s', t', hm, hn, hvalues, hstates⟩ | ⟨e, s', t', hm, hn, hstates⟩
  · rw [hm, hn]
    exact .ok hvalues hstates
  · rw [hm, hn]
    exact .error hstates

end Lockstep

/-! ### Invariants -/

/-- One state, of which an invariant holds. -/
def Keeping (I : σ → Prop) (s t : σ) : Prop := s = t ∧ I s

/-- **A computation keeps an invariant** exactly where it runs in lockstep with itself from states
of which the invariant holds. -/
theorem lockstep_keeping {I : σ → Prop} {m : EStateM ε σ α} :
    Lockstep (Keeping I) Eq m m ↔ ∀ s, I s → I (after (m s)) := by
  constructor
  · intro h s hs
    exact (h s s ⟨rfl, hs⟩).after.2
  · rintro h s t ⟨rfl, hs⟩
    have hafter := h s hs
    generalize m s = x at hafter
    cases x with
    | ok a s' => exact .ok rfl ⟨rfl, hafter⟩
    | error e s' => exact .error ⟨rfl, hafter⟩

end ByteStream
