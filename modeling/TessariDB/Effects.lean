import TessariDB.ByteStream

/-!
# Where a Computation Ends

Rules for what a computation with a state and errors may come to, taken apart where it is
composed. Nothing is rolled back by an error, so a computation that failed has an end as well.

## Main results

* `Ends.bind`: the end of one computation after another.
* `ends_after`: a fact about the state left, however it was left.
-/

namespace Effects

open ByteStream

variable {ε σ α β : Type}

/-- From this state the computation returns as `ok` says, or fails as `error` says. -/
def Ends (m : EStateM ε σ α) (s : σ) (ok : α → σ → Prop) (error : ε → σ → Prop) : Prop :=
  match m s with
  | .ok a s' => ok a s'
  | .error e s' => error e s'

variable {m : EStateM ε σ α} {f : α → EStateM ε σ β} {s : σ} {ok : α → σ → Prop}
  {error : ε → σ → Prop}

theorem ends_settle (x : Except ε α) (s : σ) :
    Ends (settle x) s (fun a s' => x = .ok a ∧ s = s') (fun e s' => x = .error e ∧ s = s') := by
  cases x <;> exact ⟨rfl, rfl⟩

/-- A result that is at hand leaves the rest to be run. -/
theorem ends_settle_ok {a : α} {ok : β → σ → Prop} :
    Ends (settle (.ok a) >>= f) s ok error ↔ Ends (f a) s ok error :=
  Iff.rfl

theorem Ends.mono {ok' : α → σ → Prop} {error' : ε → σ → Prop} (h : Ends m s ok error)
    (hok : ∀ a s', ok a s' → ok' a s') (herror : ∀ e s', error e s' → error' e s') :
    Ends m s ok' error' := by
  rw [Ends] at h ⊢
  cases hrun : m s with
  | ok a s' =>
      rw [hrun] at h
      exact hok a s' h
  | error e s' =>
      rw [hrun] at h
      exact herror e s' h

/-- **One computation after another.** -/
theorem Ends.bind {mid : α → σ → Prop} {fail : ε → σ → Prop} {ok : β → σ → Prop}
    (h : Ends m s mid fail) (hok : ∀ a s', mid a s' → Ends (f a) s' ok error)
    (herror : ∀ e s', fail e s' → error e s') : Ends (m >>= f) s ok error := by
  rw [Ends] at h
  cases hrun : m s with
  | ok a s' =>
      rw [hrun] at h
      rw [Ends, bind_of_ok hrun]
      exact hok a s' h
  | error e s' =>
      rw [hrun] at h
      rw [Ends, bind_of_error hrun]
      exact herror e s' h

/-- Without its result. -/
theorem Ends.discard {ok : σ → Prop} (h : Ends m s (fun _ => ok) error) :
    Ends (Functor.discard m) s (fun _ => ok) error := by
  rw [Ends] at h ⊢
  cases hrun : m s with
  | ok a s' =>
      rw [hrun] at h
      rw [discard_of_ok hrun]
      exact h
  | error e s' =>
      rw [hrun] at h
      rw [discard_of_error hrun]
      exact h

/-- What holds of the state left, however it was left. -/
theorem ends_after {P : σ → Prop} : Ends m s (fun _ => P) (fun _ => P) ↔ P (after (m s)) := by
  rw [Ends]
  cases m s <;> rfl

end Effects
