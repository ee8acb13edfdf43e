import TessariDB.ByteCodec
import Mathlib.Algebra.Ring.Nat
import Mathlib.Algebra.Order.BigOperators.Group.List

/-!
# Paying for What is Read

A declared count is a number of a few bytes that asks for as many items as it pleases. What a
reader makes is paid for in the bytes it consumes: `Get.Pays credit g size` says that `g` consumes
the `size` of its result, `credit` bytes of which were consumed before. Whatever a loop over items
that each cost a byte makes, it has consumed as many bytes as there are items, and a count that
asks for more of them than there are bytes is one like any other.

## Main results

* `Get.Pays.bind`, `Get.Pays.repeatN`: the bytes one part consumed are the credit of the next.
* `Get.repeatN_past`: a count past the bytes there are fails, and where the next one does.
-/

namespace ByteCodec

namespace Get

variable {ε ε' α β : Type} {credit : ℕ}

/-- With so many bytes in hand, `g` has consumed the `size` of what it returns. -/
def Pays (credit : ℕ) (g : Get ε α) (size : α → ℕ) : Prop :=
  ∀ s s' a, g s = .ok (a, s') → size a + s'.length ≤ s.length + credit

variable {g : Get ε α} {f : α → Get ε β} {size : α → ℕ} {cost : β → ℕ}

theorem pays_pure {a : α} (h : size a ≤ credit) : Pays credit (pure a : Get ε α) size := by
  intro s s' a' hrun
  obtain ⟨rfl, rfl⟩ := pure_eq_ok.mp hrun
  omega

theorem pays_fail (e : ε) : Pays credit (fail e : Get ε α) size := by
  intro s s' a hrun
  cases hrun

theorem pays_exhausted : Pays credit (exhausted : Get ε Bool) fun _ => credit := by
  intro s s' ended hrun
  cases hrun
  exact Nat.le_of_eq (Nat.add_comm _ _)

theorem Pays.mono {cost : α → ℕ} (h : Pays credit g size) (hle : ∀ a, cost a ≤ size a) :
    Pays credit g cost :=
  fun s s' a hrun => (Nat.add_le_add_right (hle a) _).trans (h s s' a hrun)

/-- What is in hand beforehand is in hand afterwards. -/
theorem Pays.keep (h : Pays 0 g size) (credit : ℕ) :
    Pays credit g fun a => credit + size a := by
  intro s s' a hrun
  have := h s s' a hrun
  dsimp only
  omega

/-- **The bytes one part consumed are the credit of the next.** -/
theorem Pays.bind (hg : Pays credit g size) (hf : ∀ a, Pays (size a) (f a) cost) :
    Pays credit (g >>= f) cost := by
  intro s s' b hrun
  obtain ⟨a, s₁, hga, hfb⟩ := bind_eq_ok.mp hrun
  have hbefore := hg s s₁ a hga
  have hbehind := hf a s₁ s' b hfb
  omega

theorem Pays.map (hg : Pays credit g size) (f : α → β) (h : ∀ a, cost (f a) ≤ size a) :
    Pays credit (g >>= fun a => (pure (f a) : Get ε β)) cost :=
  hg.bind fun a => pays_pure (h a)

theorem Pays.ite {p : Prop} [Decidable p] {h : Get ε α} (hg : Pays credit g size)
    (hh : Pays credit h size) : Pays credit (if p then g else h) size := by
  split
  · exact hg
  · exact hh

theorem Pays.mapError (hg : Pays credit g size) (t : ε → ε') :
    Pays credit (Get.mapError t g) size :=
  fun s s' a hrun => hg s s' a (mapError_eq_ok.mp hrun)

/-- What reads nothing costs what was consumed before it. -/
theorem pays_ofExcept {x : Except ε α} (h : ∀ a, x = .ok a → size a ≤ credit) :
    Pays credit (ofExcept x) size := by
  intro s s' a hrun
  obtain ⟨hx, rfl⟩ := ofExcept_eq_ok.mp hrun
  have := h a hx
  omega

/-- **Items that pay for themselves pay for any number of them.** -/
theorem Pays.repeatN (h : Pays 0 g size) (n : ℕ) :
    Pays 0 (repeatN n g) fun as => (as.map size).sum := by
  induction n with
  | zero => exact pays_pure (Nat.le_refl _)
  | succ n ih =>
      refine h.bind fun a => (ih.keep (size a)).map _ fun as => ?_
      rw [List.map_cons, List.sum_cons]

/-- **A count past the bytes there are.** Where every item takes a byte, a loop over more items
than there are bytes fails, and fails as it does for any other such count. -/
theorem repeatN_past (h : Pays 0 g size) (hpos : ∀ a, 0 < size a) {n m : ℕ} {s : Bytes}
    (hn : s.length < n) (hm : s.length < m) :
    ∃ e, repeatN n g s = .error e ∧ repeatN m g s = .error e := by
  induction n generalizing m s with
  | zero => omega
  | succ n ih =>
      obtain ⟨m, rfl⟩ := Nat.exists_eq_add_one_of_ne_zero (Nat.ne_zero_of_lt hm)
      rw [Get.repeatN, Get.repeatN]
      rcases hg : g s with e | ⟨a, s'⟩
      · exact ⟨e, bind_of_error hg _, bind_of_error hg _⟩
      · have hpaid := h s s' a hg
        have ha := hpos a
        obtain ⟨e, hen, hem⟩ := ih (m := m) (s := s') (by omega) (by omega)
        rw [bind_of_ok hg, bind_of_ok hg]
        exact ⟨e, bind_of_error hen _, bind_of_error hem _⟩

/-- Everything `g` makes takes bytes of its own, at least `size` of them. -/
structure Feeds (g : Get ε α) (size : α → ℕ) : Prop where
  pays : Pays 0 g size
  pos : ∀ a, 0 < size a

theorem feeds_one (h : Pays 0 g fun _ => 1) : Feeds g fun _ => 1 := ⟨h, fun _ => Nat.one_pos⟩

end Get

end ByteCodec
