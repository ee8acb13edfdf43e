import Mathlib.Data.List.Basic
import Mathlib.Data.Int.Order.Basic

/-!
# Resuming a Log

A log is a list of entries whose keys never decrease; several entries may share a key. A
reader asks for the entries from a key on, is cut off after some of them, and asks again from
one past the last key it was given. `replay` is the list of positions it is given in all.

## Main results

* `start_resume`: where a reading that was cut off is taken up again.
* `replay_pairwise`: no position is given twice.
* `complete_replay_iff`: no position is left out exactly when every cut that something follows
  falls between two keys, or within the last key of the log.
-/

namespace LogReplay

variable {α : Type} (key : α → ℤ) (log : List α)

/-- The entries from a key on. -/
def since (p : ℤ) : List α := log.filter (p ≤ key ·)

/-- The position of the first of them. -/
def start (p : ℤ) : ℕ := log.countP (key · < p)

/-- Where to resume from: one past the last key given. -/
def resume (p : ℤ) (given : List α) : ℤ := given.getLast?.elim p (key · + 1)

/-- The positions given by one reading from `p` and another after each cut. -/
def replay : ℤ → List ℕ → List ℕ
  | _, [] => []
  | p, k :: ks =>
      let given := (since key log p).take k
      List.range' (start key log p) given.length ++ replay (resume key p given) ks

/-- From `m` up to the last position of `ys`, none is missing in `ys`. -/
def Complete (m : ℕ) (ys : List ℕ) : Prop := ∀ i ∈ ys, ∀ j, m ≤ j → j ≤ i → j ∈ ys

/-- Every cut after which something is asked for falls between two keys, or within the last
key there is. -/
def Whole : List α → List ℕ → Prop
  | _, [] => True
  | rest, k :: ks =>
      ((∃ x ∈ ks, 0 < x) → ∀ a ∈ (rest.take k).getLast?, ∀ b ∈ (rest.drop k).head?,
        key a = key b → ∀ c ∈ rest.drop k, key c = key a) ∧
      Whole (rest.drop k) ks

instance decidableWhole : ∀ (rest : List α) (cuts : List ℕ), Decidable (Whole key rest cuts)
  | _, [] => inferInstanceAs (Decidable True)
  | rest, k :: ks =>
      haveI := decidableWhole (rest.drop k) ks
      inferInstanceAs (Decidable (((∃ x ∈ ks, 0 < x) → ∀ a ∈ (rest.take k).getLast?,
        ∀ b ∈ (rest.drop k).head?, key a = key b → ∀ c ∈ rest.drop k, key c = key a) ∧
        Whole key (rest.drop k) ks))

/-! ### Where a key begins -/

section Start

variable {key log}

@[simp] theorem resume_nil (p : ℤ) : resume key p [] = p := rfl

theorem resume_cons (p : ℤ) (a : α) (given : List α) :
    resume key p (a :: given) = resume key (key a + 1) given := by
  rw [resume, resume, List.getLast?_cons]
  cases given.getLast? <;> rfl

theorem resume_concat (p : ℤ) (given : List α) (a : α) :
    resume key p (given ++ [a]) = key a + 1 := by
  simp [resume]

theorem start_cons_of_lt {a : α} {p : ℤ} (h : key a < p) :
    start key (a :: log) p = start key log p + 1 := by
  rw [start, List.countP_cons_of_pos (by simpa using h), start]

theorem start_cons_of_le {a : α} {p : ℤ} (hlog : (a :: log).Pairwise (key · ≤ key ·))
    (h : p ≤ key a) : start key (a :: log) p = 0 := by
  rw [start, List.countP_eq_zero]
  obtain ⟨hhead, -⟩ := List.pairwise_cons.mp hlog
  intro b hb
  rcases List.mem_cons.mp hb with rfl | hb
  · simpa using h
  · simpa using le_trans h (hhead b hb)

theorem start_le_length (p : ℤ) : start key log p ≤ log.length := List.countP_le_length

theorem since_eq_drop (hlog : log.Pairwise (key · ≤ key ·)) (p : ℤ) :
    since key log p = log.drop (start key log p) := by
  induction log with
  | nil => rfl
  | cons b log ih =>
      by_cases hb : p ≤ key b
      · rw [start_cons_of_le hlog hb, List.drop_zero, since, List.filter_eq_self]
        obtain ⟨hhead, -⟩ := List.pairwise_cons.mp hlog
        intro a ha
        rcases List.mem_cons.mp ha with rfl | ha
        · simpa using hb
        · simpa using le_trans hb (hhead a ha)
      · rw [start_cons_of_lt (not_le.mp hb), List.drop_succ_cons, ← ih hlog.tail, since,
          List.filter_cons_of_neg (by simpa using hb), since]

/-! ### One reading -/

/-- A reading divides the log: what is before it, what it gives, and what it leaves. -/
theorem split_eq (hlog : log.Pairwise (key · ≤ key ·)) (p : ℤ) (k : ℕ) :
    log = log.take (start key log p) ++ ((since key log p).take k ++ (since key log p).drop k) := by
  rw [List.take_append_drop, since_eq_drop hlog, List.take_append_drop]

/-- Keys up to the last one given are not larger, and keys after it are not smaller. -/
theorem around_last (hlog : log.Pairwise (key · ≤ key ·)) {p : ℤ} {k : ℕ} {g : List α} {a : α}
    (hgiven : (since key log p).take k = g ++ [a]) :
    (∀ b ∈ log.take (start key log p) ++ g, key b ≤ key a) ∧
      ∀ b ∈ (since key log p).drop k, key a ≤ key b := by
  rw [split_eq hlog p k, hgiven, List.append_assoc, ← List.append_assoc] at hlog
  obtain ⟨-, hright, hleft⟩ := List.pairwise_append.mp hlog
  exact ⟨fun b hb => hleft b hb a List.mem_cons_self, (List.pairwise_cons.mp hright).1⟩

/-- The next reading begins after the entries given and those left that share their last key. -/
theorem start_resume (hlog : log.Pairwise (key · ≤ key ·)) {p : ℤ} {k : ℕ} {g : List α} {a : α}
    (hgiven : (since key log p).take k = g ++ [a]) :
    start key log (resume key p (g ++ [a])) =
      start key log p + (g ++ [a]).length +
        ((since key log p).drop k).countP (key · < key a + 1) := by
  obtain ⟨hbefore, -⟩ := around_last hlog hgiven
  have hall : (log.take (start key log p) ++ g).countP (key · < key a + 1) =
      (log.take (start key log p) ++ g).length :=
    List.countP_eq_length.mpr fun b hb => by simpa [Int.lt_add_one_iff] using hbefore b hb
  have hlen : (log.take (start key log p)).length = start key log p :=
    List.length_take_of_le (start_le_length p)
  rw [List.length_append, hlen] at hall
  rw [resume_concat]
  conv_lhs => rw [start, split_eq hlog p k, hgiven, List.append_assoc, ← List.append_assoc,
    List.countP_append, hall]
  simp only [List.cons_append, List.nil_append, List.length_append, List.length_cons,
    List.length_nil]
  rw [List.countP_cons_of_pos (by exact decide_eq_true (Int.lt_succ (key a)))]
  omega

/-- What the next reading is for. -/
theorem since_resume (hlog : log.Pairwise (key · ≤ key ·)) {p : ℤ} {k : ℕ} {g : List α} {a : α}
    (hgiven : (since key log p).take k = g ++ [a]) :
    since key log (resume key p (g ++ [a])) =
      ((since key log p).drop k).filter (key a < key ·) := by
  obtain ⟨hbefore, -⟩ := around_last hlog hgiven
  have hnone : (log.take (start key log p) ++ g).filter (key a + 1 ≤ key ·) = [] := by
    rw [List.filter_eq_nil_iff]
    intro b hb
    simpa [Int.add_one_le_iff] using hbefore b hb
  rw [resume_concat]
  conv_lhs => rw [since, split_eq hlog p k, hgiven, List.append_assoc, ← List.append_assoc,
    List.filter_append, hnone, List.nil_append, List.cons_append, List.nil_append,
    List.filter_cons_of_neg (by
      exact fun h => Int.not_le.mpr (Int.lt_succ (key a)) (of_decide_eq_true h))]
  rfl

/-- The next reading begins no earlier than where this one stopped. -/
theorem le_start_resume (hlog : log.Pairwise (key · ≤ key ·)) (p : ℤ) (k : ℕ) :
    start key log p + ((since key log p).take k).length ≤
      start key log (resume key p ((since key log p).take k)) := by
  rcases List.eq_nil_or_concat' ((since key log p).take k) with hgiven | ⟨g, a, hgiven⟩
  · rw [hgiven]
    exact Nat.le_refl _
  · rw [hgiven, start_resume hlog hgiven]
    exact Nat.le_add_right ..

/-! ### All the readings -/

theorem le_of_mem_replay (hlog : log.Pairwise (key · ≤ key ·)) {p : ℤ} {ks : List ℕ} {i : ℕ}
    (hi : i ∈ replay key log p ks) : start key log p ≤ i := by
  induction ks generalizing p with
  | nil => exact nomatch hi
  | cons k ks ih =>
      rw [replay, List.mem_append] at hi
      rcases hi with hi | hi
      · exact (List.mem_range'_1.mp hi).1
      · have hnext := ih hi
        have hstep := le_start_resume hlog p k
        omega

/-- No position is given twice. -/
theorem replay_pairwise (hlog : log.Pairwise (key · ≤ key ·)) (p : ℤ) (ks : List ℕ) :
    (replay key log p ks).Pairwise (· < ·) := by
  induction ks generalizing p with
  | nil => exact .nil
  | cons k ks ih =>
      rw [replay, List.pairwise_append]
      refine ⟨List.pairwise_lt_range', ih _, fun i hi j hj => ?_⟩
      have hnext := le_of_mem_replay hlog hj
      have hstep := le_start_resume hlog p k
      have hlast := (List.mem_range'_1.mp hi).2
      omega

theorem replay_eq_nil_iff (p : ℤ) (ks : List ℕ) :
    replay key log p ks = [] ↔ (∀ x ∈ ks, x = 0) ∨ since key log p = [] := by
  induction ks generalizing p with
  | nil => simp [replay]
  | cons k ks ih =>
      rw [replay, List.append_eq_nil_iff, List.range'_eq_nil_iff, List.length_eq_zero_iff]
      constructor
      · rintro ⟨hgiven, hrest⟩
        rw [hgiven, resume_nil, ih] at hrest
        rcases List.take_eq_nil_iff.mp hgiven with hk | hsince
        · rcases hrest with hzero | hsince
          · exact .inl (List.forall_mem_cons.mpr ⟨hk, hzero⟩)
          · exact .inr hsince
        · exact .inr hsince
      · rintro (hzero | hsince)
        · obtain ⟨rfl, hzeros⟩ := List.forall_mem_cons.mp hzero
          exact ⟨List.take_zero, (ih _).mpr (.inl hzeros)⟩
        · rw [hsince, List.take_nil, resume_nil]
          exact ⟨rfl, (ih _).mpr (.inr hsince)⟩

/-- A run of positions, and others after it: none is missing if the others come right after the
run, or there are none. -/
theorem complete_append {m n m' : ℕ} {ys : List ℕ} (hm : m + n ≤ m') (hys : ∀ i ∈ ys, m' ≤ i) :
    Complete m (List.range' m n ++ ys) ↔ (ys = [] ∨ m' = m + n) ∧ Complete m' ys := by
  constructor
  · intro h
    have hafter : ∀ i ∈ ys, ∀ j, m + n ≤ j → j ≤ i → j ∈ ys := by
      intro i hi j hj hji
      rcases List.mem_append.mp (h i (List.mem_append_right _ hi) j (by omega) hji) with hj' | hj'
      · have hlast := (List.mem_range'_1.mp hj').2
        omega
      · exact hj'
    refine ⟨?_, fun i hi j hj => hafter i hi j (by omega)⟩
    rcases ys with - | ⟨i, ys⟩
    · exact .inl rfl
    · have hi := hys i List.mem_cons_self
      exact .inr (Nat.le_antisymm
        (hys _ (hafter i List.mem_cons_self (m + n) (Nat.le_refl _) (by omega))) hm)
  · rintro ⟨hnext, h⟩ i hi j hj hji
    rw [List.mem_append, List.mem_range'_1]
    by_cases hrun : j < m + n
    · exact .inl ⟨hj, hrun⟩
    · right
      rcases List.mem_append.mp hi with hi | hi
      · have hlast := (List.mem_range'_1.mp hi).2
        omega
      · rcases hnext with rfl | rfl
        · cases hi
        · exact h i hi j (by omega) hji

/-! ### Cuts -/

theorem whole_of_zero (rest : List α) {ks : List ℕ} (h : ∀ x ∈ ks, x = 0) :
    Whole key rest ks := by
  induction ks generalizing rest with
  | nil => trivial
  | cons k ks ih =>
      obtain ⟨-, hzero⟩ := List.forall_mem_cons.mp h
      refine ⟨?_, ih _ hzero⟩
      rintro ⟨x, hx, hpos⟩
      exact absurd (hzero x hx) (by omega)

theorem whole_of_same {rest : List α} {p : ℤ} (h : ∀ c ∈ rest, key c = p) (ks : List ℕ) :
    Whole key rest ks := by
  induction ks generalizing rest with
  | nil => trivial
  | cons k ks ih =>
      refine ⟨fun _ a ha b _ _ c hc => ?_, ih fun c hc => h c (List.mem_of_mem_drop hc)⟩
      rw [h c (List.mem_of_mem_drop hc),
        h a (List.mem_of_mem_take (List.mem_of_getLast? (Option.mem_def.mp ha)))]

/-- Where a reading stopped and where the next begins: side by side with nothing lost, or
inside a key, of which the rest is lost. -/
theorem cut_cases (hlog : log.Pairwise (key · ≤ key ·)) {p : ℤ} {k : ℕ} {given left : List α}
    (hgiven : (since key log p).take k = given) (hleft : (since key log p).drop k = left) :
    (start key log (resume key p given) = start key log p + given.length ∧
      since key log (resume key p given) = left ∧
      ∀ a ∈ given.getLast?, ∀ b ∈ left.head?, key a ≠ key b) ∨
    (start key log (resume key p given) ≠ start key log p + given.length ∧
      ∃ a ∈ given.getLast?, (∃ b ∈ left.head?, key a = key b) ∧
        (since key log (resume key p given) = [] ↔ ∀ c ∈ left, key c = key a)) := by
  rcases List.eq_nil_or_concat' given with rfl | ⟨g, a, rfl⟩
  · left
    refine ⟨rfl, ?_, by simp⟩
    rcases List.take_eq_nil_iff.mp hgiven with rfl | hsince
    · exact hleft
    · rw [resume_nil, ← hleft, hsince, List.drop_nil]
  have hafter := (around_last hlog hgiven).2
  rw [start_resume hlog hgiven, since_resume hlog hgiven, List.getLast?_concat, hleft]
  cases left with
  | nil => exact .inl ⟨rfl, rfl, by simp⟩
  | cons b left =>
      rw [hleft] at hafter
      have hsorted : (b :: left).Pairwise (key · ≤ key ·) := by
        rw [← hleft, since]
        exact (hlog.filter _).drop
      have hhead := (List.pairwise_cons.mp hsorted).1
      by_cases hab : key a = key b
      · right
        refine ⟨?_, a, rfl, ⟨b, rfl, hab⟩, ?_⟩
        · rw [List.countP_cons_of_pos (by exact decide_eq_true (hab ▸ Int.lt_succ (key a)))]
          omega
        · rw [List.filter_eq_nil_iff]
          refine forall₂_congr fun c hc => ?_
          have hle := hafter c hc
          simp only [decide_eq_true_eq, not_lt]
          omega
      · left
        have hbefore : ∀ c ∈ b :: left, key a < key c := by
          have hb := hafter b List.mem_cons_self
          intro c hc
          rcases List.mem_cons.mp hc with rfl | hc
          · omega
          · have hc := hhead c hc
            omega
        refine ⟨?_, ?_, ?_⟩
        · rw [List.countP_eq_zero.mpr]
          · rfl
          · intro c hc
            simpa [Int.lt_add_one_iff] using hbefore c hc
        · rw [List.filter_eq_self]
          intro c hc
          simpa using hbefore c hc
        · simpa using hab

/-- Nothing is left out exactly when the cuts respect the keys. -/
theorem complete_replay_iff (hlog : log.Pairwise (key · ≤ key ·)) (p : ℤ) (ks : List ℕ) :
    Complete (start key log p) (replay key log p ks) ↔ Whole key (since key log p) ks := by
  induction ks generalizing p with
  | nil => exact ⟨fun _ => trivial, fun _ i hi => nomatch hi⟩
  | cons k ks ih =>
      rw [replay, complete_append (le_start_resume hlog p k) fun i hi => le_of_mem_replay hlog hi,
        ih, replay_eq_nil_iff, Whole]
      rcases cut_cases hlog (k := k) rfl rfl with ⟨hstart, hsince, hbetween⟩ |
        ⟨hstart, a, ha, ⟨b, hb, hab⟩, hsince⟩
      · rw [hsince]
        refine and_congr_left fun _ => iff_of_true (.inr hstart) fun _ a ha b hb hab => ?_
        exact absurd hab (hbetween a ha b hb)
      · constructor
        · rintro ⟨(hzero | hnone) | hnext, hrest⟩
          · refine ⟨?_, whole_of_zero _ hzero⟩
            rintro ⟨x, hx, hpos⟩
            exact absurd (hzero x hx) (by omega)
          · refine ⟨fun _ a' ha' b' _ _ => ?_, whole_of_same (hsince.mp hnone) ks⟩
            rw [Option.mem_unique ha' ha]
            exact hsince.mp hnone
          · exact absurd hnext hstart
        · rintro ⟨hcut, hrest⟩
          by_cases hzero : ∀ x ∈ ks, x = 0
          · exact ⟨.inl (.inl hzero), whole_of_zero _ hzero⟩
          · obtain ⟨x, hx, hne⟩ : ∃ x ∈ ks, x ≠ 0 := by simpa using hzero
            have hnone := hsince.mpr (hcut ⟨x, hx, by omega⟩ a ha b hb hab)
            refine ⟨.inl (.inr hnone), ?_⟩
            rw [hnone]
            exact whole_of_same (p := 0) (List.forall_mem_nil _) ks

end Start

end LogReplay
