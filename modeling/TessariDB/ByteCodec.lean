import Mathlib.Data.List.Forall2

/-!
# Byte Writers and Byte Readers

A small theory of hand-written binary formats, for any program that builds byte strings
with a sequence of fallible writes and takes them apart with a sequence of fallible reads.

A writer's outcome is a `Put`: the bytes it produced, or the error that stopped it; `++`
runs one writer after another. A reader is a `Get`: a function of the unread bytes that
either fails or returns a result and what it left. Four relations carry every proof about
a format:

* `Get.Reads g b a` — on `b` followed by anything, `g` returns `a` and stops exactly at
  the end of `b`;
* `Get.Inverts g p a` — `g` reads as `a` whatever the writer `p` produced;
* `Get.Consumes g R` — conversely, whatever `g` accepts stands in the relation `R` to what
  it makes of it; `Get.Spells g put`, that it is what `put` writes for the result;
* `Local g` — a success of `g` depends on the bytes it consumed and on nothing after them.

`Local` is a class, so that the locality of a reader built from local parts is found by
instance search.

## Main results

* `Get.Reads.refused_of_prefix`: a local reader refuses every strict prefix of what it
  reads.
* `Get.Reads.inj`: what a reader consumes from a stream is unique.
* `Get.Inverts.bind`, `Get.Inverts.repeatN`: inversion is composed field by field, and
  lifted to counted repetition; `Get.InvertsBelow` is the same for a reader whose fuel
  bounds what it can read.
* `Get.Consumes.bind`, `Get.Consumes.repeatN`: what a composite reader accepts.
* `Get.Agree.bind`: two readers that agree on short inputs stay equal under sequencing,
  which is how a fuel argument is shown not to matter.
-/

namespace ByteCodec

/-- A byte string. -/
abbrev Bytes := List UInt8

/-- In lists related element by element, every element on the right has its partner. -/
theorem exists_of_mem_forall₂ {α β : Type} {R : α → β → Prop} {as : List α} {bs : List β}
    (h : List.Forall₂ R as bs) {b : β} (hb : b ∈ bs) : ∃ a ∈ as, R a b := by
  induction h with
  | nil => exact nomatch hb
  | cons hab _ ih =>
      rcases List.mem_cons.mp hb with rfl | hb
      · exact ⟨_, List.mem_cons_self, hab⟩
      · obtain ⟨a, ha, hR⟩ := ih hb
        exact ⟨a, List.mem_cons_of_mem _ ha, hR⟩

/-! ### Writers -/

/-- What a writer produced: its bytes, or the error that stopped it. -/
abbrev Put (ε : Type) := Except ε Bytes

namespace Put

variable {ε : Type}

/-- Run one writer and then another; the first error wins. -/
protected def append (p q : Put ε) : Put ε :=
  match p with
  | .error e => .error e
  | .ok b =>
      match q with
      | .error e => .error e
      | .ok c => .ok (b ++ c)

instance : Append (Put ε) := ⟨Put.append⟩

/-- Two writers in sequence succeed exactly when both do. -/
theorem append_eq_ok {p q : Put ε} {b : Bytes} :
    p ++ q = .ok b ↔ ∃ b₁ b₂, p = .ok b₁ ∧ q = .ok b₂ ∧ b = b₁ ++ b₂ := by
  change Put.append p q = .ok b ↔ _
  rcases p with e | b₁ <;> rcases q with e' | b₂ <;>
    simp [Put.append, eq_comm]

@[simp] theorem append_ok_nil (p : Put ε) : p ++ (.ok [] : Put ε) = p := by
  rcases p with e | b
  · rfl
  · exact congrArg Except.ok (List.append_nil b)

/-- Sequencing writers is associative. -/
theorem append_assoc (p q r : Put ε) : p ++ q ++ r = p ++ (q ++ r) := by
  rcases p with e | b₁
  · rfl
  rcases q with e | b₂
  · rfl
  rcases r with e | b₃
  · rfl
  exact congrArg Except.ok (List.append_assoc b₁ b₂ b₃)

/-- Run the writers of a list in order. -/
def concat : List (Put ε) → Put ε
  | [] => .ok []
  | p :: ps => p ++ concat ps

@[simp] theorem concat_nil : concat ([] : List (Put ε)) = .ok [] := rfl

@[simp] theorem concat_cons (p : Put ε) (ps : List (Put ε)) :
    concat (p :: ps) = p ++ concat ps := rfl

/-- A list of writers succeeds exactly when each of them does. -/
theorem concat_eq_ok {ps : List (Put ε)} {b : Bytes} :
    concat ps = .ok b ↔ ∃ bs, List.Forall₂ (fun p c => p = .ok c) ps bs ∧ b = bs.flatten := by
  induction ps generalizing b with
  | nil =>
      constructor
      · intro h
        exact ⟨[], .nil, (Except.ok.inj h).symm⟩
      · rintro ⟨bs, hbs, rfl⟩
        cases hbs
        rfl
  | cons p ps ih =>
      rw [concat_cons, append_eq_ok]
      constructor
      · rintro ⟨b₁, b₂, hp, hps, rfl⟩
        obtain ⟨bs, hbs, rfl⟩ := ih.mp hps
        exact ⟨b₁ :: bs, .cons hp hbs, rfl⟩
      · rintro ⟨bs, hbs, rfl⟩
        cases hbs with
        | cons hp hbs => exact ⟨_, _, hp, ih.mpr ⟨_, hbs, rfl⟩, rfl⟩

/-- A list of writers succeeds as soon as each of them does. -/
theorem exists_concat_eq_ok {l : List (Put ε)} (h : ∀ p ∈ l, ∃ b, p = .ok b) :
    ∃ b, concat l = .ok b := by
  induction l with
  | nil => exact ⟨[], rfl⟩
  | cons p ps ih =>
      obtain ⟨b₁, hp⟩ := h p List.mem_cons_self
      obtain ⟨b₂, hps⟩ := ih fun q hq => h q (List.mem_cons_of_mem _ hq)
      exact ⟨b₁ ++ b₂, append_eq_ok.mpr ⟨b₁, b₂, hp, hps, rfl⟩⟩

/-- The writer writes where `P` holds, and elsewhere it fails with one of the errors. -/
def Accepts (errors : ε → Prop) (p : Put ε) (P : Prop) : Prop :=
  (P ∧ ∃ b, p = .ok b) ∨ (¬ P ∧ ∃ e, p = .error e ∧ errors e)

namespace Accepts

variable {errors : ε → Prop} {p q : Put ε} {P Q : Prop}

theorem written (b : Bytes) : Accepts errors (.ok b) True :=
  .inl ⟨trivial, b, rfl⟩

theorem congr (h : Accepts errors p P) (hPQ : P ↔ Q) : Accepts errors p Q :=
  propext hPQ ▸ h

theorem eq_ok_iff (h : Accepts errors p P) : (∃ b, p = .ok b) ↔ P := by
  constructor
  · rintro ⟨b, hb⟩
    rcases h with ⟨hP, -⟩ | ⟨-, e, he, -⟩
    · exact hP
    · cases hb.symm.trans he
  · intro hP
    rcases h with ⟨-, hb⟩ | ⟨hnot, -⟩
    · exact hb
    · exact absurd hP hnot

/-- Writers in sequence accept what both of them do. -/
theorem append (hp : Accepts errors p P) (hq : Accepts errors q Q) :
    Accepts errors (p ++ q) (P ∧ Q) := by
  rcases hp with ⟨hP, b, rfl⟩ | ⟨hP, e, rfl, he⟩
  · rcases hq with ⟨hQ, c, rfl⟩ | ⟨hQ, e, rfl, he⟩
    · exact .inl ⟨⟨hP, hQ⟩, b ++ c, rfl⟩
    · exact .inr ⟨fun h => hQ h.2, e, rfl, he⟩
  · exact .inr ⟨fun h => hP h.1, e, rfl, he⟩

/-- The writers of a list accept what each of them does. -/
theorem concat {α : Type} {f : α → Put ε} {R : α → Prop} {l : List α}
    (h : ∀ a ∈ l, Accepts errors (f a) (R a)) :
    Accepts errors (Put.concat (l.map f)) (∀ a ∈ l, R a) := by
  induction l with
  | nil => exact (written []).congr (by simp)
  | cons a l ih =>
      rw [List.forall_mem_cons] at h
      exact (h.1.append (ih h.2)).congr List.forall_mem_cons.symm

end Accepts

end Put

/-! ### Readers -/

/-- A reader: from the unread bytes, a result with what is left of them, or an error. -/
def Get (ε α : Type) := Bytes → Except ε (α × Bytes)

namespace Get

variable {ε ε' α β : Type}

/-- Return a result and read nothing. -/
protected def pure (a : α) : Get ε α := fun s => .ok (a, s)

/-- Read, then go on with what was read. -/
protected def bind (g : Get ε α) (f : α → Get ε β) : Get ε β := fun s =>
  match g s with
  | .error e => .error e
  | .ok (a, s') => f a s'

instance : Monad (Get ε) where
  pure := Get.pure
  bind := Get.bind

/-- Stop with an error. -/
def fail (e : ε) : Get ε α := fun _ => .error e

/-- A computation that reads nothing but may fail. -/
def ofExcept (x : Except ε α) : Get ε α := fun s => x.map fun a => (a, s)

/-- Whether nothing is left. -/
def exhausted : Get ε Bool := fun s => .ok (s.isEmpty, s)

/-- Read under another error type. -/
def mapError (t : ε → ε') (g : Get ε α) : Get ε' α := fun s => (g s).mapError t

/-- Read `n` times in a row. -/
def repeatN : ℕ → Get ε α → Get ε (List α)
  | 0, _ => pure []
  | n + 1, g => do
      let a ← g
      let as ← repeatN n g
      pure (a :: as)

@[simp] theorem pure_apply (a : α) (s : Bytes) : (pure a : Get ε α) s = .ok (a, s) := rfl

@[simp] theorem fail_apply (e : ε) (s : Bytes) : (fail e : Get ε α) s = .error e := rfl

theorem bind_of_ok {g : Get ε α} {s s' : Bytes} {a : α} (h : g s = .ok (a, s'))
    (f : α → Get ε β) : (g >>= f) s = f a s' := by
  change Get.bind g f s = _
  simp only [Get.bind, h]

theorem bind_of_error {g : Get ε α} {s : Bytes} {e : ε} (h : g s = .error e)
    (f : α → Get ε β) : (g >>= f) s = .error e := by
  change Get.bind g f s = _
  simp only [Get.bind, h]

/-- A sequence succeeds exactly when both of its parts do. -/
theorem bind_eq_ok {g : Get ε α} {f : α → Get ε β} {s s' : Bytes} {b : β} :
    (g >>= f) s = .ok (b, s') ↔ ∃ a s₁, g s = .ok (a, s₁) ∧ f a s₁ = .ok (b, s') := by
  constructor
  · intro h
    rcases hg : g s with e | ⟨a, s₁⟩
    · rw [bind_of_error hg] at h
      cases h
    · rw [bind_of_ok hg] at h
      exact ⟨a, s₁, rfl, h⟩
  · rintro ⟨a, s₁, hg, hf⟩
    rw [bind_of_ok hg, hf]

theorem exhausted_bind (f : Bool → Get ε β) (s : Bytes) :
    (exhausted >>= f) s = f s.isEmpty s := rfl

theorem pure_eq_ok {a b : α} {s s' : Bytes} :
    (pure a : Get ε α) s = .ok (b, s') ↔ a = b ∧ s = s' := by
  simp

theorem ofExcept_eq_ok {x : Except ε α} {a : α} {s s' : Bytes} :
    ofExcept x s = .ok (a, s') ↔ x = .ok a ∧ s = s' := by
  rcases x with e | b <;> simp [ofExcept, Except.map]

theorem mapError_eq_ok {t : ε → ε'} {g : Get ε α} {a : α} {s s' : Bytes} :
    mapError t g s = .ok (a, s') ↔ g s = .ok (a, s') := by
  simp only [mapError]
  rcases g s with e | ⟨b, s₁⟩ <;> simp [Except.mapError]

/-! ### What a reader reads -/

/-- On `b` followed by anything, `g` returns `a` and stops at the end of `b`. -/
def Reads (g : Get ε α) (b : Bytes) (a : α) : Prop :=
  ∀ s, g (b ++ s) = .ok (a, s)

theorem reads_pure (a : α) : Reads (pure a : Get ε α) [] a := fun _ => rfl

theorem Reads.bind {g : Get ε α} {f : α → Get ε β} {b c : Bytes} {a : α} {x : β}
    (hg : g.Reads b a) (hf : (f a).Reads c x) : (g >>= f).Reads (b ++ c) x := by
  intro s
  rw [List.append_assoc, bind_of_ok (hg (c ++ s))]
  exact hf s

theorem Reads.map {g : Get ε α} {b : Bytes} {a : α} (hg : g.Reads b a) (f : α → β) :
    (g >>= fun x => (pure (f x) : Get ε β)).Reads b (f a) := by
  have h := hg.bind (f := fun x => (pure (f x) : Get ε β)) (reads_pure (f a))
  rwa [List.append_nil] at h

/-- A reader that reads `b` reads it also when nothing follows. -/
theorem Reads.eq_ok {g : Get ε α} {b : Bytes} {a : α} (h : g.Reads b a) :
    g b = .ok (a, []) := by
  simpa using h []

theorem reads_ofExcept {x : Except ε α} {a : α} (h : x = .ok a) :
    (ofExcept x).Reads [] a := by
  intro s
  exact ofExcept_eq_ok.mpr ⟨h, rfl⟩

theorem Reads.mapError {g : Get ε α} {b : Bytes} {a : α} (h : g.Reads b a) (t : ε → ε') :
    (g.mapError t).Reads b a :=
  fun s => mapError_eq_ok.mpr (h s)

/-- What a reader consumes from a stream, and what it makes of it, is unique. -/
theorem Reads.inj {g : Get ε α} {b b' s s' : Bytes} {a a' : α} (h : g.Reads b a)
    (h' : g.Reads b' a') (heq : b ++ s = b' ++ s') : a = a' ∧ b = b' ∧ s = s' := by
  have hrun := h s
  rw [heq, h' s'] at hrun
  obtain ⟨rfl, rfl⟩ := Prod.mk.inj (Except.ok.inj hrun)
  exact ⟨rfl, List.append_cancel_right heq, rfl⟩

/-- Reading a list of items one after another. -/
theorem Reads.repeatN {g : Get ε α} {bs : List Bytes} {as : List α}
    (h : List.Forall₂ g.Reads bs as) : (repeatN as.length g).Reads bs.flatten as := by
  induction h with
  | nil => exact reads_pure []
  | cons hg _ ih => exact hg.bind (ih.map _)

end Get

/-! ### Locality -/

/-- A success of a **local** reader depends only on the bytes it consumed. -/
class Local {ε α : Type} (g : Get ε α) : Prop where
  reads_of_ok : ∀ {s s' a}, g s = .ok (a, s') → ∃ b, s = b ++ s' ∧ g.Reads b a

namespace Get

variable {ε ε' α β : Type}

instance (a : α) : Local (pure a : Get ε α) where
  reads_of_ok := by
    intro s s' a' h
    obtain ⟨rfl, rfl⟩ := pure_eq_ok.mp h
    exact ⟨[], rfl, reads_pure a⟩

instance (e : ε) : Local (fail e : Get ε α) where
  reads_of_ok := fun h => nomatch h

instance (x : Except ε α) : Local (ofExcept x) where
  reads_of_ok := by
    intro s s' a h
    obtain ⟨hx, rfl⟩ := ofExcept_eq_ok.mp h
    exact ⟨[], rfl, reads_ofExcept hx⟩

instance (g : Get ε α) (f : α → Get ε β) [Local g] [∀ a, Local (f a)] :
    Local (g >>= f) where
  reads_of_ok := by
    intro s s' b h
    obtain ⟨a, s₁, hg, hf⟩ := bind_eq_ok.mp h
    obtain ⟨b₁, rfl, h₁⟩ := Local.reads_of_ok hg
    obtain ⟨b₂, rfl, h₂⟩ := Local.reads_of_ok hf
    exact ⟨b₁ ++ b₂, (List.append_assoc ..).symm, h₁.bind h₂⟩

instance (p : Prop) [Decidable p] (g h : Get ε α) [Local g] [Local h] :
    Local (if p then g else h) := by
  split <;> infer_instance

instance (t : ε → ε') (g : Get ε α) [Local g] : Local (g.mapError t) where
  reads_of_ok := by
    intro s s' a h
    obtain ⟨b, rfl, hb⟩ := Local.reads_of_ok (mapError_eq_ok.mp h)
    exact ⟨b, rfl, hb.mapError t⟩

instance (n : ℕ) (g : Get ε α) [Local g] : Local (repeatN n g) := by
  induction n with
  | zero => rw [repeatN]; infer_instance
  | succ n ih => rw [repeatN]; infer_instance

/-- A reader never hands back more than it was given. -/
theorem length_le_of_ok {g : Get ε α} [Local g] {s s' : Bytes} {a : α}
    (h : g s = .ok (a, s')) : s'.length ≤ s.length := by
  obtain ⟨b, rfl, -⟩ := Local.reads_of_ok h
  simp

/-- **A strict prefix is refused.** Whatever a local reader reads as a whole, it fails on
every strict prefix of it. -/
theorem Reads.refused_of_prefix {g : Get ε α} [Local g] {p q : Bytes} {a : α}
    (h : g.Reads (p ++ q) a) (hq : q ≠ []) : ∃ e, g p = .error e := by
  rcases hp : g p with e | ⟨a', s'⟩
  · exact ⟨e, rfl⟩
  · exfalso
    obtain ⟨b, rfl, hb⟩ := Local.reads_of_ok hp
    have hrun : b ++ (s' ++ q) = b ++ s' ++ q ++ [] := by simp
    obtain ⟨-, -, hrest⟩ := hb.inj h hrun
    exact hq (List.append_eq_nil_iff.mp hrest).2

/-- **Cutting a format whose tail may be absent.** A reader that reads `b`, stops there if
nothing is left and otherwise goes on, on a prefix of `b` and what comes after it: it fails
inside `b`, stops at its end, and goes on past it. -/
theorem Reads.cut {g : Get ε α} [Local g] {b c p q : Bytes} {a : α} (h : g.Reads b a)
    (hpq : b ++ c = p ++ q) (done : α → β) (more : α → Get ε β) :
    (∃ e, (g >>= fun a => exhausted >>= fun ended =>
      if ended = true then pure (done a) else more a) p = .error e) ∨
    (p = b) ∨
    ∃ p', p' ≠ [] ∧ p = b ++ p' ∧ c = p' ++ q ∧
      (g >>= fun a => exhausted >>= fun ended =>
        if ended = true then pure (done a) else more a) p = more a p' := by
  rcases List.append_eq_append_iff.mp hpq with ⟨p', rfl, hc⟩ | ⟨q', rfl, hq'⟩
  · rcases p' with - | ⟨x, p'⟩
    · exact .inr (.inl (List.append_nil _))
    · refine .inr (.inr ⟨x :: p', List.cons_ne_nil x p', rfl, hc, ?_⟩)
      rw [bind_of_ok (h _)]
      rfl
  · rcases q' with - | ⟨x, q'⟩
    · exact .inr (.inl (List.append_nil _).symm)
    · obtain ⟨e, he⟩ := h.refused_of_prefix (List.cons_ne_nil x q')
      exact .inl ⟨e, bind_of_error he _⟩

/-- The same reader where nothing, or something, is left after `b`. -/
theorem Reads.ended {g : Get ε α} {b : Bytes} {a : α} (h : g.Reads b a) (done : α → β)
    (more : α → Get ε β) :
    (g >>= fun a => exhausted >>= fun ended =>
      if ended = true then pure (done a) else more a) b = .ok (done a, []) := by
  rw [bind_of_ok h.eq_ok]
  rfl

theorem Reads.goes_on {g : Get ε α} {b s : Bytes} {a : α} (h : g.Reads b a) (hs : s ≠ [])
    (done : α → β) (more : α → Get ε β) :
    (g >>= fun a => exhausted >>= fun ended =>
      if ended = true then pure (done a) else more a) (b ++ s) = more a s := by
  rw [bind_of_ok (h s)]
  rcases s with - | ⟨x, s⟩
  · exact absurd rfl hs
  · rfl

/-! ### Undoing a writer -/

/-- Whatever the writer `p` produces, `g` reads as `a`. -/
def Inverts (g : Get ε α) (p : Put ε') (a : α) : Prop :=
  ∀ b, p = .ok b → g.Reads b a

/-- What the writer `p` produces in fewer than `k` bytes, `g` reads as `a`. -/
def InvertsBelow (k : ℕ) (g : Get ε α) (p : Put ε') (a : α) : Prop :=
  ∀ b, p = .ok b → b.length < k → g.Reads b a

theorem Inverts.below {g : Get ε α} {p : Put ε'} {a : α} (h : g.Inverts p a) {k : ℕ} :
    InvertsBelow k g p a :=
  fun b hb _ => h b hb

theorem inverts_of_below {g : Get ε α} {p : Put ε'} {a : α}
    (h : ∀ k, InvertsBelow k g p a) : g.Inverts p a :=
  fun b hb => h _ b hb (Nat.lt_succ_self _)

theorem InvertsBelow.bind {k : ℕ} {g : Get ε α} {f : α → Get ε β} {p q : Put ε'} {a : α}
    {x : β} (hg : InvertsBelow k g p a) (hf : InvertsBelow k (f a) q x) :
    InvertsBelow k (g >>= f) (p ++ q) x := by
  intro b hb hlen
  obtain ⟨b₁, b₂, hp, hq, rfl⟩ := Put.append_eq_ok.mp hb
  rw [List.length_append] at hlen
  exact (hg b₁ hp (by omega)).bind (hf b₂ hq (by omega))

theorem InvertsBelow.map {k : ℕ} {g : Get ε α} {p : Put ε'} {a : α}
    (hg : InvertsBelow k g p a) (f : α → β) :
    InvertsBelow k (g >>= fun x => (pure (f x) : Get ε β)) p (f a) :=
  fun b hb hlen => (hg b hb hlen).map f

/-- Counted repetition undoes writing the items one after another. -/
theorem InvertsBelow.repeatN {γ : Type} {k : ℕ} {g : Get ε α} {put : γ → Put ε'}
    {val : γ → α} {xs : List γ} (h : ∀ x ∈ xs, InvertsBelow k g (put x) (val x)) :
    InvertsBelow k (repeatN xs.length g) (Put.concat (xs.map put)) (xs.map val) := by
  induction xs with
  | nil =>
      intro b hb _
      obtain rfl := Except.ok.inj hb
      exact reads_pure []
  | cons x xs ih =>
      have hxs := ih fun y hy => h y (List.mem_cons_of_mem _ hy)
      exact (h x List.mem_cons_self).bind (hxs.map _)

theorem inverts_nil (a : α) : (pure a : Get ε α).Inverts (.ok [] : Put ε') a := by
  intro b hb
  obtain rfl := Except.ok.inj hb
  exact reads_pure a

theorem Inverts.bind {g : Get ε α} {f : α → Get ε β} {p q : Put ε'} {a : α} {x : β}
    (hg : g.Inverts p a) (hf : (f a).Inverts q x) : (g >>= f).Inverts (p ++ q) x :=
  inverts_of_below fun _ => hg.below.bind hf.below

theorem Inverts.map {g : Get ε α} {p : Put ε'} {a : α} (hg : g.Inverts p a) (f : α → β) :
    (g >>= fun x => (pure (f x) : Get ε β)).Inverts p (f a) :=
  fun b hb => (hg b hb).map f

theorem Inverts.repeatN {γ : Type} {g : Get ε α} {put : γ → Put ε'} {val : γ → α}
    {xs : List γ} (h : ∀ x ∈ xs, g.Inverts (put x) (val x)) :
    (repeatN xs.length g).Inverts (Put.concat (xs.map put)) (xs.map val) :=
  inverts_of_below fun _ => InvertsBelow.repeatN fun x hx => (h x hx).below

/-- What the writer `p` produces in fewer than `k` bytes, `g` reads as something that
satisfies `P`. -/
def Recovers (k : ℕ) (g : Get ε α) (p : Put ε') (P : α → Prop) : Prop :=
  ∀ b, p = .ok b → b.length < k → ∃ a, g.Reads b a ∧ P a

theorem InvertsBelow.recovers {k : ℕ} {g : Get ε α} {p : Put ε'} {a : α} {P : α → Prop}
    (h : InvertsBelow k g p a) (ha : P a) : Recovers k g p P :=
  fun b hb hlen => ⟨a, h b hb hlen, ha⟩

theorem Recovers.bind {k : ℕ} {g : Get ε α} {f : α → Get ε β} {p q : Put ε'} {P : α → Prop}
    {Q : β → Prop} (hg : Recovers k g p P) (hf : ∀ a, P a → Recovers k (f a) q Q) :
    Recovers k (g >>= f) (p ++ q) Q := by
  intro b hb hlen
  obtain ⟨b₁, b₂, hp, hq, rfl⟩ := Put.append_eq_ok.mp hb
  rw [List.length_append] at hlen
  obtain ⟨a, ha, hPa⟩ := hg b₁ hp (by omega)
  obtain ⟨x, hx, hQx⟩ := hf a hPa b₂ hq (by omega)
  exact ⟨x, ha.bind hx, hQx⟩

theorem Recovers.map {k : ℕ} {g : Get ε α} {p : Put ε'} {P : α → Prop} {Q : β → Prop}
    (hg : Recovers k g p P) (f : α → β) (h : ∀ a, P a → Q (f a)) :
    Recovers k (g >>= fun x => (pure (f x) : Get ε β)) p Q := by
  intro b hb hlen
  obtain ⟨a, ha, hPa⟩ := hg b hb hlen
  exact ⟨f a, ha.map f, h a hPa⟩

theorem Recovers.repeatN {γ : Type} {k : ℕ} {g : Get ε α} {put : γ → Put ε'}
    {P : γ → α → Prop} {xs : List γ} (h : ∀ x ∈ xs, Recovers k g (put x) (P x)) :
    Recovers k (repeatN xs.length g) (Put.concat (xs.map put)) (List.Forall₂ P xs) := by
  induction xs with
  | nil => exact (inverts_nil []).below.recovers .nil
  | cons x xs ih =>
      have hxs := ih fun y hy => h y (List.mem_cons_of_mem _ hy)
      exact (h x List.mem_cons_self).bind fun a ha => hxs.map _ fun _ has => .cons ha has

/-! ### What a reader accepts -/

/-- Whenever `g` succeeds, `R` holds of the bytes it consumed and its result. -/
def Consumes (g : Get ε α) (R : Bytes → α → Prop) : Prop :=
  ∀ s s' a, g s = .ok (a, s') → ∃ b, R b a ∧ s = b ++ s'

/-- `g` accepts nothing but what `put` writes for its result. -/
def Spells (g : Get ε α) (put : α → Put ε') : Prop :=
  g.Consumes fun b a => put a = .ok b

theorem consumes_pure {R : Bytes → α → Prop} {a : α} (h : R [] a) :
    (pure a : Get ε α).Consumes R := by
  intro s s' a' hrun
  obtain ⟨rfl, rfl⟩ := pure_eq_ok.mp hrun
  exact ⟨[], h, rfl⟩

theorem consumes_fail {R : Bytes → α → Prop} (e : ε) : (fail e : Get ε α).Consumes R :=
  fun _ _ _ h => nomatch h

theorem Consumes.bind {g : Get ε α} {f : α → Get ε β} {R : Bytes → α → Prop}
    {S : Bytes → β → Prop} (hg : g.Consumes R)
    (hf : ∀ b a, R b a → (f a).Consumes fun c x => S (b ++ c) x) :
    (g >>= f).Consumes S := by
  intro s s' x h
  obtain ⟨a, s₁, hga, hfx⟩ := bind_eq_ok.mp h
  obtain ⟨b, hb, rfl⟩ := hg _ _ _ hga
  obtain ⟨c, hc, rfl⟩ := hf b a hb _ _ _ hfx
  exact ⟨b ++ c, hc, (List.append_assoc ..).symm⟩

/-- What a reader consumes may be settled knowing that it succeeded. -/
theorem consumes_of_ok {g : Get ε α} {R : Bytes → α → Prop}
    (h : ∀ s s' a, g s = .ok (a, s') → g.Consumes R) : g.Consumes R :=
  fun s s' a hrun => h s s' a hrun s s' a hrun

theorem Consumes.mono {g : Get ε α} {R S : Bytes → α → Prop} (hg : g.Consumes R)
    (h : ∀ b a, R b a → S b a) : g.Consumes S := by
  intro s s' a hrun
  obtain ⟨b, hb, rfl⟩ := hg _ _ _ hrun
  exact ⟨b, h b a hb, rfl⟩

theorem Consumes.map {g : Get ε α} {R : Bytes → α → Prop} {S : Bytes → β → Prop}
    (hg : g.Consumes R) (f : α → β) (h : ∀ b a, R b a → S b (f a)) :
    (g >>= fun a => (pure (f a) : Get ε β)).Consumes S :=
  hg.bind fun b a hb => consumes_pure (by rw [List.append_nil]; exact h b a hb)

/-- A local reader reads what it consumed. -/
theorem Consumes.reads {g : Get ε α} [Local g] {R : Bytes → α → Prop} (hg : g.Consumes R) :
    g.Consumes fun b a => g.Reads b a ∧ R b a := by
  intro s s' a h
  obtain ⟨b, hb, rfl⟩ := hg _ _ _ h
  obtain ⟨b', heq, hreads⟩ := Local.reads_of_ok h
  obtain rfl := List.append_cancel_right heq
  exact ⟨b, ⟨hreads, hb⟩, rfl⟩

/-- Counted repetition consumes the declared number of items, one after another. -/
theorem Consumes.repeatN {g : Get ε α} {R : Bytes → α → Prop} (hg : g.Consumes R) (n : ℕ) :
    (repeatN n g).Consumes fun b as =>
      as.length = n ∧ ∃ bs, List.Forall₂ R bs as ∧ b = bs.flatten := by
  induction n with
  | zero => exact consumes_pure ⟨rfl, [], .nil, rfl⟩
  | succ n ih =>
      refine hg.bind fun b a hb => ih.map _ ?_
      rintro c as ⟨hlen, bs, hbs, rfl⟩
      exact ⟨by simp [hlen], b :: bs, .cons hb hbs, rfl⟩

/-! ### Readers that agree on short inputs -/

/-- `g` and `h` do the same on every input shorter than `k`. -/
def Agree (k : ℕ) (g h : Get ε α) : Prop :=
  ∀ s, s.length < k → g s = h s

theorem Agree.refl (k : ℕ) (g : Get ε α) : Agree k g g := fun _ _ => rfl

theorem Agree.bind {k : ℕ} {g g' : Get ε α} {f f' : α → Get ε β} [Local g]
    (hg : Agree k g g') (hf : ∀ a, Agree k (f a) (f' a)) :
    Agree k (g >>= f) (g' >>= f') := by
  intro s hs
  rcases hrun : g s with e | ⟨a, s₁⟩
  · rw [bind_of_error hrun, bind_of_error ((hg s hs).symm.trans hrun)]
  · rw [bind_of_ok hrun, bind_of_ok ((hg s hs).symm.trans hrun)]
    exact hf a s₁ (Nat.lt_of_le_of_lt (length_le_of_ok hrun) hs)

theorem Agree.ite {k : ℕ} {p : Prop} [Decidable p] {g g' h h' : Get ε α}
    (hg : Agree k g g') (hh : Agree k h h') :
    Agree k (if p then g else h) (if p then g' else h') := by
  split
  · exact hg
  · exact hh

theorem Agree.repeatN {k : ℕ} {g g' : Get ε α} [Local g] (hg : Agree k g g') (n : ℕ) :
    Agree k (repeatN n g) (repeatN n g') := by
  induction n with
  | zero => exact .refl k _
  | succ n ih => exact hg.bind fun _ => ih.bind fun _ => .refl k _

end Get

end ByteCodec
