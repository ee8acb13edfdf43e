import TessariDB.Interleaving

/-!
# Triples for a Program Under Interference

One program on a world that something else interferes with, and may raise. An `Assertion` is a
property of the world that no interference takes away and that implies the invariant of the whole
run. `Triple P x Q` says that `x`, started where `P` holds, keeps the invariant at every moment
and ends in `Q` of its result unless it raises.

## Main results

* `Triple.bind`, `Triple.ask`, `Triple.pure`, `Triple.throw`: the rules, one for each way a
  program is made.
* `Triple.reached`: what a triple says of every configuration reached.
* `Triple.returned`: what it says where the program has returned.
-/

namespace Interleaving

variable {Q : Type} {A : Q → Type} {R S ε : Type} {W : Type}

/-- A property that survives interference and implies the invariant. -/
structure Assertion (interferes : W → W → Prop) (I : W → Prop) where
  holds : W → Prop
  stable : ∀ {w w'}, holds w → interferes w w' → holds w'
  safe : ∀ {w}, holds w → I w

section Keeping

variable (answers : W → (q : Q) → A q → W → Prop) (interferes : W → W → Prop) (I : W → Prop)

/-- The invariant is kept from here on, and the result is as `post` says. -/
def Keeps (post : R → W → Prop) : Program Q A R → W → Prop
  | .result r, w =>
      ∀ w', Relation.ReflTransGen interferes w w' → I w' ∧ post r w'
  | .ask q next, w =>
      ∀ w', Relation.ReflTransGen interferes w w' →
        I w' ∧ ∀ a w'', answers w' q a w'' → Keeps post (next a) w''

variable {answers interferes I}

theorem Keeps.safe {post : R → W → Prop} {program : Program Q A R} {w : W}
    (h : Keeps answers interferes I post program w) : I w := by
  cases program with
  | result r => exact (h w .refl).1
  | ask q next => exact (h w .refl).1

theorem Keeps.interfered {post : R → W → Prop} {program : Program Q A R} {w w' : W}
    (h : Keeps answers interferes I post program w) (hw : interferes w w') :
    Keeps answers interferes I post program w' := by
  cases program with
  | result r => exact fun w'' hw'' => h w'' (.head hw hw'')
  | ask q next => exact fun w'' hw'' => h w'' (.head hw hw'')

/-- One program after another; an error goes on to the end as it is. -/
theorem Keeps.bind {post : Except ε S → W → Prop} (hpost : ∀ e w, post (.error e) w)
    {program : Program Q A (Except ε R)} {f : R → ExceptT ε (Program Q A) S} {w : W}
    (h : Keeps answers interferes I
      (fun r w => ∀ a, r = .ok a → Keeps answers interferes I post (f a).run w) program w) :
    Keeps answers interferes I post (program.bind (ExceptT.bindCont f)) w := by
  induction program generalizing w with
  | result r =>
      cases r with
      | error e => exact fun w' hw' => ⟨(h w' hw').1, hpost e w'⟩
      | ok a => exact (h w .refl).2 a rfl
  | ask q next ih =>
      intro w' hw'
      obtain ⟨hI, hnext⟩ := h w' hw'
      exact ⟨hI, fun a w'' ha => ih a (hnext a w'' ha)⟩

theorem Keeps.mono {post post' : R → W → Prop} {program : Program Q A R} {w : W}
    (h : Keeps answers interferes I post program w) (hpost : ∀ r w, post r w → post' r w) :
    Keeps answers interferes I post' program w := by
  induction program generalizing w with
  | result r => exact fun w' hw' => (h w' hw').imp_right (hpost _ _)
  | ask q next ih =>
      intro w' hw'
      obtain ⟨hI, hnext⟩ := h w' hw'
      exact ⟨hI, fun a w'' ha => ih a (hnext a w'' ha)⟩

/-- What is left of the program keeps what the program kept, in every configuration reached. -/
theorem Keeps.reached {post : R → W → Prop} {program : Program Q A R} {w : W}
    (h : Keeps answers interferes I post program w) {c : Configuration W Unit Q A R}
    (hc : Reached (fun _ => answers) interferes ⟨w, fun _ => program⟩ c) :
    Keeps answers interferes I post (c.threads ()) c.world := by
  have inv : Invariant (fun _ : Unit => answers) interferes (fun _ => True)
      (fun _ w program => Keeps answers interferes I post program w) := by
    refine ⟨fun _ hkeeps ha => ⟨trivial, ?_⟩, fun _ _ _ hne => absurd rfl hne,
      fun _ hw => ⟨trivial, fun _ _ hkeeps => hkeeps.interfered hw⟩⟩
    exact (hkeeps _ .refl).2 _ _ ha
  exact (inv.reached hc trivial fun _ => h).2 ()

end Keeping

namespace Assertion

variable {interferes : W → W → Prop} {I : W → Prop}

instance : CoeFun (Assertion interferes I) fun _ => W → Prop := ⟨holds⟩

theorem stays (P : Assertion interferes I) {w w' : W} (h : P w)
    (hw : Relation.ReflTransGen interferes w w') : P w' := by
  induction hw with
  | refl => exact h
  | tail _ hstep ih => exact P.stable ih hstep

end Assertion

section Rules

variable (answers : W → (q : Q) → A q → W → Prop) {interferes : W → W → Prop} {I : W → Prop}

/-- Where `P` holds, `x` keeps the invariant, and its result is as `post` says. -/
def Triple (P : Assertion interferes I) (x : ExceptT ε (Program Q A) R)
    (post : R → Assertion interferes I) : Prop :=
  ∀ w, P w → Keeps answers interferes I (fun r w => ∀ a, r = .ok a → post a w) x.run w

variable {answers} {P P' : Assertion interferes I} {post : R → Assertion interferes I}

theorem Triple.pure {a : R} (h : ∀ w, P w → post a w) :
    Triple answers P (Pure.pure a : ExceptT ε (Program Q A) R) post := by
  intro w hw w' hw'
  have hstays := P.stays hw hw'
  refine ⟨P.safe hstays, fun b hb => ?_⟩
  cases hb
  exact h w' hstays

theorem Triple.throw {e : ε} :
    Triple answers P (throw e : ExceptT ε (Program Q A) R) post := by
  intro w hw w' hw'
  exact ⟨P.safe (P.stays hw hw'), nofun⟩

/-- A result or an error that takes no question. -/
theorem Triple.ofExcept {x : Except ε R} (h : ∀ a, x = .ok a → ∀ w, P w → post a w) :
    Triple answers P (ExceptT.mk (Pure.pure x) : ExceptT ε (Program Q A) R) post := by
  intro w hw w' hw'
  have hstays := P.stays hw hw'
  exact ⟨P.safe hstays, fun a ha => h a ha w' hstays⟩

/-- A question, whatever it is answered. -/
theorem Triple.ask {q : Q} {post : A q → Assertion interferes I}
    (h : ∀ w a w', P w → answers w q a w' → post a w') :
    Triple answers P (ExceptT.lift (Program.once q) : ExceptT ε (Program Q A) (A q)) post := by
  intro w hw w' hw'
  have hstays := P.stays hw hw'
  refine ⟨P.safe hstays, fun a w'' ha w₃ hw₃ => ?_⟩
  have hpost := (post a).stays (h w' a w'' hstays ha) hw₃
  refine ⟨(post a).safe hpost, fun b hb => ?_⟩
  cases hb
  exact hpost

theorem Triple.bind (between : R → Assertion interferes I) {post : S → Assertion interferes I}
    {x : ExceptT ε (Program Q A) R} {f : R → ExceptT ε (Program Q A) S}
    (hx : Triple answers P x between) (hf : ∀ a, Triple answers (between a) (f a) post) :
    Triple answers P (x >>= f) post := by
  intro w hw
  refine Keeps.bind (fun e w => nofun) ((hx w hw).mono fun r w' hr a ha => ?_)
  exact hf a w' (hr a ha)

/-- **What a triple says of every moment.** -/
theorem Triple.reached {x : ExceptT ε (Program Q A) R} (h : Triple answers P x post) {w : W}
    (hw : P w) {c : Configuration W Unit Q A (Except ε R)}
    (hc : Reached (fun _ => answers) interferes ⟨w, fun _ => x.run⟩ c) : I c.world :=
  ((h w hw).reached hc).safe

/-- **What a triple says where the program has returned.** -/
theorem Triple.returned {x : ExceptT ε (Program Q A) R} (h : Triple answers P x post) {w : W}
    (hw : P w) {c : Configuration W Unit Q A (Except ε R)}
    (hc : Reached (fun _ => answers) interferes ⟨w, fun _ => x.run⟩ c) {a : R}
    (hreturned : c.threads () = .result (.ok a)) : post a c.world := by
  have hkeeps := (h w hw).reached hc
  rw [hreturned] at hkeeps
  exact (hkeeps _ .refl).2 a rfl

end Rules

end Interleaving
