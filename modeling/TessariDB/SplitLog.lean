import Mathlib.Data.List.Basic
import Mathlib.Logic.Function.Basic

/-!
# Reading a Log of Many Parts

A log kept in parts, each an append-only list of its own, and a feed that reads all of them at
once. How far a feed has read is a `Place`, one count for each part. The feed takes the next entry
of any part it likes, in any interleaving; it hands on what is seen of the entry, or skips it where
nothing is. Now and then it may say how far it has read. Everything it hands on carries the place
right after it.

Two feeds from the same place may interleave the parts differently, so what a feed hands on is no
function of where it starts. A feed that goes on from the place of the last item handed on is still
the rest of *one* feed, wherever the first one was broken off.

## Main results

* `Feed.cut`: a feed broken off after any item stands at that item's place.
* `Feed.append`: going on from there is one feed.
* `Feed.entries_eq`: of each part a feed hands on what is seen of a stretch, in order.
-/

namespace SplitLog

variable {ι α β : Type}

/-- How far each part has been read. -/
abbrev Place (ι : Type) := ι → ℕ

/-- What a feed hands on, with the place after it. -/
inductive Item (ι β : Type) where
  | entry (part : ι) (b : β) (place : Place ι)
  | reached (place : Place ι)

namespace Item

def place : Item ι β → Place ι
  | .entry _ _ place => place
  | .reached place => place

/-- The entry, if it is one of this part. -/
def entryOf [DecidableEq ι] (i : ι) : Item ι β → Option β
  | .entry part b _ => if part = i then some b else none
  | .reached _ => none

theorem entryOf_self [DecidableEq ι] (i : ι) (b : β) (place : Place ι) :
    entryOf i (.entry i b place) = some b := if_pos rfl

theorem entryOf_of_ne [DecidableEq ι] {i j : ι} (h : i ≠ j) (b : β) (place : Place ι) :
    entryOf i (.entry j b place) = none := if_neg (Ne.symm h)

end Item

/-- The place of the last item, or the one to start from. -/
def lastPlace (p : Place ι) (items : List (Item ι β)) : Place ι :=
  items.getLast?.elim p Item.place

@[simp] theorem lastPlace_nil (p : Place ι) : lastPlace p ([] : List (Item ι β)) = p := rfl

theorem lastPlace_cons (p : Place ι) (x : Item ι β) (items : List (Item ι β)) :
    lastPlace p (x :: items) = lastPlace x.place items := by
  rw [lastPlace, lastPlace, List.getLast?_cons]
  cases items.getLast? <;> rfl

variable [DecidableEq ι]

/-- One entry further in one part. -/
def advance (p : Place ι) (i : ι) : Place ι := Function.update p i (p i + 1)

theorem advance_self (p : Place ι) (i : ι) : advance p i i = p i + 1 := Function.update_self ..

theorem advance_of_ne (p : Place ι) {i j : ι} (h : j ≠ i) : advance p i j = p j :=
  Function.update_of_ne h ..

/-- A feed over the parts, from one place to another. -/
inductive Feed (parts : ι → List α) (seen : α → Option β) :
    Place ι → List (Item ι β) → Place ι → Prop
  | here (p : Place ι) : Feed parts seen p [] p
  | hands {p q : Place ι} {i : ι} {a : α} {b : β} {items : List (Item ι β)}
      (hnext : (parts i)[p i]? = some a) (hseen : seen a = some b)
      (hrest : Feed parts seen (advance p i) items q) :
      Feed parts seen p (.entry i b (advance p i) :: items) q
  | skips {p q : Place ι} {i : ι} {a : α} {items : List (Item ι β)}
      (hnext : (parts i)[p i]? = some a) (hseen : seen a = none)
      (hrest : Feed parts seen (advance p i) items q) : Feed parts seen p items q
  | tells {p q : Place ι} {items : List (Item ι β)} (hrest : Feed parts seen p items q) :
      Feed parts seen p (.reached p :: items) q

namespace Feed

variable {parts : ι → List α} {seen : α → Option β} {p q r : Place ι} {items more : List (Item ι β)}

/-- **Going on is one feed.** -/
theorem append (h : Feed parts seen p items q) (hmore : Feed parts seen q more r) :
    Feed parts seen p (items ++ more) r := by
  induction h with
  | here p => exact hmore
  | hands hnext hseen _ ih => exact .hands hnext hseen (ih hmore)
  | skips hnext hseen _ ih => exact .skips hnext hseen (ih hmore)
  | tells _ ih => exact .tells (ih hmore)

/-- **A feed broken off after any item** stands at that item's place, and goes on from there. What
it had skipped since it will skip again. -/
theorem cut (h : Feed parts seen p (items ++ more) r) :
    Feed parts seen p items (lastPlace p items) ∧
      Feed parts seen (lastPlace p items) more r := by
  generalize hall : items ++ more = all at h
  induction h generalizing items with
  | here p =>
      obtain ⟨rfl, rfl⟩ := List.append_eq_nil_iff.mp hall
      exact ⟨.here p, .here p⟩
  | hands hnext hseen hrest ih =>
      cases items with
      | nil =>
          obtain rfl : more = _ := hall
          exact ⟨.here _, .hands hnext hseen hrest⟩
      | cons x items =>
          obtain ⟨rfl, hitems⟩ := List.cons.inj hall
          obtain ⟨hbefore, hafter⟩ := ih hitems
          rw [lastPlace_cons]
          exact ⟨.hands hnext hseen hbefore, hafter⟩
  | skips hnext hseen hrest ih =>
      obtain ⟨hbefore, hafter⟩ := ih hall
      cases items with
      | nil => exact ⟨.here _, .skips hnext hseen hafter⟩
      | cons x items =>
          rw [lastPlace_cons] at hbefore hafter ⊢
          exact ⟨.skips hnext hseen hbefore, hafter⟩
  | tells hrest ih =>
      cases items with
      | nil =>
          obtain rfl : more = _ := hall
          exact ⟨.here _, .tells hrest⟩
      | cons x items =>
          obtain ⟨rfl, hitems⟩ := List.cons.inj hall
          obtain ⟨hbefore, hafter⟩ := ih hitems
          rw [lastPlace_cons]
          exact ⟨.tells hbefore, hafter⟩

/-- One more entry of a part that was read up to `q`. -/
theorem stretch_eq {xs : List α} {m n : ℕ} {a : α} (hnext : xs[m]? = some a) (hle : m + 1 ≤ n) :
    (xs.take n).drop m = a :: (xs.take n).drop (m + 1) := by
  have hget : (xs.take n)[m]? = some a := by
    rw [List.getElem?_take_of_lt (by omega), hnext]
  obtain ⟨hm, hval⟩ := List.getElem?_eq_some_iff.mp hget
  rw [List.drop_eq_getElem_cons hm, hval]

/-- **Of each part a feed hands on what is seen of a stretch**, from the one place to the other, in
its order and nothing twice. -/
theorem entries_eq (h : Feed parts seen p items q) (i : ι) :
    p i ≤ q i ∧ items.filterMap (Item.entryOf i) =
      (((parts i).take (q i)).drop (p i)).filterMap seen := by
  induction h with
  | here p =>
      refine ⟨Nat.le_refl _, ?_⟩
      rw [List.drop_take_self]
      rfl
  | @hands p q j a b items hnext hseen hrest ih =>
      obtain ⟨hle, heq⟩ := ih
      by_cases hij : i = j
      · subst hij
        rw [advance_self] at hle heq
        refine ⟨by omega, ?_⟩
        rw [stretch_eq hnext hle, List.filterMap_cons_some hseen, ← heq,
          List.filterMap_cons_some (Item.entryOf_self ..)]
      · rw [advance_of_ne p hij] at hle heq
        exact ⟨hle, by rw [List.filterMap_cons_none (Item.entryOf_of_ne hij ..), heq]⟩
  | @skips p q j a items hnext hseen hrest ih =>
      obtain ⟨hle, heq⟩ := ih
      by_cases hij : i = j
      · subst hij
        rw [advance_self] at hle heq
        refine ⟨by omega, ?_⟩
        rw [stretch_eq hnext hle, List.filterMap_cons_none hseen, heq]
      · rw [advance_of_ne p hij] at hle heq
        exact ⟨hle, heq⟩
  | tells hrest ih => exact ⟨ih.1, ih.2⟩

end Feed

end SplitLog
