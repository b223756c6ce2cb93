/-
Folds of a partial operation that do not depend on the order: if two steps
may be swapped, up to a relation that every step respects, then all orders
fail, or all succeed with related results.
-/
import Mathlib.Data.List.Basic

namespace Tasty

variable {ε α β γ : Type}

-- ==== values that may be there

section Options

variable {R S : α → α → Prop} {o o' o'' : Option α}

theorem optionRel_euclid (h : Option.Rel R o o') (h' : Option.Rel R o o'')
    (ht : ∀ a b c, o = some a → R a b → R a c → S b c) :
    Option.Rel S o' o'' := by
  cases h with
  | some h =>
    cases h' with
    | some h' => exact .some (ht _ _ _ rfl h h')
  | none =>
    cases h'
    exact .none

end Options

-- ==== one or no result

/-- Both fail, or both succeed with related results. -/
inductive Agree (R : β → β → Prop) : Except ε β → Except ε β → Prop
  | ok {a b : β} (h : R a b) : Agree R (.ok a) (.ok b)
  | error (e e' : ε) : Agree R (.error e) (.error e')

namespace Agree

variable {R : β → β → Prop} {x y z : Except ε β}

theorem trans (htrans : ∀ a b c, R a b → R b c → R a c)
    (h : Agree R x y) (h' : Agree R y z) : Agree R x z := by
  cases h with
  | ok h =>
    cases h' with
    | ok h' => exact .ok (htrans _ _ _ h h')
  | error e e' =>
    cases h' with
    | error _ e'' => exact .error e e''

theorem bind {S : γ → γ → Prop} {f g : β → Except ε γ}
    (h : Agree R x y) (hf : ∀ a b, R a b → Agree S (f a) (g b)) :
    Agree S (x >>= f) (y >>= g) := by
  cases h with
  | ok h => exact hf _ _ h
  | error e e' => exact .error e e'

/-- One succeeds if the other does. -/
theorem exists_ok_iff (h : Agree R x y) :
    (∃ a, x = .ok a) ↔ ∃ b, y = .ok b := by
  cases h with
  | ok h => exact ⟨fun _ => ⟨_, rfl⟩, fun _ => ⟨_, rfl⟩⟩
  | error e e' =>
    constructor
    · rintro ⟨a, ha⟩
      cases ha
    · rintro ⟨b, hb⟩
      cases hb

theorem rel {a b : β} (h : Agree R x y) (hx : x = .ok a) (hy : y = .ok b) :
    R a b := by
  subst hx hy
  cases h with
  | ok h => exact h

end Agree

-- ==== folds

section Folds

variable {R : β → β → Prop} {f : β → α → Except ε β}
  (hsymm : ∀ a b, R a b → R b a) (htrans : ∀ a b c, R a b → R b c → R a c)
  (hcongr : ∀ b b' x, R b b' → Agree R (f b x) (f b' x))
  (hswap : ∀ b x y, R b b →
    Agree R (f b x >>= (f · y)) (f b y >>= (f · x)))

include hcongr in
theorem foldlM_congr (l : List α) {b b' : β} (h : R b b') :
    Agree R (l.foldlM f b) (l.foldlM f b') := by
  induction l generalizing b b' with
  | nil => exact .ok h
  | cons x l ih =>
    rw [List.foldlM_cons, List.foldlM_cons]
    exact (hcongr b b' x h).bind fun _ _ h => ih h

include hsymm htrans hcongr hswap in
/-- The order of the list does not matter. -/
theorem foldlM_perm {l l' : List α} (hperm : l.Perm l') {b : β}
    (h : R b b) : Agree R (l.foldlM f b) (l'.foldlM f b) := by
  have hleft : ∀ {a c}, R a c → R a a := fun h =>
    htrans _ _ _ h (hsymm _ _ h)
  induction hperm generalizing b with
  | nil => exact .ok h
  | cons x _ ih =>
    rw [List.foldlM_cons, List.foldlM_cons]
    exact (hcongr b b x h).bind fun a c hac =>
      (ih (hleft hac)).trans htrans (foldlM_congr hcongr _ hac)
  | swap x y l =>
    simp only [List.foldlM_cons, ← bind_assoc]
    exact (hswap b y x h).bind fun _ _ hac => foldlM_congr hcongr l hac
  | trans _ _ ih ih' => exact (ih h).trans htrans (ih' h)

end Folds

end Tasty
