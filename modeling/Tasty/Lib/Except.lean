/-
Reading a computation that may fail backwards: from a successful run to
the successful runs of its parts.
-/
import Mathlib.Data.List.Forall2

namespace Tasty

open List

variable {ε α β : Type}

variable {x : Except ε α} {f : α → Except ε β} {b : β}

/-- A sequence succeeds when both parts do. -/
theorem bind_eq_ok : (x >>= f) = .ok b ↔ ∃ a, x = .ok a ∧ f a = .ok b := by
  cases x with
  | error e =>
    constructor
    · intro h
      cases h
    · intro h
      obtain ⟨a, ha, -⟩ := h
      cases ha
  | ok a =>
    constructor
    · intro h
      exact ⟨a, rfl, h⟩
    · intro h
      obtain ⟨a', ha, h⟩ := h
      cases ha
      exact h

theorem bind_ok (h : (x >>= f) = .ok b) : ∃ a, x = .ok a ∧ f a = .ok b :=
  bind_eq_ok.1 h

/-- What comes after a check succeeds as the whole does. -/
theorem then_ok {k : Except ε β} (h : (x >>= fun _ => k) = .ok b) :
    k = .ok b := by
  obtain ⟨_, -, h⟩ := bind_ok h
  exact h

theorem ok_bind (a : α) (f : α → Except ε β) : (.ok a >>= f) = f a := rfl

variable {a : α} {p : Prop}

variable {e : ε}

theorem guard_eq_ok [Decidable p] :
    (if p then Except.error e else x) = .ok a ↔ ¬ p ∧ x = .ok a := by
  by_cases h : p <;> simp [h]

theorem guard_ok [Decidable p]
    (h : (if p then Except.error e else x) = .ok a) : ¬ p ∧ x = .ok a :=
  guard_eq_ok.1 h

theorem guard_not_eq_ok [Decidable p] :
    (if p then x else Except.error e) = .ok a ↔ p ∧ x = .ok a := by
  by_cases h : p <;> simp [h]

theorem guard_not_ok [Decidable p]
    (h : (if p then x else Except.error e) = .ok a) : p ∧ x = .ok a :=
  guard_not_eq_ok.1 h

theorem map_eq_ok {f : α → β} : x.map f = .ok b ↔ ∃ a, x = .ok a ∧ f a = b := by
  cases x with
  | error e =>
    constructor
    · intro h
      cases h
    · intro h
      obtain ⟨a, ha, -⟩ := h
      cases ha
  | ok a =>
    constructor
    · intro h
      cases h
      exact ⟨a, rfl, rfl⟩
    · intro h
      obtain ⟨a', ha, rfl⟩ := h
      cases ha
      rfl

/-- A check in a sequence, with what follows it in both branches. -/
theorem check_eq_ok [Decidable p] {f : Unit → Except ε β} :
    (if p then Except.error e >>= f else Except.ok () >>= f) = .ok b
      ↔ ¬ p ∧ f () = .ok b := guard_eq_ok

variable {l : List α} {r : List β}

/-- Each result of a list computation comes from one of its inputs. -/
theorem mem_of_mapM_eq_ok (h : l.mapM f = .ok r) (hb : b ∈ r) :
    ∃ a ∈ l, f a = .ok b := by
  induction l generalizing r with
  | nil =>
    cases h
    cases hb
  | cons a l ih =>
    rw [mapM_cons] at h
    obtain ⟨b', hb', h⟩ := bind_ok h
    obtain ⟨rest, hrest, h⟩ := bind_ok h
    cases h
    rcases mem_cons.1 hb with rfl | hb
    · exact ⟨a, mem_cons_self, hb'⟩
    · obtain ⟨x, hx, hfx⟩ := ih hrest hb
      exact ⟨x, mem_cons_of_mem _ hx, hfx⟩

theorem mem_of_mapM_eq_some {f : α → Option β} (h : l.mapM f = some r)
    (hb : b ∈ r) : ∃ a ∈ l, f a = some b := by
  induction l generalizing r with
  | nil =>
    cases h
    cases hb
  | cons a l ih =>
    rw [mapM_cons] at h
    obtain ⟨b', hb', h⟩ := Option.bind_eq_some_iff.1 h
    obtain ⟨rest, hrest, h⟩ := Option.bind_eq_some_iff.1 h
    cases h
    rcases mem_cons.1 hb with rfl | hb
    · exact ⟨a, mem_cons_self, hb'⟩
    · obtain ⟨x, hx, hfx⟩ := ih hrest hb
      exact ⟨x, mem_cons_of_mem _ hx, hfx⟩

/-- A check on the result of a computation, as two facts about it. -/
theorem exists_of_check {check : α → Bool} (h : x.toOption.any check = true) :
    ∃ a, x = .ok a ∧ check a = true := by
  cases x with
  | error e => cases h
  | ok a => exact ⟨a, rfl, h⟩

variable {R : α → β → Prop}

/-- Each left item of two related lists has its right one. -/
theorem forall₂_left (h : List.Forall₂ R l r) (ha : a ∈ l) : ∃ b ∈ r, R a b := by
  induction h with
  | nil => cases ha
  | cons hab _ ih =>
    rcases mem_cons.1 ha with rfl | ha
    · exact ⟨_, mem_cons_self, hab⟩
    · obtain ⟨b, hb, hR⟩ := ih ha
      exact ⟨b, mem_cons_of_mem _ hb, hR⟩

theorem forall₂_right (h : List.Forall₂ R l r) (hb : b ∈ r) : ∃ a ∈ l, R a b :=
  forall₂_left h.flip hb

theorem forall₂_imp_mem {S : α → β → Prop} (h : List.Forall₂ R l r)
    (himp : ∀ a ∈ l, ∀ b ∈ r, R a b → S a b) : List.Forall₂ S l r := by
  induction h with
  | nil => exact .nil
  | cons hab _ ih =>
    refine .cons (himp _ mem_cons_self _ mem_cons_self hab)
      (ih fun a ha b hb => ?_)
    exact himp a (mem_cons_of_mem _ ha) b (mem_cons_of_mem _ hb)

theorem forall₂_imp_right {S : α → β → Prop} (h : List.Forall₂ R l r)
    (himp : ∀ a, ∀ b ∈ r, R a b → S a b) : List.Forall₂ S l r :=
  forall₂_imp_mem h fun a _ => himp a

/-- A list computation succeeds when it does on each item. -/
theorem mapM_eq_ok :
    l.mapM f = .ok r ↔ List.Forall₂ (fun a b => f a = .ok b) l r := by
  induction l generalizing r with
  | nil =>
    rw [mapM_nil, forall₂_nil_left_iff]
    constructor
    · intro h
      cases h
      rfl
    · intro h
      rw [h]
      rfl
  | cons a l ih =>
    rw [mapM_cons, forall₂_cons_left_iff]
    constructor
    · intro h
      obtain ⟨b, hb, h⟩ := bind_ok h
      obtain ⟨rest, hrest, h⟩ := bind_ok h
      cases h
      exact ⟨b, rest, hb, ih.1 hrest, rfl⟩
    · rintro ⟨b, rest, hb, hrest, rfl⟩
      exact bind_eq_ok.2 ⟨b, hb, bind_eq_ok.2 ⟨rest, ih.2 hrest, rfl⟩⟩

/-- A list computation that succeeds on each item. -/
theorem mapM_ok (h : ∀ a ∈ l, ∃ b, f a = .ok b) : ∃ r, l.mapM f = .ok r := by
  induction l with
  | nil => exact ⟨[], mapM_eq_ok.2 .nil⟩
  | cons a l ih =>
    obtain ⟨b, hb⟩ := h a mem_cons_self
    obtain ⟨r, hr⟩ := ih fun x hx => h x (mem_cons_of_mem _ hx)
    exact ⟨b :: r, mapM_eq_ok.2 (.cons hb (mapM_eq_ok.1 hr))⟩

/-- A list computation that answers each item as `g` does. -/
theorem mapM_eq_map {g : α → β} (h : ∀ a ∈ l, f a = .ok (g a)) : l.mapM f = .ok (l.map g) :=
  mapM_eq_ok.2 (forall₂_map_right_iff.2 (forall₂_same.2 h))

/-- A list of checks passes when each does. -/
theorem forM_eq_ok {f : α → Except ε Unit} {u : Unit} :
    l.forM f = .ok u ↔ ∀ a ∈ l, f a = .ok () := by
  induction l with
  | nil =>
    constructor
    · intro _ a ha
      cases ha
    · intro _
      rfl
  | cons a l ih =>
    show (f a >>= fun _ => l.forM f) = _ ↔ _
    rw [forall_mem_cons]
    constructor
    · intro h
      obtain ⟨_, ha, h⟩ := bind_ok h
      exact ⟨ha, ih.1 h⟩
    · rintro ⟨ha, hl⟩
      exact bind_eq_ok.2 ⟨(), ha, ih.2 hl⟩

-- ==== the errors

/-- Each error of the computation satisfies `P`. -/
def Fails (P : ε → Prop) (x : Except ε α) : Prop :=
  ∀ e, x = .error e → P e

namespace Fails

variable {P : ε → Prop}

theorem ok (a : α) : Fails P (.ok a) := fun _ h => by cases h

theorem error (h : P e) : Fails P (.error e : Except ε α) :=
  fun _ he => Except.error.inj he ▸ h

/-- A computation that succeeded. -/
theorem of_eq (h : x = .ok a) : Fails P x := by
  rw [h]
  exact .ok a

/-- A sequence fails as its parts do. -/
theorem bind (hx : Fails P x) (hf : ∀ a, x = .ok a → Fails P (f a)) : Fails P (x >>= f) := by
  cases x with
  | error e => exact .error (hx e rfl)
  | ok a => exact hf a rfl

theorem ite [Decidable p] {y : Except ε α} (hx : p → Fails P x)
    (hy : ¬ p → Fails P y) : Fails P (if p then x else y) := by
  by_cases hp : p
  · rw [if_pos hp]
    exact hx hp
  · rw [if_neg hp]
    exact hy hp

theorem mapM (h : ∀ a ∈ l, Fails P (f a)) : Fails P (l.mapM f) := by
  induction l with
  | nil => exact .ok []
  | cons a l ih =>
    rw [mapM_cons]
    refine (h a mem_cons_self).bind fun b _ => ?_
    refine (ih fun x hx => h x (mem_cons_of_mem _ hx)).bind
      fun bs _ => ?_
    exact .ok (b :: bs)

/-- With no error left the computation succeeds. -/
theorem succeeds (h : Fails P x) (hnone : Fails (fun e => ¬ P e) x) : ∃ a, x = .ok a := by
  cases x with
  | error e => exact absurd (h e rfl) (hnone e rfl)
  | ok a => exact ⟨a, rfl⟩

end Fails

-- ==== errors that cannot occur

/-- The computation does not end in the error `e`. -/
def Avoids (e : ε) (x : Except ε α) : Prop := x ≠ .error e

/-- The errors of the computation are others. -/
theorem avoids_iff : Avoids e x ↔ Fails (· ≠ e) x :=
  ⟨fun h _ he heq => h (heq ▸ he), fun h he => h e he rfl⟩

namespace Avoids

variable {e : ε}

theorem ok (a : α) : Avoids e (.ok a) := fun h => by cases h

theorem error {e' : ε} (h : e' ≠ e) : Avoids e (.error e' : Except ε α) :=
  avoids_iff.2 (.error h)

/-- A computation that succeeded. -/
theorem of_eq (h : x = .ok a) : Avoids e x :=
  avoids_iff.2 (.of_eq h)

theorem bind (hx : Avoids e x) (hf : ∀ a, x = .ok a → Avoids e (f a)) : Avoids e (x >>= f) :=
  avoids_iff.2 ((avoids_iff.1 hx).bind fun a ha => avoids_iff.1 (hf a ha))

theorem ite [Decidable p] {y : Except ε α} (hx : p → Avoids e x)
    (hy : ¬ p → Avoids e y) : Avoids e (if p then x else y) :=
  avoids_iff.2 (.ite (fun h => avoids_iff.1 (hx h))
    fun h => avoids_iff.1 (hy h))

theorem mapM (h : ∀ a ∈ l, Avoids e (f a)) : Avoids e (l.mapM f) :=
  avoids_iff.2 (.mapM fun a ha => avoids_iff.1 (h a ha))

end Avoids

end Tasty
