/-
Answers that are given late but never taken back: `Stays a b` says that
once `a` is an answer, `b` is the same one. A computation whose parts stay
stays.

Cells that are decided one after another, each by a verdict on what has
been decided so far; which of them is next is left open, and a verdict may
be one of several. When verdicts are steady (no cell has two, and what has
been a verdict stays one, whatever is decided after it) all ways to go on
until no cell can be decided end in the same decisions.
-/
import Mathlib.Data.List.Forall2

namespace Tasty

open List

/-- An answer that is given is given again. -/
def Stays {α : Type} (a b : Option α) : Prop := ∀ r, a = some r → b = some r

namespace Stays

variable {α β γ δ : Type} {a b c : Option α}

theorem refl (a : Option α) : Stays a a := fun _ h => h

theorem of_eq (h : a = b) : Stays a b := h ▸ refl a

theorem none : Stays (none : Option α) b := fun _ h => by cases h

theorem bind {f f' : α → Option β} (h : Stays a b)
    (hf : ∀ x, a = some x → Stays (f x) (f' x)) :
    Stays (a >>= f) (b >>= f') := by
  intro r hr
  obtain ⟨x, hx, hfx⟩ := Option.bind_eq_some_iff.1 hr
  exact Option.bind_eq_some_iff.2 ⟨x, h x hx, hf x hx r hfx⟩

theorem map {f : α → β} (h : Stays a b) : Stays (a.map f) (b.map f) := by
  intro r hr
  obtain ⟨x, hx, rfl⟩ := Option.map_eq_some_iff.1 hr
  exact Option.map_eq_some_iff.2 ⟨x, h x hx, rfl⟩

theorem ite {p : Prop} [Decidable p] {a' b' : Option α}
    (h : p → Stays a b) (h' : ¬ p → Stays a' b') :
    Stays (if p then a else a') (if p then b else b') := by
  by_cases hp : p
  · rw [if_pos hp, if_pos hp]
    exact h hp
  · rw [if_neg hp, if_neg hp]
    exact h' hp

variable {l : List γ}

/-- A fold over a list whose elements are replaced by related ones. -/
theorem foldlM_rel {R : γ → δ → Prop} {f : β → γ → Option β}
    {f' : β → δ → Option β} {l' : List δ} (h : List.Forall₂ R l l')
    (hf : ∀ acc x y, R x y → Stays (f acc x) (f' acc y)) (acc : β) :
    Stays (l.foldlM f acc) (l'.foldlM f' acc) := by
  induction h generalizing acc with
  | nil => exact refl _
  | cons hxy _ ih =>
    rw [foldlM_cons, foldlM_cons]
    exact bind (hf acc _ _ hxy) fun acc' _ => ih acc'

theorem foldlM {f f' : β → γ → Option β}
    (hf : ∀ acc, ∀ x ∈ l, Stays (f acc x) (f' acc x)) (acc : β) :
    Stays (l.foldlM f acc) (l.foldlM f' acc) := by
  induction l generalizing acc with
  | nil => exact refl _
  | cons x rest ih =>
    rw [foldlM_cons, foldlM_cons]
    refine bind (hf acc x mem_cons_self) fun acc' _ => ?_
    exact ih (fun acc y hy => hf acc y (mem_cons_of_mem _ hy)) acc'

theorem mapM {f f' : γ → Option β} (hf : ∀ x ∈ l, Stays (f x) (f' x)) : Stays (l.mapM f) (l.mapM f') := by
  induction l with
  | nil => exact refl _
  | cons x rest ih =>
    rw [mapM_cons, mapM_cons]
    refine bind (hf x mem_cons_self) fun y _ => ?_
    refine bind (ih fun z hz => hf z (mem_cons_of_mem _ hz)) ?_
    exact fun _ _ => refl _

theorem forM {f f' : γ → Option PUnit} (hf : ∀ x ∈ l, Stays (f x) (f' x)) : Stays (l.forM f) (l.forM f') := by
  induction l with
  | nil => exact refl _
  | cons x rest ih =>
    show Stays (f x >>= fun _ => rest.forM f) (f' x >>= fun _ => rest.forM f')
    refine bind (hf x mem_cons_self) fun y _ => ?_
    exact ih fun z hz => hf z (mem_cons_of_mem _ hz)

end Stays

end Tasty

-- ==== decided cells

namespace Tasty

/-- What has been decided of each cell. -/
abbrev Decisions (ι β : Type) := ι → Option β

namespace Decisions

variable {ι β : Type} {x y z : Decisions ι β} {i : ι} {b c : β}

def blank : Decisions ι β := fun _ => none

/-- What `x` decides is decided so in `y`. -/
def Within (x y : Decisions ι β) : Prop := ∀ i b, x i = some b → y i = some b

theorem Within.refl (x : Decisions ι β) : Within x x := fun _ _ h => h

theorem Within.antisymm (h : Within x y) (h' : Within y x) : x = y := by
  funext i
  cases hx : x i with
  | some b => rw [h i b hx]
  | none =>
    cases hy : y i with
    | none => rfl
    | some b =>
      rw [h' i b hy] at hx
      cases hx

section Put

variable [DecidableEq ι]

def put (x : Decisions ι β) (i : ι) (b : β) : Decisions ι β :=
  Function.update x i (some b)

theorem put_self : x.put i b i = some b := Function.update_self ..

theorem put_of_ne {j : ι} (h : j ≠ i) : x.put i b j = x j :=
  Function.update_of_ne h ..

theorem within_put (h : x i = none) : Within x (x.put i b) := by
  intro j c hj
  by_cases hji : j = i
  · rw [hji, h] at hj
    cases hj
  · rw [put_of_ne hji]
    exact hj

/-- Decisions that have been made one after another, from none. -/
inductive Reached (V : Decisions ι β → ι → β → Prop) :
    Decisions ι β → Prop
  | start : Reached V blank
  | step {x : Decisions ι β} {i : ι} {b : β} : Reached V x → x i = none →
      V x i b → Reached V (x.put i b)

/-- No cell can be decided. -/
def Exhausted (V : Decisions ι β → ι → β → Prop) (x : Decisions ι β) : Prop :=
  ∀ i, x i = none → ∀ b, ¬ V x i b

/-- A verdict is the only one, and stays. -/
structure Steady (V : Decisions ι β → ι → β → Prop) : Prop where
  unique : ∀ {x i b c}, Reached V x → V x i b → V x i c → b = c
  stays : ∀ {x y i b}, Reached V x → Reached V y → Within x y → V x i b →
    V y i b

variable {V : Decisions ι β → ι → β → Prop}

/-- What has been decided is still the verdict. -/
theorem Reached.verdict (hs : Steady V) (hx : Reached V x)
    (hi : x i = some b) : V x i b := by
  induction hx generalizing i b with
  | start => cases hi
  | @step x j c hx hj hc ih =>
    have hy := Reached.step hx hj hc
    have hwithin := within_put (b := c) hj
    by_cases hij : i = j
    · rw [hij, put_self] at hi
      cases hi
      rw [hij]
      exact hs.stays hx hy hwithin hc
    · rw [put_of_ne hij] at hi
      exact hs.stays hx hy hwithin (ih hi)

/-- Where no cell is left all that can be decided has been. -/
theorem Reached.within (hs : Steady V) (hx : Reached V x)
    (hy : Reached V y) (hend : Exhausted V y) : Within x y := by
  induction hx with
  | start => exact fun _ _ h => by cases h
  | @step x i b hx hi hb ih =>
    have hb' := hs.stays hx hy ih hb
    intro j c hj
    by_cases hji : j = i
    · rw [hji, put_self] at hj
      cases hj
      rw [hji]
      cases hyi : y i with
      | none => exact absurd hb' (hend i hyi b)
      | some c => rw [hs.unique hy (hy.verdict hs hyi) hb']
    · rw [put_of_ne hji] at hj
      exact ih j c hj

/-- All ways that end, end in the same. -/
theorem Reached.confluent (hs : Steady V) (hx : Reached V x)
    (hy : Reached V y) (hendx : Exhausted V x) (hendy : Exhausted V y) :
    x = y :=
  (hx.within hs hy hendy).antisymm (hy.within hs hx hendx)

end Put

end Decisions

end Tasty
