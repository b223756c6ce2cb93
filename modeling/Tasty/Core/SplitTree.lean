/-
The layout tree shared by pane and surface layouts
(`crates/tasty-core/src/model.rs`, `replacement.rs`), with its three
edits: split a leaf, remove a leaf by promoting its sibling, replace a
leaf in place.

A Rust edit mutates the tree and reports what happened; here an edit
returns the new tree exactly when the Rust one changed it. What every
later proof needs of an edit is what it does to the leaves, so each
edit's lemma is a permutation of `leaves` (no distinctness assumed:
an edit touches one occurrence).
-/
import Mathlib.Data.List.Perm.Basic

namespace Tasty.Core

open List

/-- `tasty_model::SplitDirection`. -/
inductive SplitDirection where
  | horizontal
  | vertical
  deriving DecidableEq

/-- A split ratio, kept as the bits of its `f32`. -/
structure Ratio where
  bits : UInt32
  deriving DecidableEq

namespace Ratio

/-- The bits of `0.1_f32`. -/
def lowest : UInt32 := 0x3DCCCCCD

/-- The bits of `0.9_f32`. -/
def highest : UInt32 := 0x3F666666

/-- `value.is_finite() && (0.1..=0.9).contains(&value)`. Positive
floats are ordered as their bits, and every negative or non-finite
float has bits above those of `0.9`, so the test is one on bits. -/
def inRange (r : Ratio) : Bool :=
  lowest ≤ r.bits && r.bits ≤ highest

end Ratio

/-- On which side of an existing node the new one goes. -/
inductive Placement where
  | before
  | after
  deriving DecidableEq

/-- A split tree with leaves of any payload: ids in the journal model,
panes or surface descriptors in the live tree. -/
inductive SplitTree (α : Type) where
  | leaf (id : α)
  | split (direction : SplitDirection) (ratio : Ratio)
      (first second : SplitTree α)
  deriving DecidableEq

/-- What removing a leaf did; the tree is the one left behind. -/
inductive RemoveLeaf (α : Type) where
  | removed (tree : SplitTree α)
  | notFound
  | lastLeaf

namespace SplitTree

variable {α β : Type}

-- ==== the operations

/-- The leaves, left to right, depth first. -/
def leaves : SplitTree α → List α
  | leaf id => [id]
  | split _ _ first second => first.leaves ++ second.leaves

/-- The leftmost leaf (`assembly.rs`, `first`). -/
def first : SplitTree α → α
  | leaf id => id
  | split _ _ child _ => child.first

/-- `matches!(tree, Leaf(id) if id == target)`. -/
def isLeaf [DecidableEq α] (target : α) : SplitTree α → Bool
  | leaf id => id = target
  | split .. => false

/-- Turn the leaf `target` into a split of `target` and `new`; `none`
when no leaf is `target`. -/
def splitLeaf [DecidableEq α] (target new : α)
    (direction : SplitDirection) (ratio : Ratio)
    (placement : Placement) : SplitTree α → Option (SplitTree α)
  | leaf id =>
    if id = target then
      match placement with
      | .before => some (split direction ratio (leaf new) (leaf target))
      | .after => some (split direction ratio (leaf target) (leaf new))
    else none
  | split d r first second =>
    match first.splitLeaf target new direction ratio placement with
    | some first' => some (split d r first' second)
    | none =>
      (second.splitLeaf target new direction ratio placement).map
        (split d r first)

/-- Take the leaf `target` out and fold its parent split into the
sibling. The last leaf stays. -/
def removeLeaf [DecidableEq α] (target : α) : SplitTree α → RemoveLeaf α
  | leaf id => if id = target then .lastLeaf else .notFound
  | split d r first second =>
    if first.isLeaf target then .removed second
    else if second.isLeaf target then .removed first
    else
      match first.removeLeaf target with
      | .removed first' => .removed (split d r first' second)
      | .lastLeaf => .lastLeaf
      | .notFound =>
        match second.removeLeaf target with
        | .removed second' => .removed (split d r first second')
        | .lastLeaf => .lastLeaf
        | .notFound => .notFound

/-- Put `source` in the place of the leaf `target` (`replacement.rs`,
`replace_leaf`); `none` when no leaf is `target`. -/
def replaceLeaf [DecidableEq α] (target source : α) :
    SplitTree α → Option (SplitTree α)
  | leaf id => if id = target then some (leaf source) else none
  | split d r first second =>
    match first.replaceLeaf target source with
    | some first' => some (split d r first' second)
    | none => (second.replaceLeaf target source).map (split d r first)

/-- The leaves replaced by their images. -/
def map (f : α → β) : SplitTree α → SplitTree β
  | leaf id => leaf (f id)
  | split d r first second => split d r (first.map f) (second.map f)

-- ==== the leaves

@[simp] theorem leaves_leaf (id : α) : (leaf id).leaves = [id] := rfl

@[simp] theorem leaves_split (d : SplitDirection) (r : Ratio)
    (s t : SplitTree α) : (split d r s t).leaves = s.leaves ++ t.leaves := rfl

theorem leaves_ne_nil (t : SplitTree α) : t.leaves ≠ [] := by
  induction t with
  | leaf id => simp
  | split d r s t ihs iht => simp [ihs]

@[simp] theorem leaves_map (f : α → β) (t : SplitTree α) :
    (t.map f).leaves = t.leaves.map f := by
  induction t with
  | leaf id => rfl
  | split d r s t ihs iht => simp [map, ihs, iht]

theorem first_mem_leaves (t : SplitTree α) : t.first ∈ t.leaves := by
  induction t with
  | leaf id => simp [first]
  | split d r s t ihs iht => simp [first, ihs]

variable [DecidableEq α]

variable {t : SplitTree α} {target : α}

theorem isLeaf_iff : t.isLeaf target = true ↔ t = leaf target := by
  cases t <;> simp [isLeaf]

variable {t' : SplitTree α}

theorem leaves_splitLeaf {new : α} {d : SplitDirection} {r : Ratio}
    {p : Placement} (h : t.splitLeaf target new d r p = some t') :
    t'.leaves.Perm (new :: t.leaves) := by
  induction t generalizing t' with
  | leaf id =>
    simp only [splitLeaf] at h
    split at h
    case isFalse => cases h
    case isTrue he =>
      subst he
      cases p with
      | before => cases h; exact List.Perm.refl _
      | after => cases h; exact List.Perm.swap ..
  | split d' r' s u ihs ihu =>
    simp only [splitLeaf] at h
    split at h
    case h_1 s' hs =>
      cases h
      exact (ihs hs).append_right u.leaves
    case h_2 =>
      obtain ⟨u', hu, rfl⟩ := Option.map_eq_some_iff.1 h
      exact ((ihu hu).append_left s.leaves).trans perm_middle

theorem leaves_removeLeaf (h : t.removeLeaf target = .removed t') :
    t.leaves.Perm (target :: t'.leaves) := by
  induction t generalizing t' with
  | leaf id =>
    simp only [removeLeaf] at h
    split at h <;> cases h
  | split d r s u ihs ihu =>
    simp only [removeLeaf] at h
    split at h
    case isTrue hs =>
      cases h
      rw [isLeaf_iff.1 hs]
      exact List.Perm.refl _
    case isFalse =>
      split at h
      case isTrue hu =>
        cases h
        rw [isLeaf_iff.1 hu]
        exact perm_append_singleton _ _
      case isFalse =>
        split at h
        case h_1 s' hs =>
          cases h
          exact (ihs hs).append_right u.leaves
        case h_2 => cases h
        case h_3 =>
          split at h <;> cases h
          next hu =>
          exact ((ihu hu).append_left s.leaves).trans perm_middle

theorem removeLeaf_lastLeaf :
    t.removeLeaf target = .lastLeaf ↔ t = leaf target := by
  induction t with
  | leaf id => by_cases h : id = target <;> simp [removeLeaf, h]
  | split d r s u ihs ihu =>
    simp only [removeLeaf, reduceCtorEq, iff_false]
    split
    case isTrue => simp
    case isFalse hs =>
      split
      case isTrue => simp
      case isFalse hu =>
        split
        case h_1 => simp
        case h_2 he => exact absurd (isLeaf_iff.2 (ihs.1 he)) hs
        case h_3 =>
          split
          case h_1 => simp
          case h_2 he => exact absurd (isLeaf_iff.2 (ihu.1 he)) hu
          case h_3 => simp

theorem removeLeaf_notFound :
    t.removeLeaf target = .notFound ↔ target ∉ t.leaves := by
  induction t with
  | leaf id =>
    rcases eq_or_ne id target with rfl | h
    · simp [removeLeaf]
    · simp [removeLeaf, h, h.symm]
  | split d r s u ihs ihu =>
    simp only [removeLeaf, leaves_split, mem_append, not_or, ← ihs, ← ihu]
    split
    case isTrue hs =>
      rw [isLeaf_iff.1 hs]
      simp [removeLeaf]
    case isFalse =>
      split
      case isTrue hu =>
        rw [isLeaf_iff.1 hu]
        simp [removeLeaf]
      case isFalse =>
        cases s.removeLeaf target <;> simp
        cases u.removeLeaf target <;> simp

theorem leaves_replaceLeaf {source : α}
    (h : t.replaceLeaf target source = some t') :
    ∃ rest, t.leaves.Perm (target :: rest)
      ∧ t'.leaves.Perm (source :: rest) := by
  induction t generalizing t' with
  | leaf id =>
    simp only [replaceLeaf] at h
    split at h
    case isFalse => cases h
    case isTrue he =>
      cases h
      subst he
      exact ⟨[], List.Perm.refl _, List.Perm.refl _⟩
  | split d r s u ihs ihu =>
    simp only [replaceLeaf] at h
    split at h
    case h_1 s' hs =>
      cases h
      obtain ⟨rest, h₁, h₂⟩ := ihs hs
      exact ⟨rest ++ u.leaves, h₁.append_right _, h₂.append_right _⟩
    case h_2 =>
      obtain ⟨u', hu, rfl⟩ := Option.map_eq_some_iff.1 h
      obtain ⟨rest, h₁, h₂⟩ := ihu hu
      refine ⟨s.leaves ++ rest, ?_, ?_⟩
      · exact (h₁.append_left s.leaves).trans perm_middle
      · exact (h₂.append_left s.leaves).trans perm_middle

theorem replaceLeaf_isSome {source : α} :
    (t.replaceLeaf target source).isSome ↔ target ∈ t.leaves := by
  induction t with
  | leaf id =>
    rcases eq_or_ne id target with rfl | h
    · simp [replaceLeaf]
    · simp [replaceLeaf, h, h.symm]
  | split d r s u ihs ihu =>
    simp only [replaceLeaf, leaves_split, mem_append, ← ihs, ← ihu]
    cases s.replaceLeaf target source <;> simp

end SplitTree

end Tasty.Core
