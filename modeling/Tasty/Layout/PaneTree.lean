/-
The panes of a workspace (`tasty-model`, `pane_tree.rs`). Closing a pane
leaves its sibling in the place of their split; what is remembered of the
split is one pane of the sibling, and the pane that comes back splits that
one.
-/
import Mathlib.Data.List.Nodup
import Tasty.Core.SplitTree

namespace Tasty.Layout

open List

open Core (SplitDirection Ratio SplitTree)

abbrev PaneId := UInt32

/-- A pane: its tabs are only carried along. -/
structure Pane (τ : Type) where
  id : PaneId
  tabs : List τ
  deriving DecidableEq

abbrev PaneNode (τ : Type) := SplitTree (Pane τ)

namespace PaneNode

variable {τ : Type}

def allPaneIds (node : PaneNode τ) : List PaneId := node.leaves.map Pane.id

/-- `matches!(node, PaneNode::Leaf(p) if p.id == target_id)`. -/
def isPane (targetId : PaneId) : PaneNode τ → Bool
  | .leaf p => p.id = targetId
  | .split .. => false

/-- The tree without the pane, and whether the pane was found and
removed. -/
def closePane (targetId : PaneId) : PaneNode τ → PaneNode τ × Bool
  | .leaf p => (.leaf p, false)
  | .split d r first second =>
    if isPane targetId first then (second, true)
    else if isPane targetId second then (first, true)
    else
      match closePane targetId first with
      | (first, true) => (.split d r first second, true)
      | (first, false) =>
        let (second, closed) := closePane targetId second
        (.split d r first second, closed)

def firstPane : PaneNode τ → Option (Pane τ)
  | .leaf p => some p
  | .split _ _ first _ => firstPane first

/-- The parent split of a pane: direction, ratio, whether the pane was
first, and the first pane of the other side. -/
def locateSplitContext (targetId : PaneId) :
    PaneNode τ → Option (SplitDirection × Ratio × Bool × PaneId)
  | .leaf _ => none
  | .split d r first second =>
    if isPane targetId first then
      (firstPane second).map fun p => (d, r, true, p.id)
    else if isPane targetId second then
      (firstPane first).map fun p => (d, r, false, p.id)
    else
      (locateSplitContext targetId first).or
        (locateSplitContext targetId second)

/-- The tree with the pane beside the target, and the pane back where the
target was not found. -/
def insertPaneBeside (targetId : PaneId) (direction : SplitDirection)
    (ratio : Ratio) (newPane : Pane τ) (newPaneIsFirst : Bool) :
    PaneNode τ → PaneNode τ × Option (Pane τ)
  | .leaf p =>
    if p.id = targetId then
      if newPaneIsFirst then
        (.split direction ratio (.leaf newPane) (.leaf p), none)
      else (.split direction ratio (.leaf p) (.leaf newPane), none)
    else (.leaf p, some newPane)
  | .split d r first second =>
    match insertPaneBeside targetId direction ratio newPane newPaneIsFirst
        first with
    | (first, some pane) =>
      let (second, left) := insertPaneBeside targetId direction ratio pane
        newPaneIsFirst second
      (.split d r first second, left)
    | (first, none) => (.split d r first second, none)

-- ==== the sibling

/-- The other side of the split that a pane is one side of. -/
def siblingOf (targetId : PaneId) : PaneNode τ → Option (PaneNode τ)
  | .leaf _ => none
  | .split _ _ first second =>
    if isPane targetId first then some second
    else if isPane targetId second then some first
    else (siblingOf targetId first).or (siblingOf targetId second)

theorem isPane_iff {targetId : PaneId} {node : PaneNode τ} :
    isPane targetId node = true ↔ ∃ p, node = .leaf p ∧ p.id = targetId := by
  cases node <;> simp [isPane]

theorem firstPane_eq (node : PaneNode τ) : firstPane node = some node.first := by
  induction node with
  | leaf p => rfl
  | split d r first second ihFirst _ => exact ihFirst

theorem leaves_eq_cons (node : PaneNode τ) :
    node.leaves = node.first :: node.leaves.tail := by
  induction node with
  | leaf p => rfl
  | split d r first second ihFirst _ =>
    rw [SplitTree.leaves_split, SplitTree.first, ihFirst]
    rfl

-- ==== where a pane is not found

section NotFound

variable {targetId : PaneId} {node : PaneNode τ}

theorem isPane_of_not_mem (h : targetId ∉ allPaneIds node) :
    isPane targetId node = false := by
  rw [Bool.eq_false_iff]
  intro hpane
  obtain ⟨p, rfl, rfl⟩ := isPane_iff.1 hpane
  exact h mem_cons_self

theorem not_mem_split {d : SplitDirection} {r : Ratio}
    {first second : PaneNode τ}
    (h : targetId ∉ allPaneIds (.split d r first second)) :
    targetId ∉ allPaneIds first ∧ targetId ∉ allPaneIds second := by
  rw [allPaneIds, SplitTree.leaves_split, map_append, mem_append, not_or] at h
  exact h

variable (h : targetId ∉ allPaneIds node)

include h

theorem closePane_of_not_mem : closePane targetId node = (node, false) := by
  induction node with
  | leaf p => rfl
  | split d r first second ihFirst ihSecond =>
    obtain ⟨hfirst, hsecond⟩ := not_mem_split h
    rw [closePane, isPane_of_not_mem hfirst, isPane_of_not_mem hsecond,
      ihFirst hfirst, ihSecond hsecond]
    rfl

theorem locateSplitContext_of_not_mem :
    locateSplitContext targetId node = none := by
  induction node with
  | leaf p => rfl
  | split d r first second ihFirst ihSecond =>
    obtain ⟨hfirst, hsecond⟩ := not_mem_split h
    rw [locateSplitContext, isPane_of_not_mem hfirst,
      isPane_of_not_mem hsecond, ihFirst hfirst, ihSecond hsecond]
    rfl

theorem siblingOf_of_not_mem : siblingOf targetId node = none := by
  induction node with
  | leaf p => rfl
  | split d r first second ihFirst ihSecond =>
    obtain ⟨hfirst, hsecond⟩ := not_mem_split h
    rw [siblingOf, isPane_of_not_mem hfirst, isPane_of_not_mem hsecond,
      ihFirst hfirst, ihSecond hsecond]
    rfl

theorem insertPaneBeside_of_not_mem
    (direction : SplitDirection) (ratio : Ratio) (pane : Pane τ)
    (isFirst : Bool) :
    insertPaneBeside targetId direction ratio pane isFirst node
      = (node, some pane) := by
  induction node with
  | leaf p =>
    rw [insertPaneBeside, if_neg]
    intro heq
    exact h (mem_singleton.2 heq.symm)
  | split d r first second ihFirst ihSecond =>
    obtain ⟨hfirst, hsecond⟩ := not_mem_split h
    rw [insertPaneBeside, ihFirst hfirst]
    dsimp only
    rw [ihSecond hsecond]

omit h

end NotFound

-- ==== a pane comes back

theorem insertPaneBeside_first (node : PaneNode τ)
    (direction : SplitDirection) (ratio : Ratio) (pane : Pane τ)
    (isFirst : Bool) :
    ∃ node', insertPaneBeside node.first.id direction ratio pane isFirst node
        = (node', none)
      ∧ node'.leaves = (if isFirst then pane :: node.leaves
        else node.first :: pane :: node.leaves.tail)
      ∧ ∀ p, node = .leaf p → node' = if isFirst then
          .split direction ratio (.leaf pane) node
        else .split direction ratio node (.leaf pane) := by
  induction node with
  | leaf p =>
    rw [insertPaneBeside, SplitTree.first, if_pos rfl]
    cases isFirst with
    | true | false => exact ⟨_, rfl, rfl, fun _ _ => rfl⟩
  | split d r first second ihFirst _ =>
    obtain ⟨first', hinsert, hleaves, -⟩ := ihFirst
    refine ⟨.split d r first' second, ?_, ?_, ?_⟩
    · rw [insertPaneBeside, SplitTree.first, hinsert]
    · rw [SplitTree.leaves_split, hleaves, SplitTree.leaves_split,
        leaves_eq_cons first]
      cases isFirst with
      | true => rfl
      | false => rfl
    · intro p hp
      cases hp

/-- Where a pane stood before it was closed and where it stands when it has
come back: beside its sibling, and beside the first pane of it. -/
theorem comes_back {tree : PaneNode τ} {pane : Pane τ}
    (hunique : (allPaneIds tree).Nodup) (hpane : pane ∈ tree.leaves)
    (hroot : tree ≠ .leaf pane) :
    ∃ direction ratio isFirst, ∃ sibling rest restored : PaneNode τ,
    ∃ before after,
      siblingOf pane.id tree = some sibling
      ∧ locateSplitContext pane.id tree
        = some (direction, ratio, isFirst, sibling.first.id)
      ∧ closePane pane.id tree = (rest, true)
      ∧ rest.leaves = before ++ sibling.leaves ++ after
      ∧ insertPaneBeside sibling.first.id direction ratio pane isFirst rest
        = (restored, none)
      ∧ tree.leaves = before ++ (if isFirst then pane :: sibling.leaves
        else sibling.leaves ++ [pane]) ++ after
      ∧ restored.leaves = before ++ (if isFirst then pane :: sibling.leaves
        else sibling.first :: pane :: sibling.leaves.tail) ++ after
      ∧ ∀ p, sibling = .leaf p → restored = tree := by
  induction tree with
  | leaf p =>
    obtain rfl := mem_singleton.1 hpane
    exact absurd rfl hroot
  | split d r first second ihFirst ihSecond =>
    rw [allPaneIds, SplitTree.leaves_split, map_append, nodup_append] at hunique
    obtain ⟨hfirst, hsecond, hapart⟩ := hunique
    have hleft {id : PaneId} (h : id ∈ allPaneIds first) :
        id ∉ allPaneIds second := fun h' => hapart id h id h' rfl
    rcases mem_append.1 hpane with hmem | hmem
    · have hid : pane.id ∈ allPaneIds first := mem_map_of_mem hmem
      by_cases hleaf : isPane pane.id first = true
      · -- the pane is the first side
        obtain ⟨p, rfl, -⟩ := isPane_iff.1 hleaf
        obtain rfl := mem_singleton.1 hmem
        obtain ⟨restored, hinsert, hleaves, hexact⟩ :=
          insertPaneBeside_first second d r pane true
        refine ⟨d, r, true, second, second, restored, [], [], ?_, ?_, ?_, ?_,
          hinsert, ?_, ?_, ?_⟩
        · rw [siblingOf, if_pos hleaf]
        · rw [locateSplitContext, if_pos hleaf, firstPane_eq]
          rfl
        · rw [closePane, if_pos hleaf]
        · rw [nil_append, append_nil]
        · rw [nil_append, append_nil]
          rfl
        · rw [hleaves, nil_append, append_nil]
        · intro p hp
          exact hexact p hp
      · have hne : first ≠ .leaf pane := by
          rintro rfl
          exact hleaf (isPane_iff.2 ⟨pane, rfl, rfl⟩)
        obtain ⟨d', r', isFirst, sibling, rest, restored, before, after,
          hsibling, hlocate, hclose, hrest, hinsert, hleaves, hleaves',
          hexact⟩ := ihFirst hfirst hmem hne
        have hother := isPane_of_not_mem (hleft hid)
        refine ⟨d', r', isFirst, sibling, .split d r rest second,
          .split d r restored second, before, after ++ second.leaves, ?_, ?_,
          ?_, ?_, ?_, ?_, ?_, ?_⟩
        · rw [siblingOf, if_neg hleaf, hother, hsibling]
          rfl
        · rw [locateSplitContext, if_neg hleaf, hother, hlocate]
          rfl
        · rw [closePane, if_neg hleaf, hother, hclose]
          rfl
        · rw [SplitTree.leaves_split, hrest, append_assoc]
        · rw [insertPaneBeside, hinsert]
        · rw [SplitTree.leaves_split, hleaves, append_assoc]
        · rw [SplitTree.leaves_split, hleaves', append_assoc]
        · intro p hp
          rw [hexact p hp]
    · have hid : pane.id ∈ allPaneIds second := mem_map_of_mem hmem
      have hnot : pane.id ∉ allPaneIds first := fun h => hleft h hid
      have hother := isPane_of_not_mem hnot
      by_cases hleaf : isPane pane.id second = true
      · -- the pane is the second side
        obtain ⟨p, rfl, -⟩ := isPane_iff.1 hleaf
        obtain rfl := mem_singleton.1 hmem
        obtain ⟨restored, hinsert, hleaves, hexact⟩ :=
          insertPaneBeside_first first d r pane false
        refine ⟨d, r, false, first, first, restored, [], [], ?_, ?_, ?_, ?_,
          hinsert, ?_, ?_, ?_⟩
        · rw [siblingOf, hother, if_pos hleaf]
          rfl
        · rw [locateSplitContext, hother, if_pos hleaf, firstPane_eq first]
          rfl
        · rw [closePane, hother, if_pos hleaf]
          rfl
        · rw [nil_append, append_nil]
        · rw [nil_append, append_nil]
          rfl
        · rw [hleaves, nil_append, append_nil]
        · intro p hp
          exact hexact p hp
      · have hne : second ≠ .leaf pane := by
          rintro rfl
          exact hleaf (isPane_iff.2 ⟨pane, rfl, rfl⟩)
        obtain ⟨d', r', isFirst, sibling, rest, restored, before, after,
          hsibling, hlocate, hclose, hrest, hinsert, hleaves, hleaves',
          hexact⟩ := ihSecond hsecond hmem hne
        have hanchor : sibling.first.id ∉ allPaneIds first := by
          intro h
          refine hleft h (mem_map_of_mem ?_)
          rw [hleaves]
          have := sibling.first_mem_leaves
          cases isFirst <;> simp [this]
        refine ⟨d', r', isFirst, sibling, .split d r first rest,
          .split d r first restored, first.leaves ++ before, after, ?_, ?_,
          ?_, ?_, ?_, ?_, ?_, ?_⟩
        · rw [siblingOf, hother, if_neg hleaf, siblingOf_of_not_mem hnot,
            hsibling]
          rfl
        · rw [locateSplitContext, hother, if_neg hleaf,
            locateSplitContext_of_not_mem hnot, hlocate]
          rfl
        · rw [closePane, hother, if_neg hleaf, closePane_of_not_mem hnot,
            hclose]
          rfl
        · rw [SplitTree.leaves_split, hrest]
          simp only [append_assoc]
        · rw [insertPaneBeside, insertPaneBeside_of_not_mem hanchor]
          dsimp only
          rw [hinsert]
        · rw [SplitTree.leaves_split, hleaves]
          simp only [append_assoc]
        · rw [SplitTree.leaves_split, hleaves']
          simp only [append_assoc]
        · intro p hp
          rw [hexact p hp]

theorem eq_leaf_of_tail {node : PaneNode τ} (h : node.leaves.tail = []) :
    node = .leaf node.first := by
  cases node with
  | leaf p => rfl
  | split d r first second =>
    rw [SplitTree.leaves_split, leaves_eq_cons first, cons_append,
      tail_cons, append_eq_nil_iff] at h
    exact absurd h.2 second.leaves_ne_nil

/-- A closed pane comes back beside the first pane of its sibling: all
panes are there again, and in their old order if the pane was first or its
sibling is one pane. -/
theorem closed_pane_comes_back (tree : PaneNode τ)
    (hunique : (allPaneIds tree).Nodup) (pane : Pane τ)
    (hpane : pane ∈ tree.leaves) (hroot : tree ≠ .leaf pane) :
    ∃ direction ratio isFirst, ∃ sibling restored : PaneNode τ,
      siblingOf pane.id tree = some sibling
      ∧ locateSplitContext pane.id tree
        = some (direction, ratio, isFirst, sibling.first.id)
      ∧ (closePane pane.id tree).2 = true
      ∧ insertPaneBeside sibling.first.id direction ratio pane isFirst
        (closePane pane.id tree).1 = (restored, none)
      ∧ restored.leaves.Perm tree.leaves
      ∧ (∃ before after,
        tree.leaves = before ++ (if isFirst then pane :: sibling.leaves
          else sibling.leaves ++ [pane]) ++ after
        ∧ restored.leaves = before ++ (if isFirst then pane :: sibling.leaves
          else sibling.first :: pane :: sibling.leaves.tail) ++ after)
      ∧ (restored.leaves = tree.leaves
        ↔ isFirst = true ∨ ∃ p, sibling = .leaf p)
      ∧ ((∃ p, sibling = .leaf p) → restored = tree) := by
  obtain ⟨direction, ratio, isFirst, sibling, rest, restored, before, after,
    hsibling, hlocate, hclose, -, hinsert, hleaves, hleaves', hexact⟩ :=
    comes_back hunique hpane hroot
  have hwhole : (∃ p, sibling = .leaf p) → restored = tree := by
    intro h
    obtain ⟨p, hp⟩ := h
    exact hexact p hp
  refine ⟨direction, ratio, isFirst, sibling, restored, hsibling, hlocate, ?_,
    ?_, ?_, ⟨before, after, hleaves, hleaves'⟩, ?_, hwhole⟩
  · rw [hclose]
  · rw [hclose]
    exact hinsert
  · rw [hleaves, hleaves']
    refine (List.Perm.append_left before ?_).append_right after
    cases isFirst with
    | true => exact .refl _
    | false =>
      rw [if_neg Bool.false_ne_true, if_neg Bool.false_ne_true]
      conv_rhs => rw [leaves_eq_cons sibling]
      exact .cons _ (List.perm_append_singleton pane _).symm
  · constructor
    · intro hsame
      rw [hleaves, hleaves', List.append_cancel_right_eq,
        List.append_cancel_left_eq] at hsame
      cases isFirst with
      | true => exact .inl rfl
      | false =>
        refine .inr ⟨_, eq_leaf_of_tail ?_⟩
        rw [if_neg Bool.false_ne_true, if_neg Bool.false_ne_true] at hsame
        have hnodup := List.Nodup.of_map Pane.id hunique
        rw [hleaves, if_neg Bool.false_ne_true] at hnodup
        have hmiddle : (sibling.leaves ++ [pane]).Nodup :=
          (List.nodup_append.1 (List.nodup_append.1 hnodup).1).2.1
        rw [leaves_eq_cons sibling, List.cons_append,
          List.cons.injEq] at hsame
        cases htail : sibling.leaves.tail with
        | nil => rfl
        | cons p rest =>
          rw [htail] at hsame
          have hp : pane = p := (List.cons.inj hsame.2).1
          have hmem : p ∈ sibling.leaves := by
            rw [leaves_eq_cons sibling, htail]
            simp
          exact absurd hp.symm ((List.nodup_append.1 hmiddle).2.2 p hmem
            pane (List.mem_singleton_self pane))
    · intro h
      rcases h with rfl | h
      · rw [hleaves, hleaves']
        rfl
      · rw [hwhole h]

def threePanes : PaneNode Unit :=
  .split .horizontal ⟨0x3F000000⟩
    (.split .vertical ⟨0x3F000000⟩ (.leaf ⟨1, []⟩) (.leaf ⟨2, []⟩))
    (.leaf ⟨3, []⟩)

/-- The pane on the right comes back between the two on the left. -/
theorem closed_pane_comes_back_between :
    ∃ restored, insertPaneBeside 1 .horizontal ⟨0x3F000000⟩ ⟨3, []⟩ false
        (closePane 3 threePanes).1 = (restored, none)
      ∧ restored.leaves.Perm threePanes.leaves := by
  obtain ⟨d, r, isFirst, sibling, restored, -, hlocate, -, hinsert, hperm, -⟩ :=
    closed_pane_comes_back threePanes (by decide) ⟨3, []⟩ (by decide)
      (by decide)
  have hcontext : locateSplitContext 3 threePanes
      = some (.horizontal, ⟨0x3F000000⟩, false, 1) := by decide
  rw [hcontext] at hlocate
  simp only [Option.some.injEq, Prod.mk.injEq] at hlocate
  obtain ⟨rfl, rfl, rfl, hanchor⟩ := hlocate
  rw [← hanchor] at hinsert
  exact ⟨restored, hinsert, hperm⟩

/-- The order of the panes may be another one. -/
theorem closed_pane_comes_back_elsewhere :
    ¬ ∀ (tree : PaneNode Unit) (pane : Pane Unit), (allPaneIds tree).Nodup →
      pane ∈ tree.leaves → ∀ direction ratio isFirst anchor,
        locateSplitContext pane.id tree
          = some (direction, ratio, isFirst, anchor) →
        (insertPaneBeside anchor direction ratio pane isFirst
          (closePane pane.id tree).1).1.leaves = tree.leaves := by
  intro h
  have hsame := h threePanes ⟨3, []⟩ (by decide) (by decide) .horizontal
    ⟨0x3F000000⟩ false 1 (by decide)
  revert hsame
  decide

end PaneNode

end Tasty.Layout
