/-
The rectangles of a layout (`binary_tree.rs`, `rect.rs`) in exact arithmetic:
a split cuts its rectangle along one axis, with a divider between the two
sides, so that leaves and dividers tile the whole.
-/
import Mathlib.Algebra.Order.Floor.Ring
import Tasty.Core.SplitTree
import Tasty.Lib.Boxes

namespace Tasty.Layout

open List

open Core (SplitDirection Ratio SplitTree)

/-- A rectangle in pixels. -/
structure PhysicalRect (K : Type) where
  x : K
  y : K
  width : K
  height : K
  deriving DecidableEq

variable {K : Type} [Field K] [LinearOrder K] [FloorRing K]

namespace PhysicalRect

/-- Check if a point (x, y) is inside this rectangle. -/
def Contains (rect : PhysicalRect K) (x y : K) : Prop :=
  x ≥ rect.x ∧ x < rect.x + rect.width ∧ y ≥ rect.y ∧ y < rect.y + rect.height

/-- The two sides of a split; `gap` is what lies between them. -/
def splitWithGap (rect : PhysicalRect K) (direction : SplitDirection)
    (ratio gap : K) : PhysicalRect K × PhysicalRect K :=
  match direction with
  | .vertical =>
    let usable := max (rect.width - gap) 0
    let firstW : K := ⌊usable * ratio⌋
    let secondW := usable - firstW
    (⟨rect.x, rect.y, firstW, rect.height⟩,
      ⟨rect.x + firstW + gap, rect.y, secondW, rect.height⟩)
  | .horizontal =>
    let usable := max (rect.height - gap) 0
    let firstH : K := ⌊usable * ratio⌋
    let secondH := usable - firstH
    (⟨rect.x, rect.y, rect.width, firstH⟩,
      ⟨rect.x, rect.y + firstH + gap, rect.width, secondH⟩)

/-- A rectangle as a box: a vertical split cuts its width, a horizontal one
its height. -/
def toBox (rect : PhysicalRect K) : Box SplitDirection K where
  lo
    | .vertical => rect.x
    | .horizontal => rect.y
  hi
    | .vertical => rect.x + rect.width
    | .horizontal => rect.y + rect.height

def point (x y : K) : SplitDirection → K
  | .vertical => x
  | .horizontal => y

omit [FloorRing K] in
theorem contains_iff {rect : PhysicalRect K} {x y : K} :
    rect.Contains x y ↔ rect.toBox.Contains (point x y) := by
  constructor
  · intro h i
    cases i with
    | horizontal => exact ⟨h.2.2.1, h.2.2.2⟩
    | vertical => exact ⟨h.1, h.2.1⟩
  · intro h
    exact ⟨(h .vertical).1, (h .vertical).2, (h .horizontal).1,
      (h .horizontal).2⟩

def Positive (rect : PhysicalRect K) : Prop := 0 < rect.width ∧ 0 < rect.height

instance (rect : PhysicalRect K) : Decidable rect.Positive :=
  inferInstanceAs (Decidable (_ ∧ _))

end PhysicalRect

/-- The split that a divider belongs to, and its rectangle. -/
structure DividerInfo (K : Type) where
  direction : SplitDirection
  splitRect : PhysicalRect K

/-- Geometry of a borrowed layout with transient ratio overrides. -/
structure TreeGeometry (Id K : Type) where
  leaves : List (Id × PhysicalRect K)
  dividers : List (List Bool × DividerInfo K × Ratio)

namespace BinaryTree

variable {Id : Type}

section Rects

-- the exact number that a stored ratio stands for, and the border width
variable (value : Ratio → K) (gap : K)

/-- `visit` of `preview_geometry`. -/
def visit (ratios : List Bool → Ratio → Ratio) :
    SplitTree Id → PhysicalRect K → List Bool → TreeGeometry Id K →
      TreeGeometry Id K
  | .leaf id, rect, _, out => { out with leaves := out.leaves ++ [(id, rect)] }
  | .split direction ratio first second, rect, path, out =>
    let ratio := ratios path ratio
    let out :=
      { out with
        dividers := out.dividers ++ [(path, ⟨direction, rect⟩, ratio)] }
    let (a, b) := rect.splitWithGap direction (value ratio) gap
    let out := visit ratios first a (path ++ [false]) out
    visit ratios second b (path ++ [true]) out

def previewGeometry (ratioAt : List Bool → Ratio → Ratio)
    (rect : PhysicalRect K) (tree : SplitTree Id) : TreeGeometry Id K :=
  visit value gap ratioAt tree rect [] ⟨[], []⟩

def computeRects : PhysicalRect K → SplitTree Id → List (Id × PhysicalRect K)
  | rect, .leaf id => [(id, rect)]
  | rect, .split dir ratio first second =>
    let (r1, r2) := rect.splitWithGap dir (value ratio) gap
    computeRects r1 first ++ computeRects r2 second

/-- The divider between the first side of a split and the second. -/
def divider (dir : SplitDirection) (rect r1 : PhysicalRect K) :
    PhysicalRect K :=
  match dir with
  | .vertical => ⟨r1.x + r1.width, rect.y, gap, rect.height⟩
  | .horizontal => ⟨rect.x, r1.y + r1.height, rect.width, gap⟩

def collectDividers : PhysicalRect K → SplitTree Id → List (PhysicalRect K)
  | _, .leaf _ => []
  | rect, .split dir ratio first second =>
    let (r1, r2) := rect.splitWithGap dir (value ratio) gap
    divider gap dir rect r1
      :: (collectDividers r1 first ++ collectDividers r2 second)

end Rects

-- ==== one preview

theorem leaves_visit (value : Ratio → K) (gap : K) (tree : SplitTree Id)
    (rect : PhysicalRect K) (path : List Bool) (out : TreeGeometry Id K) :
    (visit value gap (fun _ ratio => ratio) tree rect path out).leaves
      = out.leaves ++ computeRects value gap rect tree := by
  induction tree generalizing rect path out with
  | leaf id => rfl
  | split dir ratio first second ihFirst ihSecond =>
    show (visit value gap _ second _ _
      (visit value gap _ first _ _ _)).leaves = _
    rw [ihSecond, ihFirst, append_assoc]
    rfl

-- ==== single splits

section Cuts

variable {value : Ratio → K} {gap : K}

variable {rect r1 r2 : PhysicalRect K} {dir : SplitDirection}
  {ratio : Ratio}

theorem computeRects_split
    (hsplit : rect.splitWithGap dir (value ratio) gap = (r1, r2))
    (first second : SplitTree Id) :
    computeRects value gap rect (.split dir ratio first second)
      = computeRects value gap r1 first ++ computeRects value gap r2 second := by
  rw [computeRects, hsplit]

theorem collectDividers_split
    (hsplit : rect.splitWithGap dir (value ratio) gap = (r1, r2))
    (first second : SplitTree Id) :
    collectDividers value gap rect (.split dir ratio first second)
      = divider gap dir rect r1
        :: (collectDividers value gap r1 first
          ++ collectDividers value gap r2 second) := by
  rw [collectDividers, hsplit]

/-- Every leaf has a rectangle of positive size. -/
def AllPositive (value : Ratio → K) (gap : K) (rect : PhysicalRect K)
    (tree : SplitTree Id) : Prop :=
  ∀ e ∈ computeRects value gap rect tree, e.2.Positive

variable {first second : SplitTree Id}

theorem AllPositive.sides
    (h : AllPositive value gap rect (.split dir ratio first second))
    (hsplit : rect.splitWithGap dir (value ratio) gap = (r1, r2)) :
    AllPositive value gap r1 first ∧ AllPositive value gap r2 second := by
  unfold AllPositive at h
  rw [computeRects_split hsplit] at h
  exact ⟨fun e he => h e (mem_append_left _ he),
    fun e he => h e (mem_append_right _ he)⟩

/-- The rectangles of the leaves, then those of the dividers. -/
def pieces (value : Ratio → K) (gap : K) (rect : PhysicalRect K)
    (tree : SplitTree Id) : List (PhysicalRect K) :=
  (computeRects value gap rect tree).map Prod.snd
    ++ collectDividers value gap rect tree

theorem pieces_split
    (hsplit : rect.splitWithGap dir (value ratio) gap = (r1, r2)) :
    (divider gap dir rect r1
        :: (pieces value gap r1 first ++ pieces value gap r2 second)).Perm
      (pieces value gap rect (.split dir ratio first second)) := by
  unfold pieces
  rw [computeRects_split hsplit, collectDividers_split hsplit, map_append]
  refine List.Perm.trans ?_ perm_middle.symm
  refine List.Perm.cons _ ?_
  rw [append_assoc, append_assoc]
  refine List.Perm.append_left _ ?_
  rw [← append_assoc, ← append_assoc]
  exact List.Perm.append_right _ perm_append_comm

variable [IsStrictOrderedRing K]

omit [FloorRing K] in
theorem parts_of_positive {length gap part : K}
    (hpart : 0 < part) (hrest : 0 < max (length - gap) 0 - part) :
    part + gap + (max (length - gap) 0 - part) = length := by
  have hpositive : 0 < max (length - gap) 0 := by linarith
  have hunclipped : max (length - gap) 0 = length - gap := by
    refine max_eq_left (le_of_lt ?_)
    by_contra hle
    rw [max_eq_right (not_lt.1 hle)] at hpositive
    exact lt_irrefl 0 hpositive
  linarith

theorem splitWithGap_cut (hgap : 0 ≤ gap) {ratio : K}
    (hsplit : rect.splitWithGap dir ratio gap = (r1, r2)) (h1 : r1.Positive)
    (h2 : r2.Positive) :
    Box.Cut dir rect.toBox r1.toBox (divider gap dir rect r1).toBox r2.toBox := by
  cases dir with
  | vertical =>
    cases hsplit
    have hparts := parts_of_positive h1.1 h2.1
    have hfirst := h1.1
    have hsecond := h2.1
    dsimp only at hparts hfirst hsecond
    constructor
    · rfl
    · rfl
    · rfl
    · show rect.x + _ + gap + _ = rect.x + rect.width
      linarith
    · show rect.x < rect.x + _
      linarith
    · show rect.x + _ ≤ rect.x + _ + gap
      linarith
    · show rect.x + _ + gap < rect.x + _ + gap + _
      linarith
    all_goals
      intro i hi
      cases i with
      | horizontal => exact ⟨rfl, rfl⟩
      | vertical => exact absurd rfl hi
  | horizontal =>
    cases hsplit
    have hparts := parts_of_positive h1.2 h2.2
    have hfirst := h1.2
    have hsecond := h2.2
    dsimp only at hparts hfirst hsecond
    constructor
    · rfl
    · rfl
    · rfl
    · show rect.y + _ + gap + _ = rect.y + rect.height
      linarith
    · show rect.y < rect.y + _
      linarith
    · show rect.y + _ ≤ rect.y + _ + gap
      linarith
    · show rect.y + _ + gap < rect.y + _ + gap + _
      linarith
    all_goals
      intro i hi
      cases i with
      | vertical => exact ⟨rfl, rfl⟩
      | horizontal => exact absurd rfl hi

variable {tree : SplitTree Id}

/-- Around leaves of positive size every rectangle is of positive size. -/
theorem AllPositive.positive (hgap : 0 ≤ gap)
    (h : AllPositive value gap rect tree) : rect.Positive := by
  induction tree generalizing rect with
  | leaf id => exact h (id, rect) mem_cons_self
  | split dir ratio first second ihFirst ihSecond =>
    rcases hsplit : rect.splitWithGap dir (value ratio) gap with ⟨r1, r2⟩
    obtain ⟨h1, h2⟩ := h.sides hsplit
    have hfirst := ihFirst h1
    have hsecond := ihSecond h2
    cases dir with
    | vertical =>
      cases hsplit
      have hparts := parts_of_positive hfirst.1 hsecond.1
      refine ⟨?_, hfirst.2⟩
      have := hfirst.1
      have := hsecond.1
      dsimp only at *
      linarith
    | horizontal =>
      cases hsplit
      have hparts := parts_of_positive hfirst.2 hsecond.2
      refine ⟨hfirst.1, ?_⟩
      have := hfirst.2
      have := hsecond.2
      dsimp only at *
      linarith

theorem AllPositive.cut (hgap : 0 ≤ gap)
    (h : AllPositive value gap rect (.split dir ratio first second))
    (hsplit : rect.splitWithGap dir (value ratio) gap = (r1, r2)) :
    Box.Cut dir rect.toBox r1.toBox (divider gap dir rect r1).toBox r2.toBox := by
  obtain ⟨h1, h2⟩ := h.sides hsplit
  exact splitWithGap_cut hgap hsplit (h1.positive hgap) (h2.positive hgap)

theorem tiles (hgap : 0 ≤ gap) (h : AllPositive value gap rect tree) :
    Box.Tiles ((pieces value gap rect tree).map PhysicalRect.toBox)
      rect.toBox := by
  induction tree generalizing rect with
  | leaf id => exact Box.Tiles.single rect.toBox
  | split dir ratio first second ihFirst ihSecond =>
    rcases hsplit : rect.splitWithGap dir (value ratio) gap with ⟨r1, r2⟩
    obtain ⟨h1, h2⟩ := h.sides hsplit
    have hcut := h.cut hgap hsplit
    have hpieces : (divider gap dir rect r1
        :: (pieces value gap r1 first ++ pieces value gap r2 second)).Perm
      (pieces value gap rect (.split dir ratio first second)) :=
        pieces_split hsplit
    have hperm := hpieces.map PhysicalRect.toBox
    rw [map_cons, map_append] at hperm
    exact (Box.Tiles.cut hcut (ihFirst h1) (ihSecond h2)).perm hperm

theorem within (hgap : 0 ≤ gap) (h : AllPositive value gap rect tree)
    {e : Id × PhysicalRect K} (he : e ∈ computeRects value gap rect tree) :
    Box.Within e.2.toBox rect.toBox := by
  induction tree generalizing rect with
  | leaf id =>
    rw [mem_singleton.1 he]
    exact Box.Within.refl rect.toBox
  | split dir ratio first second ihFirst ihSecond =>
    rcases hsplit : rect.splitWithGap dir (value ratio) gap with ⟨r1, r2⟩
    obtain ⟨h1, h2⟩ := h.sides hsplit
    have hcut := h.cut hgap hsplit
    rw [computeRects_split hsplit] at he
    rcases mem_append.1 he with he | he
    · exact (ihFirst h1 he).trans hcut.within_first
    · exact (ihSecond h2 he).trans hcut.within_second

end Cuts

end BinaryTree

end Tasty.Layout
