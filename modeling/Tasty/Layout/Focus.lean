/-
Moving the focus in a direction (`binary_tree.rs`) is geometric: the path of
a leaf tells whether its rectangle touches the outer edge, and otherwise leads
to a leaf across the nearest divider.
-/
import Mathlib.Data.List.Nodup
import Mathlib.Data.Rat.Floor
import Tasty.Layout.Geometry

namespace Tasty.Layout

open List

open Core (SplitDirection Ratio SplitTree)

inductive FocusDirection where
  | left
  | right
  | up
  | down
  deriving DecidableEq

inductive PathSide where
  | first
  | second
  deriving DecidableEq

def directionMatchesSplit (split : SplitDirection) (dir : FocusDirection) :
    Bool :=
  match dir with
  | .left | .right => split = .vertical
  | .up | .down => split = .horizontal

def directionWantsFirst (dir : FocusDirection) : Bool :=
  dir = .left || dir = .up

variable {dir : SplitDirection}

namespace BinaryTree

variable {Id : Type}

section Model

variable [DecidableEq Id]

/-- The splits above the leaf `target`, from the root: the direction, the side
it is on, and the other side. -/
def buildPathTo (target : Id) :
    SplitTree Id → Option (List (SplitDirection × PathSide × SplitTree Id))
  | .leaf id => if id = target then some [] else none
  | .split dir _ first second =>
    match buildPathTo target first with
    | some path => some ((dir, .first, second) :: path)
    | none =>
      (buildPathTo target second).map ((dir, .second, first) :: ·)

def edgeLeaf (direction : FocusDirection) : SplitTree Id → Id
  | .leaf id => id
  | .split _ _ first second =>
    match direction with
    | .left | .up => edgeLeaf direction second
    | .right | .down => edgeLeaf direction first

/-- What one split of the path says: the leaf across it, where it splits in
the direction and the path is not yet on that side. -/
def across (direction : FocusDirection)
    (step : SplitDirection × PathSide × SplitTree Id) : Option Id :=
  let (splitDir, side, sibling) := step
  if directionMatchesSplit splitDir direction then
    let wantFirst := directionWantsFirst direction
    let currentlyFirst := decide (side = .first)
    if currentlyFirst != wantFirst then some (edgeLeaf direction sibling)
    else none
  else none

def directionalFocus (tree : SplitTree Id) (current : Id)
    (direction : FocusDirection) : Option Id :=
  match buildPathTo current tree with
  | none => none
  | some path => path.reverse.findSome? (across direction)

end Model

-- ==== the path

section Path

variable [DecidableEq Id] {current : Id} {direction : FocusDirection}

theorem buildPathTo_eq_none {tree : SplitTree Id} :
    buildPathTo current tree = none ↔ current ∉ tree.leaves := by
  induction tree with
  | leaf id =>
    unfold buildPathTo
    by_cases hid : id = current
    · simp [hid]
    · simp [hid, Ne.symm hid]
  | split dir ratio first second ihFirst ihSecond =>
    unfold buildPathTo
    rw [SplitTree.leaves_split, mem_append, not_or, ← ihFirst, ← ihSecond]
    cases buildPathTo current first <;> simp

theorem directionalFocus_leaf (id : Id) :
    directionalFocus (.leaf id) current direction = none := by
  unfold directionalFocus buildPathTo
  by_cases hid : id = current
  · rw [if_pos hid]
    rfl
  · rw [if_neg hid]

/-- In the first side: what that side says, else the split itself. -/
theorem directionalFocus_first {ratio : Ratio}
    {first second : SplitTree Id} (h : current ∈ first.leaves) :
    directionalFocus (.split dir ratio first second) current direction
      = (directionalFocus first current direction).or
          (across direction (dir, .first, second)) := by
  unfold directionalFocus
  rw [buildPathTo]
  cases hpath : buildPathTo current first with
  | none => exact absurd h (buildPathTo_eq_none.1 hpath)
  | some path =>
    dsimp only
    rw [reverse_cons, findSome?_append, findSome?_singleton]

theorem directionalFocus_second {ratio : Ratio}
    {first second : SplitTree Id} (hfirst : current ∉ first.leaves)
    (h : current ∈ second.leaves) :
    directionalFocus (.split dir ratio first second) current direction
      = (directionalFocus second current direction).or
          (across direction (dir, .second, first)) := by
  unfold directionalFocus
  rw [buildPathTo, buildPathTo_eq_none.2 hfirst]
  cases hpath : buildPathTo current second with
  | none => exact absurd h (buildPathTo_eq_none.1 hpath)
  | some path =>
    dsimp only [Option.map_some]
    rw [reverse_cons, findSome?_append, findSome?_singleton]

end Path

end BinaryTree

-- ==== the edges

namespace FocusDirection

/-- The axis that a direction goes along. -/
def axis : FocusDirection → SplitDirection
  | left | right => .vertical
  | up | down => .horizontal

def opposite : FocusDirection → FocusDirection
  | left => right
  | right => left
  | up => down
  | down => up

variable {K : Type} [Field K]

/-- Where the edge of a rectangle in a direction lies. -/
def edge (rect : PhysicalRect K) : FocusDirection → K
  | left => rect.x
  | right => rect.x + rect.width
  | up => rect.y
  | down => rect.y + rect.height

variable [LinearOrder K]

/-- `other` lies wholly in the direction from `rect`. -/
def Beyond (rect other : PhysicalRect K) : FocusDirection → Prop
  | left => other.x + other.width ≤ rect.x
  | right => rect.x + rect.width ≤ other.x
  | up => other.y + other.height ≤ rect.y
  | down => rect.y + rect.height ≤ other.y

/-- The edge of a rectangle in the direction lies on the opposite edge of the
divider, all along. -/
def Touches (rect divider : PhysicalRect K) (direction : FocusDirection) :
    Prop :=
  edge rect direction = edge divider direction.opposite
    ∧ match direction.axis with
      | .vertical => divider.y ≤ rect.y
          ∧ rect.y + rect.height ≤ divider.y + divider.height
      | .horizontal => divider.x ≤ rect.x
          ∧ rect.x + rect.width ≤ divider.x + divider.width

variable {rect other divider : PhysicalRect K} {direction : FocusDirection}

@[simp] theorem axis_opposite : direction.opposite.axis = direction.axis := by
  cases direction <;> rfl

@[simp] theorem wantsFirst_opposite :
    directionWantsFirst direction.opposite = !directionWantsFirst direction := by
  cases direction <;> rfl

omit [LinearOrder K] in
theorem edge_of_first (h : directionWantsFirst direction = true) :
    edge rect direction = rect.toBox.lo direction.axis := by
  cases direction <;> first | rfl | cases h

omit [LinearOrder K] in
theorem edge_of_second (h : directionWantsFirst direction = false) :
    edge rect direction = rect.toBox.hi direction.axis := by
  cases direction <;> first | rfl | cases h

theorem beyond_iff : Beyond rect other direction
    ↔ if directionWantsFirst direction then
        edge other direction.opposite ≤ edge rect direction
      else edge rect direction ≤ edge other direction.opposite := by
  cases direction <;> exact Iff.rfl

theorem touches_of_within
    (hedge : edge rect direction = edge divider direction.opposite)
    (hacross : ∀ i, i ≠ direction.axis → divider.toBox.lo i ≤ rect.toBox.lo i
      ∧ rect.toBox.hi i ≤ divider.toBox.hi i) :
    Touches rect divider direction := by
  refine ⟨hedge, ?_⟩
  cases direction with
  | left => exact hacross .horizontal nofun
  | right => exact hacross .horizontal nofun
  | up => exact hacross .vertical nofun
  | down => exact hacross .vertical nofun

theorem directionMatchesSplit_iff :
    directionMatchesSplit dir direction = true ↔ direction.axis = dir := by
  cases direction <;> cases dir <;> decide

theorem edge_of_within {middle whole : PhysicalRect K}
    (hrect : Box.Within rect.toBox middle.toBox)
    (hmiddle : Box.Within middle.toBox whole.toBox)
    (h : edge rect direction = edge whole direction) :
    edge rect direction = edge middle direction := by
  have hinner := hrect direction.axis
  have houter := hmiddle direction.axis
  by_cases hfirst : directionWantsFirst direction = true
  · rw [edge_of_first hfirst] at h ⊢
    rw [edge_of_first hfirst] at h ⊢
    exact le_antisymm (h.le.trans houter.1) hinner.1
  · rw [Bool.not_eq_true] at hfirst
    rw [edge_of_second hfirst] at h ⊢
    rw [edge_of_second hfirst] at h ⊢
    exact le_antisymm hinner.2 (houter.2.trans h.ge)

variable {dir : SplitDirection} {r1 r2 : PhysicalRect K}

theorem edge_first
    (hcut : Box.Cut dir rect.toBox r1.toBox divider.toBox r2.toBox)
    (h : direction.axis = dir → directionWantsFirst direction = true) :
    edge r1 direction = edge rect direction := by
  by_cases hfirst : directionWantsFirst direction = true
  · rw [edge_of_first hfirst, edge_of_first hfirst]
    by_cases haxis : direction.axis = dir
    · rw [haxis, hcut.lo_first]
    · exact (hcut.across_first _ haxis).1
  · have hother := hcut.across_first _ fun haxis => hfirst (h haxis)
    rw [Bool.not_eq_true] at hfirst
    rw [edge_of_second hfirst, edge_of_second hfirst]
    exact hother.2

theorem edge_second
    (hcut : Box.Cut dir rect.toBox r1.toBox divider.toBox r2.toBox)
    (h : direction.axis = dir → directionWantsFirst direction = false) :
    edge r2 direction = edge rect direction := by
  by_cases hfirst : directionWantsFirst direction = true
  · have hother := hcut.across_second direction.axis fun haxis => by
      rw [h haxis] at hfirst
      cases hfirst
    rw [edge_of_first hfirst, edge_of_first hfirst]
    exact hother.1
  · rw [Bool.not_eq_true] at hfirst
    rw [edge_of_second hfirst, edge_of_second hfirst]
    by_cases haxis : direction.axis = dir
    · rw [haxis, hcut.hi_second]
    · exact (hcut.across_second _ haxis).2

/-- Over the divider one comes in the direction from `near` to `far`. -/
structure Faces (direction : FocusDirection)
    (whole near divider far : PhysicalRect K) : Prop where
  near_within : Box.Within near.toBox whole.toBox
  far_within : Box.Within far.toBox whole.toBox
  inner : edge near direction ≠ edge whole direction
  near_edge : edge near direction = edge divider direction.opposite
  far_edge : edge far direction.opposite = edge divider direction
  beyond : Beyond near far direction
  along : ∀ i, i ≠ direction.axis → divider.toBox.lo i = whole.toBox.lo i
    ∧ divider.toBox.hi i = whole.toBox.hi i

theorem faces_second (hfirst : directionWantsFirst direction = false)
    (hcut : Box.Cut direction.axis rect.toBox r1.toBox divider.toBox
      r2.toBox) : Faces direction rect r1 divider r2 := by
  have hopposite : directionWantsFirst direction.opposite = true := by
    rw [wantsFirst_opposite, hfirst]
    rfl
  refine ⟨hcut.within_first, hcut.within_second, ?_, ?_, ?_, ?_,
    hcut.across_gap⟩
  · rw [edge_of_second hfirst, edge_of_second hfirst, ← hcut.hi_second]
    exact (hcut.first_le_second.trans_lt hcut.second_lt).ne
  · rw [edge_of_second hfirst, edge_of_first hopposite, axis_opposite]
    exact hcut.hi_first
  · rw [edge_of_first hopposite, edge_of_second hfirst, axis_opposite]
    exact hcut.hi_gap.symm
  · rw [beyond_iff, hfirst, edge_of_second hfirst, edge_of_first hopposite,
      axis_opposite]
    exact hcut.first_le_second

theorem faces_first (hfirst : directionWantsFirst direction = true)
    (hcut : Box.Cut direction.axis rect.toBox r1.toBox divider.toBox
      r2.toBox) : Faces direction rect r2 divider r1 := by
  have hopposite : directionWantsFirst direction.opposite = false := by
    rw [wantsFirst_opposite, hfirst]
    rfl
  refine ⟨hcut.within_second, hcut.within_first, ?_, ?_, ?_, ?_,
    hcut.across_gap⟩
  · rw [edge_of_first hfirst, edge_of_first hfirst, ← hcut.lo_first]
    exact (hcut.first_lt.trans_le hcut.first_le_second).ne'
  · rw [edge_of_first hfirst, edge_of_second hopposite, axis_opposite]
    exact hcut.hi_gap.symm
  · rw [edge_of_second hopposite, edge_of_first hfirst, axis_opposite]
    exact hcut.hi_first
  · rw [beyond_iff, hfirst, edge_of_first hfirst, edge_of_second hopposite,
      axis_opposite]
    exact hcut.first_le_second

theorem Faces.meets {whole near far r r' : PhysicalRect K}
    (h : Faces direction whole near divider far)
    (hr : Box.Within r.toBox near.toBox) (hr' : Box.Within r'.toBox far.toBox)
    (hedge : edge r direction = edge near direction)
    (hedge' : edge r' direction.opposite = edge far direction.opposite) :
    Beyond r r' direction ∧ Touches r divider direction
      ∧ Touches r' divider direction.opposite := by
  refine ⟨?_, touches_of_within (hedge.trans h.near_edge) fun i hi => ?_,
    touches_of_within ?_ fun i hi => ?_⟩
  · have hbeyond := h.beyond
    rw [beyond_iff, ← hedge, ← hedge'] at hbeyond
    exact beyond_iff.2 hbeyond
  · rw [(h.along i hi).1, (h.along i hi).2]
    exact hr.trans h.near_within i
  · have htwice : direction.opposite.opposite = direction := by
      cases direction <;> rfl
    rw [htwice]
    exact hedge'.trans h.far_edge
  · rw [axis_opposite] at hi
    rw [(h.along i hi).1, (h.along i hi).2]
    exact hr'.trans h.far_within i

end FocusDirection

namespace BinaryTree

open FocusDirection

variable {Id K : Type}

-- ==== across a split

variable {direction : FocusDirection} {sibling : SplitTree Id}

theorem across_first
    :
    across direction (dir, .first, sibling)
      = if direction.axis = dir ∧ directionWantsFirst direction = false then
          some (edgeLeaf direction sibling) else none := by
  unfold across
  by_cases haxis : direction.axis = dir
  · simp [directionMatchesSplit_iff, haxis]
  · simp [directionMatchesSplit_iff, haxis]

theorem across_second
    :
    across direction (dir, .second, sibling)
      = if direction.axis = dir ∧ directionWantsFirst direction = true then
          some (edgeLeaf direction sibling) else none := by
  unfold across
  by_cases haxis : direction.axis = dir
  · simp [directionMatchesSplit_iff, haxis]
  · simp [directionMatchesSplit_iff, haxis]

theorem edgeLeaf_split (dir : SplitDirection) (ratio : Ratio)
    (first second : SplitTree Id) :
    edgeLeaf direction (.split dir ratio first second)
      = edgeLeaf direction
        (if directionWantsFirst direction then second else first) := by
  cases direction <;> rfl

variable [Field K] [LinearOrder K] [FloorRing K] {value : Ratio → K} {gap : K}

variable {rect : PhysicalRect K}

theorem mem_leaves_of_rect {tree : SplitTree Id}
    {e : Id × PhysicalRect K} (he : e ∈ computeRects value gap rect tree) :
    e.1 ∈ tree.leaves := by
  induction tree generalizing rect with
  | leaf id =>
    rw [mem_singleton.1 he]
    exact mem_cons_self
  | split dir ratio first second ihFirst ihSecond =>
    rcases hsplit : rect.splitWithGap dir (value ratio) gap with ⟨r1, r2⟩
    rw [computeRects_split hsplit] at he
    rw [SplitTree.leaves_split, mem_append]
    exact (mem_append.1 he).imp ihFirst ihSecond

variable [IsStrictOrderedRing K]

theorem edgeLeaf_rect (hgap : 0 ≤ gap) (direction : FocusDirection)
    {tree : SplitTree Id} (h : AllPositive value gap rect tree) :
    ∃ r, (edgeLeaf direction tree, r) ∈ computeRects value gap rect tree
      ∧ edge r direction.opposite = edge rect direction.opposite := by
  induction tree generalizing rect with
  | leaf id => exact ⟨rect, mem_cons_self, rfl⟩
  | split dir ratio first second ihFirst ihSecond =>
    rcases hsplit : rect.splitWithGap dir (value ratio) gap with ⟨r1, r2⟩
    obtain ⟨h1, h2⟩ := h.sides hsplit
    have hcut := h.cut hgap hsplit
    rw [computeRects_split hsplit]
    by_cases hfirst : directionWantsFirst direction = true
    · rw [edgeLeaf_split, if_pos hfirst]
      obtain ⟨r, hr, hedge⟩ := ihSecond h2
      refine ⟨r, mem_append_right _ hr, hedge.trans ?_⟩
      exact edge_second hcut fun _ => by rw [wantsFirst_opposite, hfirst]; rfl
    · rw [edgeLeaf_split, if_neg hfirst]
      rw [Bool.not_eq_true] at hfirst
      obtain ⟨r, hr, hedge⟩ := ihFirst h1
      refine ⟨r, mem_append_left _ hr, hedge.trans ?_⟩
      exact edge_first hcut fun _ => by rw [wantsFirst_opposite, hfirst]; rfl

-- ==== focus

/-- What the focus does from the leaf `current` with rectangle `r`: it stays
exactly at the outer edge, and else goes to a leaf in the direction that faces
the same divider. -/
structure Focuses [DecidableEq Id] (value : Ratio → K) (gap : K)
    (rect : PhysicalRect K) (tree : SplitTree Id) (current : Id)
    (r : PhysicalRect K) (direction : FocusDirection) : Prop where
  none_iff : directionalFocus tree current direction = none
    ↔ edge r direction = edge rect direction
  moves : ∀ other, directionalFocus tree current direction = some other →
    ∃ r', (other, r') ∈ computeRects value gap rect tree
      ∧ Beyond r r' direction
      ∧ ∃ d ∈ collectDividers value gap rect tree,
        Touches r d direction ∧ Touches r' d direction.opposite

/-- What an answer to the question where the focus goes is worth. -/
structure Answers (value : Ratio → K) (gap : K) (rect : PhysicalRect K)
    (tree : SplitTree Id) (r : PhysicalRect K) (direction : FocusDirection)
    (answer : Option Id) : Prop where
  none_iff : answer = none ↔ edge r direction = edge rect direction
  moves : ∀ other, answer = some other →
    ∃ r', (other, r') ∈ computeRects value gap rect tree
      ∧ Beyond r r' direction
      ∧ ∃ d ∈ collectDividers value gap rect tree,
        Touches r d direction ∧ Touches r' d direction.opposite

section Sides

variable {side tree : SplitTree Id} {rect near far r d : PhysicalRect K}
  {direction : FocusDirection} {answer next : Option Id}

omit [IsStrictOrderedRing K] in
theorem Answers.of_none (h : edge r direction = edge rect direction) :
    Answers value gap rect tree r direction none where
  none_iff := iff_of_true rfl h
  moves := fun _ ho => by cases ho

theorem Answers.across (hgap : 0 ≤ gap)
    (hfaces : Faces direction rect near d far)
    (hfar : AllPositive value gap far side) (hr : Box.Within r.toBox near.toBox)
    (hedge : edge r direction = edge near direction)
    (hrects : computeRects value gap far side
      ⊆ computeRects value gap rect tree)
    (hd : d ∈ collectDividers value gap rect tree) :
    Answers value gap rect tree r direction
      (some (edgeLeaf direction side)) := by
  obtain ⟨r', hr', hface⟩ := edgeLeaf_rect hgap direction hfar
  obtain ⟨hbeyond, htouch⟩ :=
    hfaces.meets hr (within hgap hfar hr') hedge hface
  constructor
  · rw [hedge]
    exact iff_of_false (fun h => by cases h) hfaces.inner
  · intro other hother
    cases hother
    exact ⟨r', hrects hr', hbeyond, d, hd, htouch⟩

omit [IsStrictOrderedRing K] in
/-- What a side answers stands in the whole; where it has no answer, the
split itself gives one. -/
theorem Answers.or (h : Answers value gap near side r direction answer)
    (hr : Box.Within r.toBox near.toBox)
    (hnear : Box.Within near.toBox rect.toBox)
    (hrects : computeRects value gap near side
      ⊆ computeRects value gap rect tree)
    (hdividers : collectDividers value gap near side
      ⊆ collectDividers value gap rect tree)
    (hnext : edge r direction = edge near direction →
      Answers value gap rect tree r direction next) :
    Answers value gap rect tree r direction (answer.or next) := by
  cases answer with
  | some other =>
    rw [Option.some_or]
    constructor
    · refine iff_of_false (fun h => by cases h) fun hedge => ?_
      cases h.none_iff.2 (edge_of_within hr hnear hedge)
    · intro o ho
      obtain ⟨r', hr', hbeyond, d, hd, htouch⟩ := h.moves o ho
      exact ⟨r', hrects hr', hbeyond, d, hdividers hd, htouch⟩
  | none =>
    rw [Option.none_or]
    exact hnext (h.none_iff.1 rfl)

end Sides

theorem focuses [DecidableEq Id] (hgap : 0 ≤ gap) {tree : SplitTree Id}
    (hids : tree.leaves.Nodup)
    (h : AllPositive value gap rect tree) {current : Id} {r : PhysicalRect K}
    (hr : (current, r) ∈ computeRects value gap rect tree)
    (direction : FocusDirection) : Answers value gap rect tree r direction
      (directionalFocus tree current direction) := by
  induction tree generalizing rect with
  | leaf id =>
    cases mem_singleton.1 hr
    rw [directionalFocus_leaf]
    exact .of_none rfl
  | split dir ratio first second ihFirst ihSecond =>
    rcases hsplit : rect.splitWithGap dir (value ratio) gap with ⟨r1, r2⟩
    obtain ⟨h1, h2⟩ := h.sides hsplit
    have hcut := h.cut hgap hsplit
    rw [SplitTree.leaves_split] at hids
    obtain ⟨hidsFirst, hidsSecond, hdisjoint⟩ := nodup_append'.1 hids
    have hrects := computeRects_split hsplit first second
    have hdividers := collectDividers_split hsplit first second
    have hd : divider gap dir rect r1
        ∈ collectDividers value gap rect (.split dir ratio first second) := by
      rw [hdividers]
      exact mem_cons_self
    have hsub1 : computeRects value gap r1 first
        ⊆ computeRects value gap rect (.split dir ratio first second) := by
      rw [hrects]
      exact subset_append_left _ _
    have hsub2 : computeRects value gap r2 second
        ⊆ computeRects value gap rect (.split dir ratio first second) := by
      rw [hrects]
      exact subset_append_right _ _
    rw [hrects] at hr
    rcases mem_append.1 hr with hr | hr
    · have hwithin := within hgap h1 hr
      rw [directionalFocus_first (mem_leaves_of_rect hr)]
      refine (ihFirst hidsFirst h1 hr).or hwithin hcut.within_first hsub1
        (fun e he => hdividers ▸ mem_cons_of_mem _
          (mem_append_left _ he)) fun hedge => ?_
      rw [across_first]
      split
      · rename_i hstep
        obtain ⟨rfl, hfirst⟩ := hstep
        exact .across hgap (faces_second hfirst hcut) h2 hwithin hedge hsub2
          hd
      · rename_i hstep
        refine .of_none (hedge.trans (edge_first hcut fun haxis => ?_))
        rw [← Bool.not_eq_false]
        exact fun hfirst => hstep ⟨haxis, hfirst⟩
    · have hwithin := within hgap h2 hr
      have hapart : current ∉ first.leaves := fun hin =>
        hdisjoint hin (mem_leaves_of_rect hr)
      rw [directionalFocus_second hapart (mem_leaves_of_rect hr)]
      refine (ihSecond hidsSecond h2 hr).or hwithin hcut.within_second hsub2
        (fun e he => hdividers ▸ mem_cons_of_mem _
          (mem_append_right _ he)) fun hedge => ?_
      rw [across_second]
      split
      · rename_i hstep
        obtain ⟨rfl, hfirst⟩ := hstep
        exact .across hgap (faces_first hfirst hcut) h1 hwithin hedge hsub1
          hd
      · rename_i hstep
        refine .of_none (hedge.trans (edge_second hcut fun haxis => ?_))
        rw [← Bool.not_eq_true]
        exact fun hfirst => hstep ⟨haxis, hfirst⟩

/-- The rectangles of the leaves and of the dividers are pairwise apart and
together the whole; a preview with the ratios of the tree shows the same; and
the focus moves as the rectangles lie. -/
theorem layout_is_geometric [DecidableEq Id] (value : Ratio → K) (gap : K)
    (hgap : 0 ≤ gap) (tree : SplitTree Id) (hids : tree.leaves.Nodup)
    (rect : PhysicalRect K)
    (hpositive : ∀ e ∈ computeRects value gap rect tree, e.2.Positive) :
    (pieces value gap rect tree).Pairwise
        (fun a b => ∀ x y, ¬ (a.Contains x y ∧ b.Contains x y))
      ∧ (∀ x y, rect.Contains x y
        ↔ ∃ piece ∈ pieces value gap rect tree, piece.Contains x y)
      ∧ (previewGeometry value gap (fun _ ratio => ratio) rect tree).leaves
        = computeRects value gap rect tree
      ∧ ∀ current r, (current, r) ∈ computeRects value gap rect tree →
        ∀ direction, Focuses value gap rect tree current r direction := by
  have htiles := tiles hgap hpositive
  refine ⟨?_, fun x y => ?_, ?_, fun current r hr direction =>
    let h := focuses hgap hids hpositive hr direction
    ⟨h.none_iff, h.moves⟩⟩
  · refine (List.pairwise_map.1 htiles.apart).imp fun hapart x y hboth => ?_
    exact hapart (PhysicalRect.point x y)
      ⟨PhysicalRect.contains_iff.1 hboth.1, PhysicalRect.contains_iff.1 hboth.2⟩
  · rw [PhysicalRect.contains_iff, htiles.covers]
    simp only [List.mem_map, exists_exists_and_eq_and, PhysicalRect.contains_iff]
  · exact leaves_visit value gap tree rect [] ⟨[], []⟩

/-- A wide window in two halves, the left one over another. -/
def halves : SplitTree UInt32 :=
  .split .vertical ⟨0x3F000000⟩
    (.split .horizontal ⟨0x3F000000⟩ (.leaf 1) (.leaf 2)) (.leaf 3)

theorem layout_is_geometric_halves :
    directionalFocus halves 3 .left = some 2
      ∧ Focuses (fun _ => (1 / 2 : ℚ)) 2 ⟨0, 0, 101, 52⟩ halves 3
        ⟨51, 0, 50, 52⟩ .left :=
  ⟨by decide, (layout_is_geometric (fun _ => (1 / 2 : ℚ)) 2 (by decide +kernel)
    halves (by decide) ⟨0, 0, 101, 52⟩ (by decide +kernel)).2.2.2 3
      ⟨51, 0, 50, 52⟩ (by decide +kernel) .left⟩

end BinaryTree

end Tasty.Layout
