/-
The layout of one graph of tasks (`engine.rs`, `routing.rs`) in exact
arithmetic. The layout library is a parameter: whatever coordinates it
returns, cards are spaced anew in each layer, components are put side by side,
and an edge over several layers bends where a layer has room.
-/
import Mathlib.Algebra.Order.Field.Basic
import Mathlib.Data.List.Sort

namespace Tasty.Dag

inductive Orientation where
  | leftRight
  | topDown
  deriving DecidableEq

structure LayoutConfig (K : Type) where
  orientation : Orientation
  /-- Width and height of a card on the screen. -/
  nodeSize : K × K
  layerGap : K
  siblingGap : K
  componentGap : K

/-- Sizes along the axis of the siblings (`cross`) and that of the layers
(`along`). -/
structure Metrics (K : Type) where
  crossExtent : K
  alongExtent : K
  layerGap : K
  siblingGap : K

/-- The place of one card: its layer, the centre of the card among the
siblings, and its component. -/
structure Placed (K : Type) where
  layer : Nat
  cross : K
  component : Nat

/-- `(usize, u32, f32)`: a card before its component has a place. -/
structure Node (K : Type) where
  id : Nat
  layer : Nat
  cross : K

structure NodePosition (K : Type) where
  id : String
  x : K
  y : K
  layer : Nat

/-- `RawRoute` and `EdgeRoute`. -/
structure EdgeRoute (K : Type) where
  source : Nat
  target : Nat
  points : List (K × K)
  back : Bool

structure GraphLayout (K : Type) where
  nodes : List (NodePosition K)
  edges : List (EdgeRoute K)
  width : K
  height : K

/-- `rust_sugiyama`: the number of nodes, the edges and the sizes to lists of
cards with coordinates, one list for each component; `none` for a panic. -/
abbrev Library (K : Type) :=
  Nat → List (Nat × Nat) → Metrics K → Option (List (List (Nat × K × K)))

variable {K : Type} [Field K] [LinearOrder K]

def metrics (cfg : LayoutConfig K) : Metrics K :=
  let (crossExtent, alongExtent) :=
    match cfg.orientation with
    | .topDown => (cfg.nodeSize.1, cfg.nodeSize.2)
    | .leftRight => (cfg.nodeSize.2, cfg.nodeSize.1)
  { crossExtent := max crossExtent 0
    alongExtent := max alongExtent 0
    layerGap := max cfg.layerGap 0
    siblingGap := max cfg.siblingGap 0 }

def sanitize (edges : List (Nat × Nat)) (n : Nat) : List (Nat × Nat) :=
  edges.foldl (fun out e =>
    if e.1 = e.2 ∨ n ≤ e.1 ∨ n ≤ e.2 ∨ e ∈ out then out else out ++ [e]) []

-- ==== one component

/-- `Vec::dedup_by`: what is the same as the last one kept goes. -/
def dedupBy (same : K → K → Bool) : List K → List K
  | [] => []
  | y :: ys => y :: go y ys
where
  go : K → List K → List K
    | _, [] => []
    | last, y :: ys => if same y last then go last ys else y :: go y ys

/-- The same `y` up to the tolerance of the library. -/
def sameY (a b : K) : Bool := |a - b| < 1 / 1000000

/-- The cards of one component with layers for their `y` and the leftmost
card at 0. -/
def toComponent (component : List (Nat × K × K)) (m : Metrics K) :
    Option (List (Node K)) :=
  let ys := dedupBy sameY ((component.map (·.2.2)).insertionSort (· ≤ ·))
  let xs := component.map (·.2.1)
  let minX := xs.foldl min (xs.headD 0)
  component.mapM fun (id, x, y) => do
    let layer ← ys.findIdx? (sameY · y)
    if layer < 2 ^ 32 then
      some ⟨id, layer, x - minX + m.crossExtent / 2⟩
    else none

def minSeparation (m : Metrics K) : K := m.crossExtent + m.siblingGap / 2

/-- One layer from its first slot on: a slot that is too close to the one
before it moves away from it. -/
def pushApart (separation : K) : List Nat → (Nat → K) → Nat → K
  | previous :: current :: slots, cross =>
    let cross :=
      if cross current < cross previous + separation then
        Function.update cross current (cross previous + separation)
      else cross
    pushApart separation (current :: slots) cross
  | _, cross => cross

/-- The slots of a layer by their centres, then by their number. -/
def slots (nodes : List (Node K)) (layer : Nat) (cross : Nat → K) : List Nat :=
  let mine := (List.range nodes.length).filter fun i =>
    (nodes[i]?.map Node.layer) = some layer
  mine.insertionSort fun a b =>
    cross a < cross b ∨ (cross a = cross b ∧ a ≤ b)

def enforceSeparation (nodes : List (Node K)) (m : Metrics K) :
    List (Node K) :=
  let layers := ((nodes.map Node.layer).dedup).insertionSort (· ≤ ·)
  let cross := layers.foldl
    (fun cross layer =>
      pushApart (minSeparation m) (slots nodes layer cross) cross)
    (fun i => (nodes[i]?.map Node.cross).getD 0)
  nodes.mapIdx fun i node => { node with cross := cross i }

-- ==== all components

/-- The inner loop of `place_components`, with the width so far. -/
def placeNodes (m : Metrics K) (component : Nat) (offset : K) :
    List (Node K) → K → List (Option (Placed K)) →
      Option (List (Option (Placed K)) × K)
  | [], span, placed => some (placed, span)
  | node :: nodes, span, placed =>
    match placed[node.id]? with
    -- an id that is not in the input, or one in two places
    | none | some (some _) => none
    | some none =>
      placeNodes m component offset nodes
        (max span (node.cross + m.crossExtent / 2))
        (placed.set node.id
          (some ⟨node.layer, node.cross + offset, component⟩))

/-- How far the nodes of a component reach. -/
def spanOf (m : Metrics K) (span : K) (nodes : List (Node K)) : K :=
  nodes.foldl (fun span node => max span (node.cross + m.crossExtent / 2)) span

def placeComponents (m : Metrics K) (componentGap : K) :
    Nat → K → List (List (Node K)) → List (Option (Placed K)) →
      Option (List (Placed K))
  | _, _, [], placed => placed.mapM id
  | component, offset, nodes :: rest, placed => do
      let (placed, span) ← placeNodes m component offset nodes 0 placed
      placeComponents m componentGap (component + 1)
        (offset + (span + componentGap)) rest placed

/-- The least id of a component. -/
def firstId (nodes : List (Node K)) : Nat :=
  (nodes.map Node.id).foldl min ((nodes.map Node.id).headD (2 ^ 64 - 1))

def callLibrary (library : Library K) (n : Nat) (edges : List (Nat × Nat))
    (m : Metrics K) : Option (List (List (Nat × K × K))) :=
  if n ≤ 2 ^ 32 then library n edges m else none

def solve (library : Library K) (n : Nat) (edges : List (Nat × Nat))
    (m : Metrics K) (componentGap : K) : Option (List (Placed K)) := do
  let layouts ← callLibrary library n edges m
  let components ← (layouts.filter (· ≠ [])).mapM fun component => do
    let nodes ← toComponent component m
    some (enforceSeparation nodes m)
  placeComponents m componentGap 0 0
    (components.insertionSort fun a b => firstId a ≤ firstId b)
    (List.replicate n none)

/-- `sqrt().ceil()`, at least 1. -/
def gridColumns (n : Nat) : Nat :=
  max (if n.sqrt * n.sqrt = n then n.sqrt else n.sqrt + 1) 1

/-- A grid that is nearly a square, for a library that cannot be trusted. -/
def gridFallback (n : Nat) (m : Metrics K) : List (Placed K) :=
  let columns := gridColumns n
  (List.range n).map fun i =>
    { layer := min (i / columns) (2 ^ 32 - 1)
      cross := (i % columns : Nat) * (m.crossExtent + m.siblingGap)
        + m.crossExtent / 2
      component := 0 }

-- ==== routes

def alongCenter (layer : Nat) (m : Metrics K) : K :=
  layer * (m.alongExtent + m.layerGap) + m.alongExtent / 2

/-- `build_channels`: the centres of one layer of one component in order. -/
def lane (placed : List (Placed K)) (component layer : Nat) : List K :=
  ((placed.filter fun p => p.component = component ∧ p.layer = layer).map
    Placed.cross).insertionSort (· ≤ ·)

def clearance (m : Metrics K) : K := m.crossExtent / 2 + m.siblingGap / 4

def outside (m : Metrics K) : K := m.crossExtent / 2 + m.siblingGap / 2

def IsFree (occupied : List K) (m : Metrics K) (c : K) : Prop :=
  ∀ o ∈ occupied, clearance m ≤ |c - o|

instance (occupied : List K) (m : Metrics K) (c : K) :
    Decidable (IsFree occupied m c) :=
  inferInstanceAs (Decidable (∀ o ∈ occupied, _))

/-- Between two neighbours, then before the first and after the last. -/
def candidates (occupied : List K) (m : Metrics K) : List K :=
  (List.zipWith (fun a b => (a + b) / 2) occupied occupied.tail)
    ++ occupied.head?.toList.map (· - outside m)
    ++ occupied.getLast?.toList.map (· + outside m)

/-- `consider` over the candidates: the nearest free one, the first of two
that are as near. -/
def bestChannel (occupied : List K) (target : K) (m : Metrics K) : Option K :=
  (candidates occupied m).foldl
    (fun best c =>
      if IsFree occupied m c ∧ ∀ b ∈ best, |c - target| < |b - target| then
        some c
      else best)
    none

def freeChannel (occupied : List K) (target : K) (m : Metrics K) : K :=
  if occupied = [] ∨ IsFree occupied m target then target
  else
    match bestChannel occupied target m with
    | some best => best
    -- the last resort
    | none => (occupied.getLast?.map (· + outside m)).getD target

def sameLayer (source target : Placed K) (m : Metrics K) : List (K × K) :=
  let along := alongCenter source.layer m
  let direction : K := if source.cross ≤ target.cross then 1 else -1
  let half := m.crossExtent / 2
  [(source.cross + direction * half, along),
    (target.cross - direction * half, along)]

/-- The layers between two layers, from the first one on. -/
def between (source target : Nat) : List Nat :=
  if source < target then List.range' (source + 1) (target - source - 1)
  else (List.range' (target + 1) (source - target - 1)).reverse

/-- Where the edge would pass a layer: the part of the way is signed, its
length is not. -/
def passing (source target : Placed K) (layer : Nat) : K :=
  let t : K := ((layer : K) - source.layer)
    / |(target.layer : K) - source.layer|
  source.cross + (target.cross - source.cross) * t

def bend (channels : Nat → List K) (source target : Placed K) (m : Metrics K)
    (layer : Nat) : K × K :=
  (freeChannel (channels layer) (passing source target layer) m,
    alongCenter layer m)

def route (source target : Placed K) (channels : Nat → List K)
    (m : Metrics K) : List (K × K) :=
  if source.layer = target.layer then sameLayer source target m
  else
    let half := m.alongExtent / 2
    let sign : K := if source.layer < target.layer then 1 else -1
    (source.cross, alongCenter source.layer m + sign * half)
      :: (between source.layer target.layer).map (bend channels source target m)
      ++ [(target.cross, alongCenter target.layer m - sign * half)]

def buildRoutes (edges : List (Nat × Nat)) (placed : List (Placed K))
    (m : Metrics K) : List (EdgeRoute K) :=
  edges.filterMap fun (a, b) => do
    let pa ← placed[a]?
    let pb ← placed[b]?
    some
      { source := a
        target := b
        back := pb.layer ≤ pa.layer
        points := route pa pb (lane placed pa.component) m }

-- ==== the screen

def toScreen (cfg : LayoutConfig K) (cross along : K) : K × K :=
  match cfg.orientation with
  | .topDown => (cross, along)
  | .leftRight => (along, cross)

def centers (cfg : LayoutConfig K) (placed : List (Placed K)) : List (K × K) :=
  placed.map fun p => toScreen cfg p.cross (alongCenter p.layer (metrics cfg))

def boundingBox (cfg : LayoutConfig K) (centers : List (K × K))
    (routes : List (EdgeRoute K)) : (K × K) × (K × K) :=
  let half := (cfg.nodeSize.1 / 2, cfg.nodeSize.2 / 2)
  let bumps :=
    centers.flatMap (fun c =>
      [(c.1 - half.1, c.2 - half.2), (c.1 + half.1, c.2 + half.2)])
    ++ routes.flatMap fun r => r.points.map fun p => toScreen cfg p.1 p.2
  match bumps with
  | [] => ((0, 0), (0, 0))
  | p :: ps =>
    (ps.foldl (fun a b => (min a.1 b.1, min a.2 b.2)) p,
      ps.foldl (fun a b => (max a.1 b.1, max a.2 b.2)) p)

def finish (nodeIds : List String) (edges : List (Nat × Nat))
    (placed : List (Placed K)) (cfg : LayoutConfig K) : GraphLayout K :=
  let routes := buildRoutes edges placed (metrics cfg)
  let (low, high) := boundingBox cfg (centers cfg placed) routes
  { nodes := (nodeIds.zip (placed.zip (centers cfg placed))).map
      fun (id, p, center) =>
        { id
          x := center.1 - cfg.nodeSize.1 / 2 - low.1
          y := center.2 - cfg.nodeSize.2 / 2 - low.2
          layer := p.layer }
    edges := routes.map fun r =>
      { r with
        points := r.points.map fun p =>
          ((toScreen cfg p.1 p.2).1 - low.1, (toScreen cfg p.1 p.2).2 - low.2) }
    width := high.1 - low.1
    height := high.2 - low.2 }

/-- The places of all cards: those of the library, or the grid. -/
def placement (library : Library K) (n : Nat) (edges : List (Nat × Nat))
    (cfg : LayoutConfig K) : List (Placed K) :=
  (solve library n (sanitize edges n) (metrics cfg) cfg.componentGap).getD
    (gridFallback n (metrics cfg))

def layoutDag (library : Library K) (nodeIds : List String)
    (edges : List (Nat × Nat)) (cfg : LayoutConfig K) : GraphLayout K :=
  if nodeIds = [] then ⟨[], [], 0, 0⟩
  else
    finish nodeIds (sanitize edges nodeIds.length)
      (placement library nodeIds.length edges cfg) cfg

end Tasty.Dag
