/-
What the drawn layout keeps: no two cards overlap, and no bend of an edge is
within a card of the component that the edge starts from. A lane in order
always has room before its first card, so that `freeChannel` finds a channel.
-/
import Tasty.Dag.Spacing

namespace Tasty.Dag

open List hiding getElem?_eq_some_iff

variable {K : Type} [Field K] [LinearOrder K] [IsStrictOrderedRing K]
  {m : Metrics K} {occupied : List K} {target : K}

-- ==== channels

/-- The branch of `freeChannel` after all candidates failed. -/
def LastResort (occupied : List K) (target : K) (m : Metrics K) : Prop :=
  ¬ (occupied = [] ∨ IsFree occupied m target)
    ∧ bestChannel occupied target m = none

omit [IsStrictOrderedRing K] in
/-- What `consider` keeps is free, and it keeps one as soon as one is. -/
theorem consider_spec {candidates : List K} (target : K) (best : Option K)
    (hbest : ∀ b ∈ best, IsFree occupied m b) :
    let found := candidates.foldl
      (fun best c =>
        if IsFree occupied m c ∧ ∀ b ∈ best, |c - target| < |b - target| then
          some c
        else best)
      best
    (∀ b ∈ found, IsFree occupied m b)
      ∧ (best.isSome ∨ (∃ c ∈ candidates, IsFree occupied m c) →
        found.isSome) := by
  induction candidates generalizing best with
  | nil =>
    refine ⟨hbest, fun h => h.resolve_right ?_⟩
    rintro ⟨c, hc, -⟩
    cases hc
  | cons c candidates ih =>
    rw [foldl_cons]
    split
    · rename_i hfree
      obtain ⟨hfound, hsome⟩ := ih (some c) fun b hb =>
        Option.some.inj hb ▸ hfree.1
      exact ⟨hfound, fun _ => hsome (.inl rfl)⟩
    · rename_i hnot
      obtain ⟨hfound, hsome⟩ := ih best hbest
      refine ⟨hfound, fun h => hsome ?_⟩
      rcases h with h | ⟨c', hmem, hfree⟩
      · exact .inl h
      · rcases mem_cons.1 hmem with rfl | hmem
        · cases best with
          | none => exact absurd ⟨hfree, nofun⟩ hnot
          | some b => exact .inl rfl
        · exact .inr ⟨c', hmem, hfree⟩

theorem Metrics.Nonneg.clearance_le (hm : m.Nonneg) :
    clearance m ≤ outside m := by
  have hgap := hm.siblingGap
  rw [clearance, outside]
  linarith

/-- There is room before the first card of a lane in order. -/
theorem before_free {first : K} {rest : List K} (hm : m.Nonneg)
    (hsorted : (first :: rest).Pairwise (· ≤ ·)) :
    IsFree (first :: rest) m (first - outside m) := by
  have hle : ∀ o ∈ first :: rest, first ≤ o := by
    intro o ho
    rcases mem_cons.1 ho with rfl | ho
    · exact le_refl o
    · exact (pairwise_cons.1 hsorted).1 o ho
  intro o ho
  rw [abs_sub_comm]
  refine hm.clearance_le.trans (le_trans ?_ (le_abs_self _))
  have hfirst := hle o ho
  linarith

theorem not_lastResort (hm : m.Nonneg) (hsorted : occupied.Pairwise (· ≤ ·)) :
    ¬ LastResort occupied target m := by
  rintro ⟨hblocked, hnone⟩
  cases occupied with
  | nil => exact hblocked (.inl rfl)
  | cons first rest =>
    have hcandidate : first - outside m ∈ candidates (first :: rest) m :=
      mem_append_left _ (mem_append_right _ (.head _))
    have hsome := (consider_spec target none nofun).2
      (.inr ⟨_, hcandidate, before_free hm hsorted⟩)
    rw [← bestChannel, hnone] at hsome
    cases hsome

/-- The channel is clear of the cards of its lane. -/
theorem freeChannel_free (hm : m.Nonneg)
    (hsorted : occupied.Pairwise (· ≤ ·)) (target : K) :
    IsFree occupied m (freeChannel occupied target m) := by
  rw [freeChannel]
  split
  · rename_i h
    rcases h with rfl | h
    · exact nofun
    · exact h
  · rename_i hblocked
    cases hbest : bestChannel occupied target m with
    | some best => exact (consider_spec target none nofun).1 best hbest
    | none => exact absurd ⟨hblocked, hbest⟩ (not_lastResort hm hsorted)

omit [Field K] [IsStrictOrderedRing K] in
theorem lane_sorted (placed : List (Placed K)) (component layer : Nat) :
    (lane placed component layer).Pairwise (· ≤ ·) :=
  pairwise_insertionSort (· ≤ ·) _

variable {placed : List (Placed K)}

omit [Field K] [IsStrictOrderedRing K] in
theorem mem_lane {p : Placed K} (hp : p ∈ placed) :
    p.cross ∈ lane placed p.component p.layer :=
  (mem_insertionSort _).2 (mem_map_of_mem
    (mem_filter.2 ⟨hp, decide_eq_true ⟨rfl, rfl⟩⟩))

-- ==== routes

omit [IsStrictOrderedRing K] in
theorem bend_of_interior {source target : Placed K} {channels : Nat → List K}
    {point : K × K}
    (h : point ∈ (route source target channels m).tail.dropLast) :
    ∃ layer, point = bend channels source target m layer := by
  rw [route] at h
  split at h
  · cases h
  · rw [cons_append, tail_cons, dropLast_concat] at h
    obtain ⟨layer, -, rfl⟩ := mem_map.1 h
    exact ⟨layer, rfl⟩

/-- Two layers are at least a card apart. -/
theorem alongExtent_le (hm : m.Nonneg) {a b : Nat} (h : a ≠ b) :
    m.alongExtent ≤ |alongCenter a m - alongCenter b m| := by
  wlog hlt : a < b generalizing a b
  · rw [abs_sub_comm]
    exact this h.symm (lt_of_le_of_ne (not_lt.1 hlt) h.symm)
  have hcast : (a : K) + 1 ≤ b := by exact_mod_cast hlt
  have halong := hm.alongExtent
  have hgap := hm.layerGap
  have hstep := mul_le_mul_of_nonneg_right hcast (add_nonneg halong hgap)
  rw [abs_sub_comm, alongCenter, alongCenter, add_sub_add_right_eq_sub]
  refine le_trans ?_ (le_abs_self _)
  rw [add_mul, one_mul] at hstep
  linarith

/-- A bend keeps half a card from each card of the component that its edge
starts from, along one axis or the other. -/
theorem bend_clear (hm : m.Nonneg) {p source : Placed K} (hp : p ∈ placed)
    (hcomponent : p.component = source.component) (target : Placed K)
    (layer : Nat) :
    m.crossExtent * (1 / 2)
        ≤ |(bend (lane placed source.component) source target m layer).1
          - p.cross|
      ∨ m.alongExtent * (1 / 2)
        ≤ |(bend (lane placed source.component) source target m layer).2
          - alongCenter p.layer m| := by
  by_cases hlayer : p.layer = layer
  · have hlane := mem_lane hp
    rw [hcomponent, hlayer] at hlane
    have hfree := freeChannel_free hm
      (lane_sorted placed source.component layer)
      (passing source target layer) p.cross hlane
    have hgap := hm.siblingGap
    rw [clearance] at hfree
    exact .inl (le_trans (by linarith) hfree)
  · have halong := hm.alongExtent
    exact .inr (le_trans (by linarith)
      (alongExtent_le hm fun heq => hlayer heq.symm))

theorem Apart.away (hm : m.Nonneg) {p q : Placed K} (h : Apart m p q) :
    m.crossExtent * 1 ≤ |p.cross - q.cross|
      ∨ m.alongExtent * 1
        ≤ |alongCenter p.layer m - alongCenter q.layer m| := by
  rw [mul_one, mul_one]
  by_cases hcomponent : p.component = q.component
  · by_cases hlayer : p.layer = q.layer
    · exact .inl (hm.extent_le.trans (h.1 hcomponent hlayer))
    · exact .inr (alongExtent_le hm hlayer)
  · exact .inl (h.2 hcomponent)

-- ==== the screen

/-- Two cards of this size have a point inside both. -/
def Overlap (size : K × K) (a b : NodePosition K) : Prop :=
  a.x < b.x + size.1 ∧ b.x < a.x + size.1
    ∧ a.y < b.y + size.2 ∧ b.y < a.y + size.2

def Inside (size point : K × K) (node : NodePosition K) : Prop :=
  node.x < point.1 ∧ point.1 < node.x + size.1
    ∧ node.y < point.2 ∧ point.2 < node.y + size.2

/-- A distance in the axes of the graph is one on the screen. -/
theorem toScreen_away (cfg : LayoutConfig K) (part : K) {c a c' a' : K}
    (hpart : 0 ≤ part) (h : (metrics cfg).crossExtent * part ≤ |c - c'|
      ∨ (metrics cfg).alongExtent * part ≤ |a - a'|) :
    cfg.nodeSize.1 * part ≤ |(toScreen cfg c a).1 - (toScreen cfg c' a').1|
      ∨ cfg.nodeSize.2 * part
        ≤ |(toScreen cfg c a).2 - (toScreen cfg c' a').2| := by
  have hmax : ∀ x : K, x * part ≤ max x 0 * part := fun x =>
    mul_le_mul_of_nonneg_right (le_max_left x 0) hpart
  rcases cfg with ⟨_ | _, size, _, _, _⟩
  · exact (h.imp (hmax _).trans (hmax _).trans).symm
  · exact h.imp (hmax _).trans (hmax _).trans

/-- A coordinate within a card is near the centre of the card. -/
theorem abs_sub_lt_half {x c size low : K} (h : c - size / 2 - low < x - low)
    (h' : x - low < c - size / 2 - low + size) : |x - c| < size / 2 :=
  abs_lt.2 ⟨by linarith, by linarith⟩

section Screen

variable {cfg : LayoutConfig K} {nodeIds : List String}
  {edges : List (Nat × Nat)} {placed : List (Placed K)}

/-- The corner that the screen starts from. -/
def low (edges : List (Nat × Nat)) (placed : List (Placed K))
    (cfg : LayoutConfig K) : K × K :=
  (boundingBox cfg (centers cfg placed)
    (buildRoutes edges placed (metrics cfg))).1

def center (cfg : LayoutConfig K) (p : Placed K) : K × K :=
  toScreen cfg p.cross (alongCenter p.layer (metrics cfg))

variable {node : NodePosition K}

omit [IsStrictOrderedRing K] in
/-- Where a card of the screen is. -/
theorem finish_node {i : Nat}
    (h : (finish nodeIds edges placed cfg).nodes[i]? = some node) :
    ∃ p, placed[i]? = some p
      ∧ node.x = (center cfg p).1 - cfg.nodeSize.1 / 2 - (low edges placed cfg).1
      ∧ node.y
        = (center cfg p).2 - cfg.nodeSize.2 / 2 - (low edges placed cfg).2 := by
  rw [finish, getElem?_map] at h
  obtain ⟨⟨id, p, c⟩, hzip, rfl⟩ := Option.map_eq_some_iff.1 h
  obtain ⟨-, hrest⟩ := getElem?_zip_eq_some.1 hzip
  obtain ⟨hp, hc⟩ := getElem?_zip_eq_some.1 hrest
  rw [centers, getElem?_map, hp] at hc
  have hcenter : center cfg p = c := Option.some.inj hc
  subst hcenter
  exact ⟨p, hp, rfl, rfl⟩

theorem finish_apart (hclear : Clear (metrics cfg) placed) :
    (finish nodeIds edges placed cfg).nodes.Pairwise fun a b =>
      ¬ Overlap cfg.nodeSize a b := by
  rw [pairwise_iff_getElem]
  rintro i j hi hj hij ⟨hx, hx', hy, hy'⟩
  obtain ⟨p, hp, hpx, hpy⟩ := finish_node (getElem?_eq_getElem hi)
  obtain ⟨q, hq, hqx, hqy⟩ := finish_node (getElem?_eq_getElem hj)
  obtain ⟨hi', rfl⟩ := getElem?_eq_some_iff.1 hp
  obtain ⟨hj', rfl⟩ := getElem?_eq_some_iff.1 hq
  have hapart := pairwise_iff_getElem.1 hclear i j hi' hj' hij
  have haway := toScreen_away cfg 1 zero_le_one
    (hapart.away (metrics_nonneg cfg))
  rw [mul_one, mul_one, ← center, ← center] at haway
  rw [hpx, hqx] at hx hx'
  rw [hpy, hqy] at hy hy'
  rcases haway with h | h
  · exact absurd (abs_lt.2 ⟨by linarith, by linarith⟩) h.not_gt
  · exact absurd (abs_lt.2 ⟨by linarith, by linarith⟩) h.not_gt

theorem finish_bends {e : EdgeRoute K}
    (he : e ∈ (finish nodeIds edges placed cfg).edges) {point : K × K}
    (hpoint : point ∈ e.points.tail.dropLast) {i : Nat} {p source : Placed K}
    (hsource : placed[e.source]? = some source)
    (hp : placed[i]? = some p) (hcomponent : p.component = source.component)
    (hnode : (finish nodeIds edges placed cfg).nodes[i]? = some node) :
    ¬ Inside cfg.nodeSize point node := by
  rintro ⟨hx, hx', hy, hy'⟩
  obtain ⟨r, hr, rfl⟩ := mem_map.1 he
  obtain ⟨⟨a, b⟩, -, hroute⟩ := mem_filterMap.1 hr
  obtain ⟨pa, hpa, hroute⟩ := Option.bind_eq_some_iff.1 hroute
  obtain ⟨pb, hpb, hroute⟩ := Option.bind_eq_some_iff.1 hroute
  cases hroute
  cases hsource.symm.trans hpa
  rw [← map_tail, ← map_dropLast] at hpoint
  obtain ⟨bent, hbent, rfl⟩ := mem_map.1 hpoint
  obtain ⟨layer, rfl⟩ := bend_of_interior hbent
  obtain ⟨q, hq, hqx, hqy⟩ := finish_node hnode
  cases hp.symm.trans hq
  have hclear := bend_clear (metrics_nonneg cfg) (mem_of_getElem? hp)
    hcomponent pb layer
  have haway := toScreen_away cfg (1 / 2) one_half_pos.le hclear
  rw [← center, mul_one_div, mul_one_div] at haway
  rw [hqx] at hx hx'
  rw [hqy] at hy hy'
  rcases haway with h | h
  · exact absurd (abs_sub_lt_half hx hx') h.not_gt
  · exact absurd (abs_sub_lt_half hy hy') h.not_gt

end Screen

/-- Whatever the library returns, no cards of the layout overlap, siblings
keep half of their gap, bends are outside the cards of their component, and
`freeChannel` never comes to its last resort. -/
theorem layout_clear (library : Library K) (nodeIds : List String)
    (edges : List (Nat × Nat)) (cfg : LayoutConfig K)
    (hgap : 0 ≤ cfg.componentGap) (hlength : nodeIds.length ≤ 2 ^ 64) :
    let placed := placement library nodeIds.length edges cfg
    let layout := layoutDag library nodeIds edges cfg
    (layout.nodes.Pairwise fun a b => ¬ Overlap cfg.nodeSize a b)
    ∧ (placed.Pairwise fun p q =>
        p.component = q.component → p.layer = q.layer →
          (metrics cfg).crossExtent + cfg.siblingGap / 2 ≤ |p.cross - q.cross|)
    ∧ (∀ e ∈ layout.edges, ∀ point ∈ e.points.tail.dropLast,
        ∀ (i : Nat) (p source : Placed K) (node : NodePosition K),
          placed[e.source]? = some source → placed[i]? = some p →
          p.component = source.component → layout.nodes[i]? = some node →
            ¬ Inside cfg.nodeSize point node)
    ∧ ∀ component layer target,
        ¬ LastResort (lane placed component layer) target (metrics cfg) := by
  obtain ⟨-, hclear⟩ := placement_clear library edges cfg hgap hlength
  refine ⟨?_, ?_, ?_, fun component layer target =>
    not_lastResort (metrics_nonneg cfg) (lane_sorted _ component layer)⟩
  · rw [layoutDag]
    split
    · exact List.Pairwise.nil
    · exact finish_apart hclear
  · refine hclear.imp fun {p q} hpq hcomponent hlayer => ?_
    have hsibling : cfg.siblingGap ≤ (metrics cfg).siblingGap := le_max_left _ 0
    refine le_trans ?_ (hpq.1 hcomponent hlayer)
    rw [minSeparation]
    linarith
  · rw [layoutDag]
    split
    · intro e he
      cases he
    · exact fun e he point hpoint i p source node hsource hp hcomponent hnode =>
        finish_bends he hpoint hsource hp hcomponent hnode

/-- Two cards that the library puts on top of each other. -/
theorem layout_clear_stacked :
    (layoutDag (fun _ _ _ => some [[(0, 0, 0), (1, 0, 0)]]) ["a", "b"] []
      (⟨.leftRight, (168, 48), 32, 24, 48⟩ : LayoutConfig ℚ)).nodes.Pairwise
        fun a b => ¬ Overlap (168, 48) a b :=
  (layout_clear _ ["a", "b"] [] ⟨.leftRight, (168, 48), 32, 24, 48⟩ (by decide)
    (by decide)).1

end Tasty.Dag
