/-
Where the cards of a layout are: `enforceSeparation` spaces each layer of a
component, whatever its coordinates were, and `placeComponents` leaves each
component a strip of its own. The grid has the same spacing, so that every
placement is `Apart` pair by pair.
-/
import Mathlib.Data.List.Dedup
import Mathlib.Data.List.Pairwise
import Mathlib.Tactic.Linarith
import Tasty.Dag.Layout
import Tasty.Lib.Except

namespace Tasty.Dag

open List hiding getElem?_eq_some_iff

variable {K : Type} [Field K] [LinearOrder K] {m : Metrics K}

structure Metrics.Nonneg (m : Metrics K) : Prop where
  crossExtent : 0 ≤ m.crossExtent
  alongExtent : 0 ≤ m.alongExtent
  layerGap : 0 ≤ m.layerGap
  siblingGap : 0 ≤ m.siblingGap

theorem metrics_nonneg (cfg : LayoutConfig K) : (metrics cfg).Nonneg :=
  ⟨le_max_right _ 0, le_max_right _ 0, le_max_right _ 0, le_max_right _ 0⟩

theorem Metrics.Nonneg.extent_le [IsStrictOrderedRing K] (hm : m.Nonneg) :
    m.crossExtent ≤ minSeparation m := by
  have hgap := hm.siblingGap
  rw [minSeparation]
  linarith

-- ==== one layer

section Layer

variable {separation : K} {slots : List Nat} {cross : Nat → K} {i : Nat}

theorem pushApart_of_notMem (h : i ∉ slots.tail) :
    pushApart separation slots cross i = cross i := by
  induction slots generalizing cross with
  | nil => rfl
  | cons previous slots ih =>
    cases slots with
    | nil => rfl
    | cons current slots =>
      rw [pushApart, ih fun hi => h (mem_cons_of_mem current hi)]
      split
      · exact Function.update_of_ne
          (fun heq : i = current => h (heq ▸ mem_cons_self)) _ _
      · rfl

/-- A card moves in one direction only. -/
theorem le_pushApart : cross i ≤ pushApart separation slots cross i := by
  induction slots generalizing cross with
  | nil => exact le_refl _
  | cons previous slots ih =>
    cases slots with
    | nil => exact le_refl _
    | cons current slots =>
      rw [pushApart]
      refine le_trans ?_ ih
      split
      · rename_i hlt
        by_cases hi : i = current
        · rw [hi, Function.update_self]
          exact hlt.le
        · rw [Function.update_of_ne hi]
      · exact le_refl _

variable [IsStrictOrderedRing K]

/-- Each slot of a pushed layer keeps its distance from all before it. -/
theorem pushApart_pairwise (cross : Nat → K) (hsep : 0 ≤ separation)
    (hnodup : slots.Nodup) :
    slots.Pairwise fun a b => pushApart separation slots cross a + separation
      ≤ pushApart separation slots cross b := by
  induction slots generalizing cross with
  | nil => exact List.Pairwise.nil
  | cons previous slots ih =>
    cases slots with
    | nil => exact pairwise_singleton _ _
    | cons current slots =>
      obtain ⟨hfirst, hrest⟩ := nodup_cons.1 hnodup
      rw [pushApart]
      set moved := if cross current < cross previous + separation then
        Function.update cross current (cross previous + separation)
        else cross with hmoved
      have hpair := ih moved hrest
      have hprevious : pushApart separation (current :: slots) moved previous
          = cross previous := by
        rw [pushApart_of_notMem fun hi =>
          hfirst (mem_cons_of_mem current hi), hmoved]
        split
        · exact Function.update_of_ne
            (fun heq : previous = current =>
              hfirst (heq ▸ mem_cons_self)) _ _
        · rfl
      have hcurrent : cross previous + separation
          ≤ pushApart separation (current :: slots) moved current := by
        refine le_trans ?_ le_pushApart
        rw [hmoved]
        split
        · rw [Function.update_self]
        · exact not_lt.1 ‹_›
      refine pairwise_cons.2 ⟨fun b hb => ?_, hpair⟩
      rw [hprevious]
      rcases mem_cons.1 hb with rfl | hb
      · exact hcurrent
      · have hle := (pairwise_cons.1 hpair).1 b hb
        linarith

end Layer

-- ==== one component

section Component

variable {nodes : List (Node K)} {layer : Nat} {cross : Nat → K}
  {separation : K}

omit [Field K] in
theorem mem_slots {i : Nat} :
    i ∈ slots nodes layer cross ↔ nodes[i]?.map Node.layer = some layer := by
  rw [slots, mem_insertionSort, mem_filter, mem_range, decide_eq_true_iff]
  refine ⟨And.right, fun h => ⟨?_, h⟩⟩
  obtain ⟨node, hnode, -⟩ := Option.map_eq_some_iff.1 h
  exact (getElem?_eq_some_iff.1 hnode).1

omit [Field K] in
theorem nodup_slots : (slots nodes layer cross).Nodup :=
  (perm_insertionSort _ _).nodup_iff.2 (nodup_range.filter _)

theorem le_foldl {layers : List Nat} {i : Nat} :
    cross i ≤ layers.foldl (fun cross layer =>
      pushApart separation (slots nodes layer cross) cross) cross i := by
  induction layers generalizing cross with
  | nil => exact le_refl _
  | cons other layers ih => exact le_trans le_pushApart ih

omit [Field K] in
theorem foldl_min_le {xs : List K} {a x : K} (h : x = a ∨ x ∈ xs) :
    xs.foldl min a ≤ x := by
  induction xs generalizing a x with
  | nil => exact (h.resolve_right not_mem_nil).ge
  | cons y xs ih =>
    rw [foldl_cons]
    rcases h with rfl | h
    · exact (ih (.inl rfl)).trans (min_le_left x y)
    · rcases mem_cons.1 h with rfl | h
      · exact (ih (.inl rfl)).trans (min_le_right a x)
      · exact ih (.inr h)

/-- The cards of one layer keep their distance. -/
def Spaced (separation : K) (nodes : List (Node K)) (cross : Nat → K)
    (layer : Nat) : Prop :=
  ∀ i j, nodes[i]?.map Node.layer = some layer →
    nodes[j]?.map Node.layer = some layer → i ≠ j →
      separation ≤ |cross i - cross j|

variable [IsStrictOrderedRing K]

theorem spaced_push (hsep : 0 ≤ separation) :
    Spaced separation nodes
      (pushApart separation (slots nodes layer cross) cross) layer := by
  intro i j hi hj hij
  set pushed := pushApart separation (slots nodes layer cross) cross
    with hpushed
  have hsymm : Std.Symm fun a b => separation ≤ |pushed a - pushed b| :=
    ⟨fun a b h => by rwa [abs_sub_comm]⟩
  have hpair : (slots nodes layer cross).Pairwise fun a b =>
      separation ≤ |pushed a - pushed b| := by
    refine (pushApart_pairwise cross hsep nodup_slots).imp fun {a b} hab => ?_
    rw [abs_sub_comm]
    exact le_trans (le_sub_iff_add_le'.2 hab) (le_abs_self _)
  exact hpair.forall (mem_slots.2 hi) (mem_slots.2 hj) hij

theorem Spaced.push (hsep : 0 ≤ separation) {other : Nat}
    (h : Spaced separation nodes cross layer) :
    Spaced separation nodes
      (pushApart separation (slots nodes other cross) cross) layer := by
  by_cases heq : other = layer
  · rw [heq]
    exact spaced_push hsep
  · have hkept : ∀ i, nodes[i]?.map Node.layer = some layer →
        pushApart separation (slots nodes other cross) cross i = cross i := by
      intro i hi
      refine pushApart_of_notMem fun hmem => heq ?_
      have hother := mem_slots.1 (mem_of_mem_tail hmem)
      exact Option.some.inj (hother.symm.trans hi)
    intro i j hi hj hij
    rw [hkept i hi, hkept j hj]
    exact h i j hi hj hij

theorem spaced_foldl (layer : Nat) (hsep : 0 ≤ separation) {layers : List Nat}
    (h : layer ∈ layers ∨ Spaced separation nodes cross layer) :
    Spaced separation nodes (layers.foldl (fun cross layer =>
      pushApart separation (slots nodes layer cross) cross) cross) layer := by
  induction layers generalizing cross with
  | nil => exact h.resolve_left not_mem_nil
  | cons other layers ih =>
    rw [foldl_cons]
    apply ih
    rcases h with h | h
    · rcases mem_cons.1 h with rfl | h
      · exact .inr (spaced_push hsep)
      · exact .inl h
    · exact .inr (h.push hsep)

/-- A component whose cards have room in their layers and lie right of 0. -/
structure Tidy (m : Metrics K) (nodes : List (Node K)) : Prop where
  spaced : nodes.Pairwise fun a b =>
    a.layer = b.layer → minSeparation m ≤ |a.cross - b.cross|
  left : ∀ node ∈ nodes, m.crossExtent / 2 ≤ node.cross

/-- Whatever the coordinates were. -/
theorem enforceSeparation_tidy (hm : m.Nonneg)
    (hleft : ∀ node ∈ nodes, m.crossExtent / 2 ≤ node.cross) :
    Tidy m (enforceSeparation nodes m) := by
  have hsep : 0 ≤ minSeparation m := hm.crossExtent.trans hm.extent_le
  constructor
  · rw [pairwise_iff_getElem]
    intro i j hi hj hij hlayer
    rw [enforceSeparation, length_mapIdx] at hi hj
    simp only [enforceSeparation, getElem_mapIdx] at hlayer ⊢
    apply spaced_foldl nodes[i].layer hsep
    · refine .inl ((mem_insertionSort _).2 (mem_dedup.2 ?_))
      exact mem_map_of_mem (getElem_mem hi)
    · rw [getElem?_eq_getElem hi]
      rfl
    · rw [getElem?_eq_getElem hj, hlayer]
      rfl
    · exact hij.ne
  · intro node hnode
    obtain ⟨i, hi, rfl⟩ := mem_iff_getElem.1 hnode
    rw [enforceSeparation, length_mapIdx] at hi
    simp only [enforceSeparation, getElem_mapIdx]
    refine le_trans ?_ le_foldl
    rw [getElem?_eq_getElem hi]
    exact hleft _ (getElem_mem hi)

theorem toComponent_left {component : List (Nat × K × K)}
    (h : toComponent component m = some nodes) :
    ∀ node ∈ nodes, m.crossExtent / 2 ≤ node.cross := by
  intro node hnode
  obtain ⟨⟨id, x, y⟩, hmem, heq⟩ := mem_of_mapM_eq_some h hnode
  obtain ⟨layer, -, heq⟩ := Option.bind_eq_some_iff.1 heq
  split at heq
  · cases heq
    have hmin : (component.map (·.2.1)).foldl min
        ((component.map (·.2.1)).headD 0) ≤ x :=
      foldl_min_le (.inr (mem_map_of_mem (f := (·.2.1)) hmem))
    dsimp only
    linarith
  · cases heq

end Component

-- ==== all components

/-- What two cards of a placement keep: the distance of siblings in one layer
of one component, a whole card between components. -/
def Apart (m : Metrics K) (p q : Placed K) : Prop :=
  (p.component = q.component → p.layer = q.layer →
    minSeparation m ≤ |p.cross - q.cross|)
  ∧ (p.component ≠ q.component → m.crossExtent ≤ |p.cross - q.cross|)

theorem apart_symm : Std.Symm fun a b : Nat × Placed K => Apart m a.2 b.2 where
  symm a b h := by
    rw [Apart, abs_sub_comm]
    exact ⟨fun hc hl => h.1 hc.symm hl.symm, fun hc => h.2 fun he => hc he.symm⟩

def card (component : Nat) (offset : K) (node : Node K) : Nat × Placed K :=
  (node.id, ⟨node.layer, node.cross + offset, component⟩)

/-- The cards of all components in the order in which they are placed. -/
def cards (m : Metrics K) (gap : K) :
    Nat → K → List (List (Node K)) → List (Nat × Placed K)
  | _, _, [] => []
  | component, offset, nodes :: rest =>
    nodes.map (card component offset)
      ++ cards m gap (component + 1) (offset + (spanOf m 0 nodes + gap)) rest

section Cards

variable {component : Nat} {offset span span' gap : K} {nodes : List (Node K)}
  {components : List (List (Node K))} {placed placed' : List (Option (Placed K))}
  {out : List (Placed K)}

theorem placeNodes_spec (h : placeNodes m component offset nodes span placed
      = some (placed', span')) :
    span' = spanOf m span nodes ∧ placed'.length = placed.length
    ∧ ∀ i p, placed'[i]? = some (some p) →
      placed[i]? = some (some p) ∨ (i, p) ∈ nodes.map (card component offset) := by
  induction nodes generalizing span placed with
  | nil =>
    cases h
    exact ⟨rfl, rfl, fun i p => .inl⟩
  | cons node nodes ih =>
    rw [placeNodes] at h
    split at h
    · cases h
    · cases h
    · obtain ⟨hspan, hlength, hfrom⟩ := ih h
      refine ⟨hspan, hlength.trans (length_set ..), fun i p hp => ?_⟩
      rcases hfrom i p hp with hset | hmem
      · rw [getElem?_set] at hset
        split at hset
        · rename_i heq
          split at hset
          · cases hset
            exact .inr (heq ▸ mem_cons_self)
          · cases hset
        · exact .inl hset
      · exact .inr (mem_cons_of_mem _ hmem)

omit [LinearOrder K] [Field K] in
theorem mapM_id_spec (h : placed.mapM id = some out) :
    out.length = placed.length ∧ ∀ (i : Nat) (p : Placed K),
      out[i]? = some p → placed[i]? = some (some p) := by
  induction placed generalizing out with
  | nil =>
    cases h
    exact ⟨rfl, nofun⟩
  | cons slot placed ih =>
    rw [mapM_cons] at h
    obtain ⟨p, hslot, h⟩ := Option.bind_eq_some_iff.1 h
    obtain ⟨rest, hrest, h⟩ := Option.bind_eq_some_iff.1 h
    cases h
    obtain ⟨hlength, hfrom⟩ := ih hrest
    refine ⟨congrArg (· + 1) hlength, fun i q hq => ?_⟩
    cases i with
    | zero =>
      cases hq
      exact congrArg some hslot
    | succ i => exact hfrom i q hq

theorem placeComponents_spec
    (h : placeComponents m gap component offset components placed = some out) :
    out.length = placed.length ∧ ∀ i p, out[i]? = some p →
      placed[i]? = some (some p)
        ∨ (i, p) ∈ cards m gap component offset components := by
  induction components generalizing component offset placed with
  | nil =>
    obtain ⟨hlength, hfrom⟩ := mapM_id_spec h
    exact ⟨hlength, fun i p hp => .inl (hfrom i p hp)⟩
  | cons nodes rest ih =>
    obtain ⟨⟨placed', span⟩, hnodes, h⟩ := Option.bind_eq_some_iff.1 h
    obtain ⟨rfl, hlength, hfrom⟩ := placeNodes_spec hnodes
    obtain ⟨hlength', hfrom'⟩ := ih h
    refine ⟨hlength'.trans hlength, fun i p hp => ?_⟩
    rcases hfrom' i p hp with hp | hmem
    · rcases hfrom i p hp with hp | hmem
      · exact .inl hp
      · exact .inr (mem_append_left _ hmem)
    · exact .inr (mem_append_right _ hmem)

theorem le_spanOf {x : K}
    (h : x ≤ span ∨ ∃ node ∈ nodes, x = node.cross + m.crossExtent / 2) :
    x ≤ spanOf m span nodes := by
  induction nodes generalizing span with
  | nil =>
    rcases h with h | ⟨node, hmem, -⟩
    · exact h
    · cases hmem
  | cons node nodes ih =>
    apply ih
    rcases h with h | ⟨other, hmem, rfl⟩
    · exact .inl (h.trans (le_max_left _ _))
    · rcases mem_cons.1 hmem with rfl | hmem
      · exact .inl (le_max_right _ _)
      · exact .inr ⟨other, hmem, rfl⟩

variable [IsStrictOrderedRing K]

theorem mem_cards (hgap : 0 ≤ gap) (htidy : ∀ nodes ∈ components, Tidy m nodes)
    {e : Nat × Placed K} (he : e ∈ cards m gap component offset components) :
    component ≤ e.2.component ∧ offset + m.crossExtent / 2 ≤ e.2.cross := by
  induction components generalizing component offset with
  | nil => cases he
  | cons nodes rest ih =>
    rcases mem_append.1 he with he | he
    · obtain ⟨node, hnode, rfl⟩ := mem_map.1 he
      have hleft := (htidy nodes mem_cons_self).left node hnode
      refine ⟨le_refl component, ?_⟩
      dsimp only [card]
      linarith
    · obtain ⟨hc, hcross⟩ :=
        ih (fun l hl => htidy l (mem_cons_of_mem _ hl)) he
      have hspan : 0 ≤ spanOf m 0 nodes := le_spanOf (.inl (le_refl 0))
      exact ⟨Nat.le_of_succ_le hc, by linarith⟩

theorem cards_pairwise (hgap : 0 ≤ gap)
    (htidy : ∀ nodes ∈ components, Tidy m nodes) :
    (cards m gap component offset components).Pairwise fun a b =>
      Apart m a.2 b.2 := by
  induction components generalizing component offset with
  | nil => exact List.Pairwise.nil
  | cons nodes rest ih =>
    have hrest := fun l hl => htidy l (mem_cons_of_mem nodes hl)
    refine pairwise_append.2 ⟨?_, ih hrest, ?_⟩
    · refine pairwise_map.2
        ((htidy nodes mem_cons_self).spaced.imp fun {a b} hab => ?_)
      refine ⟨fun _ hlayer => ?_, fun hne => absurd rfl hne⟩
      dsimp only [card]
      rw [add_sub_add_right_eq_sub]
      exact hab hlayer
    · intro a ha b hb
      obtain ⟨node, hnode, rfl⟩ := mem_map.1 ha
      obtain ⟨hc, hcross⟩ := mem_cards hgap hrest hb
      have hspan : node.cross + m.crossExtent / 2 ≤ spanOf m 0 nodes :=
        le_spanOf (.inr ⟨node, hnode, rfl⟩)
      refine ⟨fun heq => ?_, fun _ => ?_⟩
      · rw [← heq] at hc
        exact absurd hc (Nat.not_succ_le_self component)
      · rw [abs_sub_comm]
        refine le_trans ?_ (le_abs_self _)
        dsimp only [card]
        linarith

end Cards

-- ==== placements

/-- A list of cards, each pair of them apart. -/
def Clear (m : Metrics K) (placed : List (Placed K)) : Prop :=
  placed.Pairwise (Apart m)

variable [IsStrictOrderedRing K] {n : Nat}

theorem solve_clear {library : Library K} {edges : List (Nat × Nat)}
    {gap : K} {placed : List (Placed K)} (hm : m.Nonneg) (hgap : 0 ≤ gap)
    (h : solve library n edges m gap = some placed) :
    placed.length = n ∧ Clear m placed := by
  obtain ⟨layouts, -, h⟩ := Option.bind_eq_some_iff.1 h
  obtain ⟨components, hcomponents, h⟩ := Option.bind_eq_some_iff.1 h
  have htidy : ∀ nodes ∈ components.insertionSort fun a b =>
      firstId a ≤ firstId b, Tidy m nodes := by
    intro nodes hnodes
    obtain ⟨component, -, heq⟩ := mem_of_mapM_eq_some hcomponents
      ((mem_insertionSort _).1 hnodes)
    obtain ⟨found, hfound, heq⟩ := Option.bind_eq_some_iff.1 heq
    cases heq
    exact enforceSeparation_tidy hm (toComponent_left hfound)
  obtain ⟨hlength, hfrom⟩ := placeComponents_spec h
  have hmem : ∀ i p, placed[i]? = some p →
      (i, p) ∈ cards m gap 0 0 (components.insertionSort fun a b =>
        firstId a ≤ firstId b) := by
    intro i p hp
    refine (hfrom i p hp).resolve_left fun hnone => ?_
    cases eq_of_mem_replicate (mem_of_getElem? hnone)
  refine ⟨hlength.trans (length_replicate ..), ?_⟩
  have := apart_symm (m := m)
  rw [Clear, pairwise_iff_getElem]
  intro i j hi hj hij
  refine (cards_pairwise hgap htidy).forall
    (hmem i placed[i] (getElem?_eq_getElem hi))
    (hmem j placed[j] (getElem?_eq_getElem hj)) ?_
  exact fun heq => hij.ne (congrArg Prod.fst heq)

theorem le_gridColumns_sq (n : Nat) : n ≤ gridColumns n * gridColumns n := by
  have hroot := Nat.sqrt_lt'.1 (Nat.lt_succ_self n.sqrt)
  rw [gridColumns]
  split
  · rename_i heq
    exact heq.ge.trans (Nat.mul_le_mul (le_max_left _ _) (le_max_left _ _))
  · rw [Nat.succ_eq_add_one, sq] at hroot
    exact hroot.le.trans (Nat.mul_le_mul (le_max_left _ _) (le_max_left _ _))

theorem grid_layer {i : Nat} (hn : n ≤ 2 ^ 64) (hi : i < n) :
    i / gridColumns n ≤ 2 ^ 32 - 1 := by
  have hsq := le_gridColumns_sq n
  have hdiv : i / gridColumns n < gridColumns n :=
    Nat.div_lt_of_lt_mul (hi.trans_le hsq)
  have hcolumns : gridColumns n ≤ 2 ^ 32 := by
    have hroot : n.sqrt * n.sqrt ≤ n := Nat.sqrt_le n
    rw [gridColumns]
    refine max_le ?_ (by decide)
    split
    · exact Nat.mul_self_le_mul_self_iff.1 (hroot.trans hn)
    · rename_i hne
      have hlt : n.sqrt * n.sqrt < 2 ^ 32 * 2 ^ 32 :=
        (lt_of_le_of_ne hroot hne).trans_le hn
      exact Nat.mul_self_lt_mul_self_iff.1 hlt
  omega

theorem gridFallback_clear (hm : m.Nonneg) (hn : n ≤ 2 ^ 64) :
    Clear m (gridFallback n m) := by
  rw [Clear, gridFallback, pairwise_map]
  refine pairwise_lt_range.imp_of_mem fun {i j} hi hj hij => ?_
  refine ⟨fun _ hlayer => ?_, fun hne => absurd rfl hne⟩
  dsimp only at hlayer ⊢
  rw [min_eq_left (grid_layer hn (mem_range.1 hi)),
    min_eq_left (grid_layer hn (mem_range.1 hj))] at hlayer
  have hmod : i % gridColumns n + 1 ≤ j % gridColumns n := by
    have h1 := Nat.div_add_mod i (gridColumns n)
    have h2 := Nat.div_add_mod j (gridColumns n)
    rw [hlayer] at h1
    omega
  have hcast : ((i % gridColumns n : Nat) : K) + 1 ≤ (j % gridColumns n : Nat) :=
    by exact_mod_cast hmod
  have hcross := hm.crossExtent
  have hgap := hm.siblingGap
  have hstep := mul_le_mul_of_nonneg_right hcast (add_nonneg hcross hgap)
  rw [abs_sub_comm, add_sub_add_right_eq_sub, minSeparation]
  refine le_trans ?_ (le_abs_self _)
  rw [add_mul, one_mul] at hstep
  linarith

theorem placement_clear (library : Library K) (edges : List (Nat × Nat))
    (cfg : LayoutConfig K) (hgap : 0 ≤ cfg.componentGap) (hn : n ≤ 2 ^ 64) :
    (placement library n edges cfg).length = n
      ∧ Clear (metrics cfg) (placement library n edges cfg) := by
  rw [placement]
  cases hsolve : solve library n (sanitize edges n) (metrics cfg)
      cfg.componentGap with
  | some placed => exact solve_clear (metrics_nonneg cfg) hgap hsolve
  | none =>
    refine ⟨?_, gridFallback_clear (metrics_nonneg cfg) hn⟩
    rw [Option.getD_none, gridFallback, length_map, length_range]

end Tasty.Dag
