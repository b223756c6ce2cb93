/-
Cycles among tasks (`crates/tasty-agent/src/task/graph.rs`): the search
finds one exactly where there is one, and names the tasks on it.
-/
import Mathlib.Data.List.Nodup
import Tasty.Agent.TaskGraph
import Tasty.Lib.Cycles

namespace Tasty.Agent

open List

namespace TaskGraph

variable {g : TaskGraph} {a b : TaskId}

/-- The first task comes after the second, which exists: it depends on it,
reduces it, is given its result, or may be selected by it. -/
def Edge (g : TaskGraph) (a b : TaskId) : Prop :=
  ∃ t u, g.get a = some t ∧ g.get b = some u ∧
    (b ∈ t.dependsOn ∨ b ∈ t.command.reduceInputs ∨ b ∈ bindingTaskIds t ∨
      ∃ s ∈ g.listed, s.id = b ∧ a ∈ transitionTargets s)

/-- All dependencies of its tasks exist. -/
def HasDependencies (g : TaskGraph) : Prop :=
  ∀ t ∈ g.values, ∀ d ∈ t.dependsOn, (g.get d).isSome = true

variable {t : Task}

theorem get_id (h : g.get a = some t) : t.id = a := by
  unfold get at h
  simpa using List.find?_some h

theorem mem_values (h : g.get a = some t) : t ∈ g.values :=
  mem_of_find?_eq_some h

theorem isSome_get : (g.get a).isSome = true ↔ a ∈ g.values.map Task.id := by
  unfold get
  rw [List.find?_isSome, mem_map]
  simp only [decide_eq_true_eq]

/-- What the search looks at is what the edges are. -/
theorem edge_iff (ht : g.get a = some t) :
    g.Edge a b ↔ (g.get b).isSome = true ∧ ∃ q, (b, q) ∈ g.cycleEdges t := by
  have hid := get_id ht
  have hcontrols : b ∈ (g.controls t.id).map Task.id ↔
      ∃ s ∈ g.listed, s.id = b ∧ a ∈ transitionTargets s := by
    unfold controls
    rw [hid, mem_map]
    simp only [mem_filter, contains_iff_mem]
    exact exists_congr fun s => ⟨fun ⟨⟨h, h'⟩, h''⟩ => ⟨h, h'', h'⟩,
      fun ⟨h, h'', h'⟩ => ⟨⟨h, h'⟩, h''⟩⟩
  have hmem : (∃ q, (b, q) ∈ g.cycleEdges t) ↔ (b ∈ t.dependsOn ∨
      b ∈ t.command.reduceInputs ∨ b ∈ bindingTaskIds t ∨
      ∃ s ∈ g.listed, s.id = b ∧ a ∈ transitionTargets s) := by
    unfold cycleEdges
    rw [← hcontrols]
    simp only [mem_append, mem_map, Prod.mk.injEq]
    constructor
    · rintro ⟨q, ⟨x, hx, rfl, -⟩ | ⟨x, hx, rfl, -⟩⟩
      · exact .inl hx
      · tauto
    · rintro (h | h | h | h)
      · exact ⟨true, .inl ⟨b, h, rfl, rfl⟩⟩
      · exact ⟨false, .inr ⟨b, .inl (.inl h), rfl, rfl⟩⟩
      · exact ⟨false, .inr ⟨b, .inl (.inr h), rfl, rfl⟩⟩
      · exact ⟨false, .inr ⟨b, .inr h, rfl, rfl⟩⟩
  unfold Edge
  rw [hmem, Option.isSome_iff_exists]
  constructor
  · rintro ⟨t', u, ht', hu, h⟩
    obtain rfl : t = t' := Option.some.inj (ht.symm.trans ht')
    exact ⟨⟨u, hu⟩, h⟩
  · rintro ⟨⟨u, hu⟩, h⟩
    exact ⟨t, u, ht, hu, h⟩

-- ==== the way

/-- The way on which a search is. -/
structure Way (g : TaskGraph) (stack : List TaskId) : Prop where
  nodup : stack.Nodup
  chain : stack.IsChain g.Edge
  found : ∀ a ∈ stack, (g.get a).isSome = true

namespace Way

variable {stack : List TaskId} {node : TaskId}

theorem nil : g.Way [] := ⟨nodup_nil, .nil, forall_mem_nil _⟩

theorem snoc (h : g.Way stack) (hfound : (g.get node).isSome = true)
    (hfresh : node ∉ stack) (hlast : ∀ a ∈ stack.getLast?, g.Edge a node) :
    g.Way (stack ++ [node]) where
  nodup := nodup_append.2 ⟨h.nodup, nodup_singleton _, fun x hx y hy => by
      rw [mem_singleton] at hy
      exact fun heq => hfresh (hy ▸ heq ▸ hx)⟩
  chain := isChain_append.2 ⟨h.chain, isChain_singleton _, fun x hx y hy => by
      obtain rfl : node = y := Option.some.inj hy
      exact hlast x hx⟩
  found x hx := by
    rcases mem_append.1 hx with hx | hx
    · exact h.found x hx
    · rw [mem_singleton] at hx
      rw [hx]
      exact hfound

/-- A way passes each task once. -/
theorem length_le (h : g.Way stack) : stack.length ≤ g.values.length := by
  have hsub : stack ⊆ g.values.map Task.id := fun a ha =>
    isSome_get.1 (h.found a ha)
  have hle := (subperm_of_subset h.nodup hsub).length_le
  rwa [length_map] at hle

theorem cycle (h : g.Way (stack ++ [node])) {dep : TaskId}
    (hdep : dep ∈ stack ++ [node]) (hedge : g.Edge node dep) :
    IsCycle g.Edge ((stack ++ [node]).dropWhile (· ≠ dep)) :=
  isCycle_dropWhile h.nodup h.chain getLast?_concat hdep hedge

end Way

-- ==== the search

/-- What an edge leads to, if it exists. -/
def edgeGoal (g : TaskGraph) (edge : TaskId × Bool) : List TaskId :=
  if (g.get edge.1).isSome then [edge.1] else []

theorem mem_goals (ht : g.get a = some t) (h : g.Edge a b) :
    b ∈ (g.cycleEdges t).flatMap g.edgeGoal := by
  obtain ⟨hfound, q, hq⟩ := (edge_iff ht).1 h
  refine mem_flatMap.2 ⟨(b, q), hq, ?_⟩
  unfold edgeGoal
  rw [if_pos hfound]
  exact mem_singleton_self b

theorem dfsCycle_searched (hdeps : g.HasDependencies) {fuel : Nat}
    {stack done : List TaskId} {node : TaskId} (hway : g.Way stack)
    (hfound : (g.get node).isSome = true) (hfresh : node ∉ stack)
    (hlast : ∀ a ∈ stack.getLast?, g.Edge a node)
    (hfuel : g.values.length < fuel + stack.length)
    (hdone : Settled g.Edge done) :
    Searched g.Edge AgentError.dependencyCycle done [node]
      (g.dfsCycle fuel stack done node) := by
  induction fuel generalizing stack done node with
  | zero => exact absurd hway.length_le (by omega)
  | succ fuel ih =>
    have hway' := hway.snoc hfound hfresh hlast
    obtain ⟨t, ht⟩ := Option.isSome_iff_exists.1 hfound
    unfold dfsCycle
    dsimp only
    rw [ht]
    dsimp only
    refine Searched.leave (fun b hb => mem_goals ht hb) ?_
    refine Searched.foldlM (fun done ⟨dep, required⟩ he hdone => ?_) hdone
    dsimp only
    unfold edgeGoal
    dsimp only
    by_cases hdep : (g.get dep).isSome = true
    · have hnone : ¬ (g.get dep).isNone = true := by
        rw [← Option.not_isSome, hdep]
        exact Bool.false_ne_true
      rw [if_pos hdep, if_neg hnone]
      by_cases hleft : done.contains dep = true
      · rw [if_pos hleft]
        refine ⟨hdone, List.Subset.refl _, ?_⟩
        simpa using hleft
      · rw [if_neg hleft]
        have hedge : g.Edge node dep :=
          (edge_iff ht).2 ⟨hdep, required, he⟩
        by_cases hon : (stack ++ [node]).contains dep = true
        · rw [if_pos hon]
          have hmem := contains_iff_mem.1 hon
          exact ⟨_, rfl, hway'.cycle hmem hedge⟩
        · rw [if_neg hon]
          have hmem := fun h => hon (contains_iff_mem.2 h)
          refine ih hway' hdep hmem (fun a ha => ?_) ?_ hdone
          · rw [getLast?_concat] at ha
            obtain rfl : node = a := Option.some.inj ha
            exact hedge
          · rw [length_append, length_singleton]
            omega
    · rw [if_neg hdep, if_pos (by simpa using hdep)]
      -- only a dependency must exist
      cases required with
      | false => exact ⟨hdone, List.Subset.refl _, nil_subset _⟩
      | true =>
        have hd : dep ∈ t.dependsOn := by
          unfold cycleEdges at he
          simpa using he
        exact absurd (hdeps t (mem_values ht) dep hd) hdep

theorem detectCycles_searched (hdeps : g.HasDependencies) :
    (g.detectCycles = .ok () ∧ ∀ a, ¬ Relation.TransGen g.Edge a a)
      ∨ ∃ c, g.detectCycles = .error (.dependencyCycle c)
        ∧ IsCycle g.Edge c := by
  have hall : Searched g.Edge AgentError.dependencyCycle []
      (g.values.flatMap fun t => [t.id])
      (g.values.foldlM (fun done t => if done.contains t.id then .ok done
        else g.dfsCycle (g.values.length + 1) [] done t.id) []) := by
    refine Searched.foldlM (fun done t ht hdone => ?_) .nil
    by_cases hleft : done.contains t.id = true
    · rw [if_pos hleft]
      refine ⟨hdone, List.Subset.refl _, ?_⟩
      simpa using hleft
    · rw [if_neg hleft]
      have hfound := isSome_get.2 (mem_map_of_mem ht)
      exact dfsCycle_searched hdeps .nil hfound not_mem_nil
        (fun a ha => by cases ha) (by simp) hdone
  unfold detectCycles
  cases hrun : g.values.foldlM (fun done t => if done.contains t.id then
      Except.ok done else g.dfsCycle (g.values.length + 1) [] done t.id) [] with
  | error e =>
    rw [hrun] at hall
    obtain ⟨c, rfl, hc⟩ := hall
    exact .inr ⟨c, rfl, hc⟩
  | ok done =>
    rw [hrun] at hall
    obtain ⟨hsettled, -, hleft⟩ := hall
    refine .inl ⟨rfl, fun a hcycle => ?_⟩
    obtain ⟨b, hab, -⟩ := Relation.TransGen.head'_iff.1 hcycle
    obtain ⟨t, -, ht, -⟩ := hab
    refine hsettled.acyclic (hleft ?_) hcycle
    exact mem_flatMap.2 ⟨t, mem_values ht, mem_singleton.2 (get_id ht).symm⟩

end TaskGraph

/-- Where all dependencies exist, the search fails with a cycle exactly if
there is one, and then with a cycle; else it succeeds. -/
theorem detects_cycles (order : HashOrder) (tasks : List Task)
    (hdeps : ∀ t ∈ tasks, ∀ d ∈ t.dependsOn, ∃ u ∈ tasks, u.id = d) :
    ((∃ c, (TaskGraph.build order tasks).detectCycles
          = .error (.dependencyCycle c))
        ↔ ∃ a, Relation.TransGen (TaskGraph.build order tasks).Edge a a)
      ∧ (∀ c, (TaskGraph.build order tasks).detectCycles
          = .error (.dependencyCycle c) →
        IsCycle (TaskGraph.build order tasks).Edge c)
      ∧ ((∀ a, ¬ Relation.TransGen (TaskGraph.build order tasks).Edge a a) →
        (TaskGraph.build order tasks).detectCycles = .ok ()) := by
  have hvalues : ∀ t, t ∈ (TaskGraph.build order tasks).values ↔
      t ∈ mapEntries tasks := fun t => (order.perm _).mem_iff
  have hfound : (TaskGraph.build order tasks).HasDependencies := by
    intro t ht d hd
    obtain ⟨u, hu, hud⟩ :=
      hdeps t (mem_of_mem_mapEntries ((hvalues t).1 ht)) d hd
    obtain ⟨v, hv, hvu⟩ := mapEntries_covers hu
    refine TaskGraph.isSome_get.2 (List.mem_map.2 ⟨v, ?_, hvu.trans hud⟩)
    exact (hvalues v).2 hv
  rcases TaskGraph.detectCycles_searched hfound with
    ⟨hok, hnone⟩ | ⟨c, herror, hc⟩
  · rw [hok]
    refine ⟨⟨?_, fun ⟨a, ha⟩ => absurd ha (hnone a)⟩, ?_, fun _ => rfl⟩
    · rintro ⟨c, h⟩
      cases h
    · intro c h
      cases h
  · rw [herror]
    refine ⟨⟨fun _ => hc.transGen, fun _ => ⟨c, rfl⟩⟩, ?_, fun hno => ?_⟩
    · intro c' h
      cases h
      exact hc
    · obtain ⟨a, ha⟩ := hc.transGen
      exact absurd ha (hno a)

/-- A task that depends on another. -/
def dependent (id dep : TaskId) : Task :=
  { id, command := .custom "system.ping" (.object []), dependsOn := [dep]
    state := .waiting, result := none, contract := none, typedResult := none
    skip := none }

def mutualTasks : List Task := [dependent "a" "b", dependent "b" "a"]

theorem detects_cycles_mutual :
    IsCycle (TaskGraph.build .asListed mutualTasks).Edge ["a", "b"] :=
  (detects_cycles .asListed mutualTasks (by decide)).2.1 _ rfl

end Tasty.Agent
