/-
The flag that a graph of tasks has a cycle (`engine.rs`): a self loop, or
nodes that never get ready when those without edges left into them are
settled one after the other.

What is settled comes after all that leads to it, and what never gets ready
has an edge into it from another such node.
-/
import Mathlib.Order.Interval.Set.Nat
import Tasty.Dag.Layout
import Tasty.Lib.Cycles

namespace Tasty.Dag

open List Option Function

def hasSelfLoop (edges : List (Nat × Nat)) (n : Nat) : Bool :=
  edges.any fun e => e.1 = e.2 ∧ e.1 < n

structure Degrees where
  adjacency : List (List Nat)
  indegree : List Nat

/-- `none` for an index that is out of range, as below. -/
def addEdge (g : Degrees) (e : Nat × Nat) : Option Degrees := do
  let targets ← g.adjacency[e.1]?
  let count ← g.indegree[e.2]?
  some { adjacency := g.adjacency.set e.1 (targets ++ [e.2])
         indegree := g.indegree.set e.2 (count + 1) }

/-- The inner loop, with `none` also where a count would go below zero. The
top of the stack of ready nodes is its head. -/
def release (indegree ready : List Nat) :
    List Nat → Option (List Nat × List Nat)
  | [] => some (indegree, ready)
  | w :: ws => do
    match ← indegree[w]? with
    | 0 => none
    | count + 1 =>
      release (indegree.set w count) (if count = 0 then w :: ready else ready)
        ws

def settle (adjacency : List (List Nat)) :
    Nat → List Nat → List Nat → Nat → Option Nat
  | _, _, [], settled => some settled
  | 0, _, _ :: _, _ => none
  | fuel + 1, indegree, v :: ready, settled => do
    let (indegree, ready) ← release indegree ready (← adjacency[v]?)
    settle adjacency fuel indegree ready (settled + 1)

/-- Each round settles a node, so that there are `n` at most. -/
def isCyclic (n : Nat) (edges : List (Nat × Nat)) : Option Bool := do
  let g ← edges.foldlM addEdge
    ⟨List.replicate n [], List.replicate n 0⟩
  if g.indegree.length < n then none
  else
    let ready := (List.range n).filter fun i => g.indegree[i]? = some 0
    let settled ← settle g.adjacency n g.indegree ready.reverse 0
    some (settled != n)

def hasCycle (n : Nat) (edges : List (Nat × Nat)) : Option Bool :=
  if hasSelfLoop edges n then some true
  else isCyclic n (sanitize edges n)

/-- An edge between two nodes that exist. -/
def Edge (n : Nat) (edges : List (Nat × Nat)) (a b : Nat) : Prop :=
  (a, b) ∈ edges ∧ a < n ∧ b < n

theorem mem_sanitize {n : Nat} {edges : List (Nat × Nat)} {a b : Nat} :
    (a, b) ∈ sanitize edges n ↔ Edge n edges a b ∧ a ≠ b := by
  unfold sanitize Edge
  induction edges using reverseRecOn with
  | nil => simp
  | append_singleton edges e ih =>
    rw [foldl_concat]
    grind

-- ==== vectors

/-- The vector of the values of `f` below `n`. -/
def table {α : Type} (n : Nat) (f : Nat → α) : List α :=
  (List.range n).map f

section Vectors

variable {α : Type} {n i : Nat} {f : Nat → α}

theorem table_get (hi : i < n) : (table n f)[i]? = some (f i) := by
  simp [table, hi]

theorem table_set (x : α) :
    (table n f).set i x = table n (Function.update f i x) := by
  refine ext_getElem? fun j => ?_
  by_cases hj : j < n <;> by_cases hij : i = j <;>
    simp_all [table, eq_comm]

theorem table_const (x : α) : table n (fun _ => x) = List.replicate n x := by
  simp [table]

end Vectors

variable {n : Nat} {edges : List (Nat × Nat)}

/-- The nodes at the other ends of the edges from `v`. -/
def targets (edges : List (Nat × Nat)) (v : Nat) : List Nat :=
  (edges.filter fun e => e.1 = v).map Prod.snd

theorem targets_lt (h : ∀ e ∈ edges, e.1 < n ∧ e.2 < n) (v : Nat) :
    ∀ w ∈ targets edges v, w < n := by
  intro w hw
  obtain ⟨e, he, rfl⟩ := mem_map.1 hw
  exact (h e (mem_filter.1 he).1).2

theorem foldlM_addEdge (out : Nat → List Nat) (into : Nat → Nat)
    (h : ∀ e ∈ edges, e.1 < n ∧ e.2 < n) :
    edges.foldlM addEdge ⟨table n out, table n into⟩ = some
      ⟨table n fun a => out a ++ targets edges a,
        table n fun b => into b + edges.countP fun e => e.2 = b⟩ := by
  induction edges generalizing out into with
  | nil => simp [targets]
  | cons e edges ih =>
    obtain ⟨⟨hsource, htarget⟩, hedges⟩ := forall_mem_cons.1 h
    have hadd : addEdge ⟨table n out, table n into⟩ e = some
        ⟨table n (Function.update out e.1 (out e.1 ++ [e.2])),
          table n (Function.update into e.2 (into e.2 + 1))⟩ := by
      unfold addEdge
      simp only [table_get hsource, table_get htarget, table_set,
        bind_eq_bind, bind_some]
    rw [foldlM_cons, hadd, bind_eq_bind, bind_some, ih _ _ hedges]
    unfold targets
    congr 3 <;> funext a
    · by_cases ha : e.1 = a
      · subst ha
        simp
      · simp [ha, update_of_ne (Ne.symm ha)]
    · by_cases ha : e.2 = a
      · subst ha
        simp
        omega
      · simp [ha, update_of_ne (Ne.symm ha)]

/-- What gets ready is what had no other edge left. -/
theorem release_spec (left : Nat → Nat) (ready : List Nat) {ws : List Nat}
    (hws : ∀ w ∈ ws, w < n) (hle : ∀ w, ws.count w ≤ left w) :
    ∃ fresh, release (table n left) ready ws
        = some (table n fun w => left w - ws.count w, fresh ++ ready)
      ∧ fresh.Nodup ∧ ∀ w, w ∈ fresh ↔ w ∈ ws ∧ left w = ws.count w := by
  induction ws generalizing left ready with
  | nil => exact ⟨[], by simp [release], nodup_nil, by simp⟩
  | cons w ws ih =>
    obtain ⟨hw, hws⟩ := forall_mem_cons.1 hws
    have hcount := hle w
    rw [count_cons_self] at hcount
    obtain ⟨count, hcount'⟩ : ∃ count, left w = count + 1 :=
      ⟨left w - 1, by omega⟩
    obtain ⟨fresh, hrun, hnodup, hfresh⟩ := ih
      (Function.update left w count)
      (if count = 0 then w :: ready else ready) hws (by
        intro x
        have hx := hle x
        by_cases hxw : x = w
        · subst hxw
          simp
          omega
        · simpa [update_of_ne hxw, count_cons_of_ne (Ne.symm hxw)] using hx)
    refine ⟨fresh ++ if count = 0 then [w] else [], ?_, ?_, fun x => ?_⟩
    · rw [release, table_get hw, bind_eq_bind, bind_some, hcount']
      simp only [table_set, hrun]
      congr 2
      · refine congrArg (table n) (funext fun x => ?_)
        by_cases hxw : x = w
        · subst hxw
          simp
          omega
        · simp [update_of_ne hxw, count_cons_of_ne (Ne.symm hxw)]
      · split <;> simp
    · refine nodup_append.2 ⟨hnodup, by split <;> simp, ?_⟩
      rintro x hx y hy rfl
      split at hy
      · obtain rfl := mem_singleton.1 hy
        obtain ⟨hmem, hleft⟩ := (hfresh x).1 hx
        have hpos := count_pos_iff.2 hmem
        rw [update_self] at hleft
        omega
      · cases hy
    · rw [mem_append, hfresh]
      by_cases hxw : x = w
      · subst hxw
        have hpos : x ∈ ws ↔ 0 < ws.count x := count_pos_iff.symm
        rw [update_self, count_cons_self, hcount', hpos]
        split <;> simp only [mem_cons, not_mem_nil, true_or,
          or_true, or_false, true_and, true_iff] <;> omega
      · have hnil : x ∉ if count = 0 then [w] else [] := by
          split <;> simp [hxw]
        simp [count_cons_of_ne (Ne.symm hxw), hxw, hnil]

-- ==== the nodes that are settled

/-- The edges into a node from nodes that are not settled. -/
def waiting (edges : List (Nat × Nat)) (settled : List Nat) (w : Nat) : Nat :=
  edges.countP fun e => e.2 = w ∧ e.1 ∉ settled

structure Kahn (n : Nat) (edges : List (Nat × Nat))
    (settled ready : List Nat) : Prop where
  nodup : (settled ++ ready).Nodup
  mem_iff : ∀ w, w ∈ settled ++ ready ↔ w < n ∧ waiting edges settled w = 0
  order : Settled (fun a b => (b, a) ∈ edges) settled

variable {settled ready : List Nat} {v : Nat}

theorem waiting_snoc (edges : List (Nat × Nat)) (hv : v ∉ settled) (w : Nat) :
    waiting edges (settled ++ [v]) w = waiting edges settled w
      - (targets edges v).count w
    ∧ (targets edges v).count w ≤ waiting edges settled w := by
  unfold waiting
  induction edges with
  | nil => simp [targets]
  | cons e edges ih =>
    have hcount : (targets (e :: edges) v).count w = (targets edges v).count w
        + if e.1 = v ∧ e.2 = w then 1 else 0 := by
      by_cases ha : e.1 = v <;> by_cases hb : e.2 = w <;>
        simp [targets, ha, hb]
    rw [hcount, countP_cons, countP_cons]
    simp only [mem_append, mem_singleton, decide_eq_true_eq] at ih ⊢
    grind

theorem waiting_eq_zero {w : Nat} : waiting edges settled w = 0
    ↔ ∀ a, (a, w) ∈ edges → a ∈ settled := by
  unfold waiting
  rw [countP_eq_zero]
  constructor
  · intro h a ha
    simpa using h _ ha
  · rintro h ⟨a, b⟩ he
    simp only [decide_eq_true_eq]
    rintro ⟨rfl, ha⟩
    exact ha (h a he)

theorem Kahn.step (h : Kahn n edges settled (v :: ready))
    (hedges : ∀ e ∈ edges, e.1 < n ∧ e.2 < n) {fresh : List Nat}
    (hnodup : fresh.Nodup) (hfresh : ∀ w, w ∈ fresh ↔ w ∈ targets edges v
      ∧ waiting edges settled w = (targets edges v).count w) :
    Kahn n edges (settled ++ [v]) (fresh ++ ready) := by
  have hv : v ∉ settled := fun hv =>
    disjoint_of_nodup_append h.nodup hv mem_cons_self
  have hpos : ∀ w, w ∈ targets edges v ↔ 0 < (targets edges v).count w :=
    fun w => count_pos_iff.symm
  refine ⟨?_, fun w => ?_, h.order.snoc fun a ha => ?_⟩
  · have hnew : ∀ w ∈ fresh, w ∉ settled ++ v :: ready := by
      intro w hw hold
      have hzero := ((h.mem_iff w).1 hold).2
      obtain ⟨hmem, hcount⟩ := (hfresh w).1 hw
      have := (hpos w).1 hmem
      omega
    have hold := h.nodup
    grind
  · have hold := h.mem_iff w
    have hnew := hfresh w
    obtain ⟨hwaiting, hle⟩ := waiting_snoc edges hv w
    have hlt := targets_lt hedges v w
    have hw := hpos w
    simp only [mem_append, mem_cons, not_mem_nil, or_false]
      at hold ⊢
    grind
  · exact waiting_eq_zero.1 ((h.mem_iff v).1 (by simp)).2 a ha

theorem Kahn.length_le (h : Kahn n edges settled ready) :
    settled.length + ready.length ≤ n := by
  have hsub : settled ++ ready ⊆ List.range n := fun w hw =>
    mem_range.2 ((h.mem_iff w).1 hw).1
  have hle := (subperm_of_subset h.nodup hsub).length_le
  rwa [length_append, length_range] at hle

theorem settle_spec {fuel : Nat} (h : Kahn n edges settled ready)
    (hedges : ∀ e ∈ edges, e.1 < n ∧ e.2 < n)
    (hfuel : n ≤ fuel + settled.length) :
    ∃ settled', Kahn n edges settled' []
      ∧ settle (table n (targets edges)) fuel
          (table n (waiting edges settled)) ready settled.length
        = some settled'.length := by
  induction fuel generalizing settled ready with
  | zero =>
    cases ready with
    | nil => exact ⟨settled, h, rfl⟩
    | cons v ready =>
      have hle := h.length_le
      rw [length_cons] at hle
      omega
  | succ fuel ih =>
    cases ready with
    | nil => exact ⟨settled, h, rfl⟩
    | cons v ready =>
      obtain ⟨hvn, -⟩ := (h.mem_iff v).1 (by simp)
      have hsnoc := waiting_snoc edges (fun hv =>
        disjoint_of_nodup_append h.nodup hv mem_cons_self)
      obtain ⟨fresh, hrun, hnodup, hfresh⟩ := release_spec
        (waiting edges settled) ready (targets_lt hedges v)
        fun w => (hsnoc w).2
      obtain ⟨settled', h', hsettle⟩ := ih (h.step hedges hnodup hfresh)
        (by rw [length_append, length_singleton]; omega)
      refine ⟨settled', h', ?_⟩
      rw [length_append, funext fun w => (hsnoc w).1] at hsettle
      rw [settle, table_get hvn]
      simp only [bind_eq_bind, bind_some, hrun]
      exact hsettle

theorem isCyclic_spec (hedges : ∀ e ∈ edges, e.1 < n ∧ e.2 < n) :
    ∃ settled, Kahn n edges settled []
      ∧ isCyclic n edges = some (settled.length != n) := by
  have hbuild := foldlM_addEdge (fun _ => []) (fun _ => 0) hedges
  rw [table_const, table_const] at hbuild
  have hwaiting : (fun b => 0 + edges.countP fun e => e.2 = b)
      = waiting edges [] := by
    funext b
    simp [waiting]
  simp only [nil_append] at hbuild
  rw [hwaiting] at hbuild
  have hstart : Kahn n edges [] ((List.range n).filter fun i =>
      (table n (waiting edges []))[i]? = some 0).reverse := by
    refine ⟨?_, fun w => ?_, .nil⟩
    · rw [nil_append, nodup_reverse]
      exact nodup_range.filter _
    · simp only [nil_append, mem_reverse, mem_filter,
        mem_range, decide_eq_true_eq]
      refine and_congr_right fun hw => ?_
      rw [table_get hw, some_inj]
  obtain ⟨settled, h, hsettle⟩ := @settle_spec _ _ _ _ n hstart hedges
    (Nat.le_add_right _ _)
  refine ⟨settled, h, ?_⟩
  unfold isCyclic
  rw [hbuild]
  simp only [bind_eq_bind, bind_some]
  rw [if_neg (by simp [table])]
  exact congrArg (Option.bind · _) hsettle

/-- Where each of some elements has another of them before it, there is a
cycle. -/
theorem exists_cycle_of_preds {α : Type} {r : α → α → Prop} {s : Set α}
    (hs : s.Finite) (hne : s.Nonempty) (hpred : ∀ a ∈ s, ∃ b ∈ s, r b a) :
    ∃ a, Relation.TransGen r a a := by
  by_contra hno
  have : Finite s := hs
  let lt : s → s → Prop := fun a b => Relation.TransGen r a b
  have : IsTrans s lt := ⟨fun _ _ _ h h' => h.trans h'⟩
  have : Std.Irrefl lt := ⟨fun a h => hno ⟨a, h⟩⟩
  obtain ⟨a, ha⟩ := hne
  obtain ⟨m, -, hmin⟩ := (Finite.wellFounded_of_trans_of_irrefl lt).has_min
    Set.univ ⟨⟨a, ha⟩, trivial⟩
  obtain ⟨b, hb, hbm⟩ := hpred m m.2
  exact hmin ⟨b, hb⟩ trivial (.single hbm)

theorem Kahn.cyclic_iff (h : Kahn n edges settled [])
    (hedges : ∀ e ∈ edges, e.1 < n ∧ e.2 < n) :
    settled.length ≠ n ↔ ∃ a, Relation.TransGen (Edge n edges) a a := by
  have hall : ∀ a, a ∈ settled ↔ a < n ∧ waiting edges settled a = 0 := by
    simpa using h.mem_iff
  have hnodup : settled.Nodup := by simpa using h.nodup
  constructor
  · intro hlen
    have hfinite : {a | a < n ∧ a ∉ settled}.Finite :=
      (Set.finite_lt_nat n).subset fun _ h => h.1
    refine exists_cycle_of_preds hfinite ?_ ?_
    · by_contra hnone
      have hsub : List.range n ⊆ settled := fun a ha => by
        by_contra hnot
        exact hnone ⟨a, mem_range.1 ha, hnot⟩
      have hle := (subperm_of_subset nodup_range hsub).length_le
      have hge := h.length_le
      rw [length_range] at hle
      omega
    · rintro a ⟨ha, hnot⟩
      have hwait : waiting edges settled a ≠ 0 := fun h0 =>
        hnot ((hall a).2 ⟨ha, h0⟩)
      rw [Ne, waiting_eq_zero] at hwait
      push Not at hwait
      obtain ⟨b, hb, hbs⟩ := hwait
      exact ⟨b, ⟨(hedges _ hb).1, hbs⟩, hb, hedges _ hb⟩
  · rintro ⟨a, ha⟩ hlen
    have hperm := (subperm_of_subset hnodup fun a ha =>
      mem_range.2 ((hall a).1 ha).1).perm_of_length_le
      (by rw [length_range, hlen])
    have hrev : Relation.TransGen (fun a b => (b, a) ∈ edges) a a :=
      (Relation.transGen_swap.2 ha).lift id fun _ _ h => h.1
    obtain ⟨b, -, hb⟩ := Relation.TransGen.tail'_iff.1 ha
    exact h.order.acyclic (hperm.mem_iff.2 (mem_range.2 hb.2.2)) hrev

/-- The flag is there, whatever the edges are, and tells whether a node
leads back to itself. -/
theorem hasCycle_exact (n : Nat) (edges : List (Nat × Nat)) :
    ∃ flag, hasCycle n edges = some flag
      ∧ (flag = true ↔ ∃ a, Relation.TransGen (Edge n edges) a a) := by
  unfold hasCycle
  by_cases hloop : hasSelfLoop edges n = true
  · refine ⟨true, by rw [if_pos hloop], iff_of_true rfl ?_⟩
    obtain ⟨e, he, hself⟩ := List.any_eq_true.1 hloop
    obtain ⟨hself, hn⟩ := of_decide_eq_true hself
    obtain ⟨a, b⟩ := e
    obtain rfl : a = b := hself
    exact ⟨a, .single ⟨he, hn, hn⟩⟩
  · have hedge : Edge n (sanitize edges n) = Edge n edges := by
      funext a b
      refine propext ⟨fun h => (mem_sanitize.1 h.1).1, fun h => ?_⟩
      refine ⟨mem_sanitize.2 ⟨h, ?_⟩, h.2⟩
      rintro rfl
      exact hloop (List.any_eq_true.2 ⟨_, h.1, decide_eq_true ⟨rfl, h.2.1⟩⟩)
    have hclean : ∀ e ∈ sanitize edges n, e.1 < n ∧ e.2 < n :=
      fun e he => (mem_sanitize.1 he).1.2
    obtain ⟨settled, h, hrun⟩ := isCyclic_spec hclean
    refine ⟨_, by rw [if_neg hloop, hrun], ?_⟩
    rw [bne_iff_ne, h.cyclic_iff hclean, hedge]

end Tasty.Dag
