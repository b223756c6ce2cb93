/-
Cycles of a relation, and how a search that goes depth first tells whether
there is one. A search lists what it has left: each element comes after all
that it leads to (`Settled`), which rules a cycle out; what it is in the
middle of is a chain, which an edge back closes to a cycle.

In the search in three colours an element is new, being visited, or done.
The search runs deeper only into new elements, so it ends; what is being
visited leads to where the search stands, so that coming back to it closes
a cycle; and what is done is settled.
-/
import Mathlib.Data.List.Chain
import Mathlib.Data.List.Infix

namespace Tasty

open List

variable {α β ε : Type} {r : α → α → Prop}

/-- Distinct elements, each of which leads to the next, and the last to the
first. -/
structure IsCycle (r : α → α → Prop) (c : List α) : Prop where
  nodup : c.Nodup
  chain : c.IsChain r
  closed : ∃ a ∈ c.getLast?, ∃ b ∈ c.head?, r a b

variable {a b : α}

/-- Along a chain the first element leads to each later one. -/
theorem reaches_of_isChain {l : List α} (h : (a :: l).IsChain r)
    (hb : b ∈ l) : Relation.TransGen r a b := by
  induction l generalizing a with
  | nil => cases hb
  | cons x l ih =>
    rw [isChain_cons_cons] at h
    rcases List.mem_cons.1 hb with rfl | hb
    · exact .single h.1
    · exact .head h.1 (ih h.2 hb)

theorem IsCycle.transGen {c : List α} (h : IsCycle r c) :
    ∃ a, Relation.TransGen r a a := by
  obtain ⟨z, hz, a, ha, hza⟩ := h.closed
  cases c with
  | nil => cases ha
  | cons x l =>
    obtain rfl : x = a := Option.some.inj ha
    refine ⟨x, ?_⟩
    have hlast := mem_of_getLast? hz
    rcases List.mem_cons.1 hlast with rfl | hlast
    · exact .single hza
    · exact (reaches_of_isChain h.chain hlast).tail hza

/-- An edge from the end of a chain back into it closes a cycle. -/
theorem isCycle_dropWhile [DecidableEq α] {l : List α} {x y : α}
    (hnodup : l.Nodup) (hchain : l.IsChain r) (hlast : l.getLast? = some x)
    (hy : y ∈ l) (hxy : r x y) : IsCycle r (l.dropWhile (· ≠ y)) := by
  induction l with
  | nil => cases hy
  | cons a l ih =>
    by_cases hay : a = y
    · subst hay
      rw [dropWhile_cons_of_neg (by simp)]
      exact ⟨hnodup, hchain, x, hlast, a, rfl, hxy⟩
    · rw [dropWhile_cons_of_pos (by simpa using hay)]
      have hyl : y ∈ l := by simpa [Ne.symm hay] using hy
      have hne : l ≠ [] := ne_nil_of_mem hyl
      refine ih hnodup.of_cons hchain.tail ?_ hyl
      rwa [getLast?_cons_of_ne_nil hne] at hlast

-- ==== what was left

/-- What an element leads to comes before it. -/
def Settled (r : α → α → Prop) (l : List α) : Prop :=
  ∀ before a after, l = before ++ a :: after → ∀ b, r a b → b ∈ before

namespace Settled

variable {l : List α}

theorem nil : Settled r [] := by
  intro before a after h
  cases before <;> cases h

theorem snoc {x : α} (h : Settled r l) (hx : ∀ b, r x b → b ∈ l) :
    Settled r (l ++ [x]) := by
  intro before a after heq b hb
  rcases eq_nil_or_concat after with rfl | ⟨after, z, rfl⟩
  · obtain ⟨rfl, hax⟩ := append_inj' heq rfl
    cases hax
    exact hx b hb
  · have hsplit : l ++ [x] = (before ++ a :: after) ++ [z] := by
      rw [heq]
      simp
    obtain ⟨hl, -⟩ := append_inj' hsplit rfl
    exact h before a after hl b hb

theorem closed (h : Settled r l) (ha : a ∈ l) (hab : r a b) : b ∈ l := by
  obtain ⟨before, after, rfl⟩ := append_of_mem ha
  exact mem_append_left _ (h before a after rfl b hab)

theorem reaches (h : Settled r l) (ha : a ∈ l)
    (hab : Relation.TransGen r a b) : b ∈ l := by
  induction hab with
  | single hab => exact h.closed ha hab
  | tail _ hbc ih => exact h.closed ih hbc

theorem of_append {l' : List α} (h : Settled r (l ++ l')) : Settled r l := by
  intro before a after heq
  refine h before a (after ++ l') ?_
  rw [heq, append_assoc, cons_append]

/-- No element leads back to itself. -/
theorem acyclic (h : Settled r l) (ha : a ∈ l) : ¬ Relation.TransGen r a a := by
  induction l using reverseRecOn generalizing a with
  | nil => cases ha
  | append_singleton l x ih =>
    intro hcycle
    have hl : Settled r l := h.of_append
    by_cases hal : a ∈ l
    · exact ih hl hal hcycle
    · have hax : a = x := by simpa [hal] using ha
      subst hax
      -- the cycle leaves the last element for good
      obtain ⟨b, hab, hba⟩ := Relation.TransGen.head'_iff.1 hcycle
      have hb : b ∈ l := h l a [] rfl b hab
      rcases Relation.reflTransGen_iff_eq_or_transGen.1 hba with rfl | hba
      · exact hal hb
      · exact hal (hl.reaches hb hba)

end Settled

-- ==== the search

/-- What a search makes of what it has left: it leaves what it was to
visit as well, or it fails as it does for a cycle. -/
def Searched (r : α → α → Prop) (cyclic : List α → ε) (done : List α)
    (goals : List α) : Except ε (List α) → Prop
  | .ok done' => Settled r done' ∧ done ⊆ done' ∧ goals ⊆ done'
  | .error e => ∃ c, e = cyclic c ∧ IsCycle r c

theorem Searched.foldlM {cyclic : List α → ε} {goal : β → List α}
    {visit : List α → β → Except ε (List α)} {edges : List β}
    (hvisit : ∀ done, ∀ e ∈ edges, Settled r done →
      Searched r cyclic done (goal e) (visit done e))
    {done : List α} (hdone : Settled r done) :
    Searched r cyclic done (edges.flatMap goal) (edges.foldlM visit done) := by
  induction edges generalizing done with
  | nil => exact ⟨hdone, List.Subset.refl _, List.nil_subset _⟩
  | cons e edges ih =>
    rw [foldlM_cons]
    have hfirst := hvisit done e List.mem_cons_self hdone
    cases hv : visit done e with
    | error err =>
      rw [hv] at hfirst
      exact hfirst
    | ok done₁ =>
      rw [hv] at hfirst
      obtain ⟨hsettled, hsub, hgoal⟩ := hfirst
      have hrest := ih (fun d e' he' =>
        hvisit d e' (List.mem_cons_of_mem _ he')) hsettled
      show Searched r cyclic done _ (edges.foldlM visit done₁)
      cases hrun : edges.foldlM visit done₁ with
      | error err =>
        rw [hrun] at hrest
        exact hrest
      | ok done₂ =>
        rw [hrun] at hrest
        obtain ⟨hsettled₂, hsub₂, hgoals⟩ := hrest
        refine ⟨hsettled₂, List.Subset.trans hsub hsub₂, ?_⟩
        rw [flatMap_cons, append_subset]
        exact ⟨List.Subset.trans hgoal hsub₂, hgoals⟩

/-- An element is left once all that it leads to is. -/
theorem Searched.leave {cyclic : List α → ε} {done goals : List α} {x : α}
    {search : Except ε (List α)} (hgoals : ∀ b, r x b → b ∈ goals)
    (h : Searched r cyclic done goals search) :
    Searched r cyclic done [x]
      (search >>= fun done' => .ok (done' ++ [x])) := by
  cases search with
  | error e => exact h
  | ok done' =>
    obtain ⟨hsettled, hsub, hall⟩ := h
    refine ⟨hsettled.snoc fun b hb => hall (hgoals b hb), ?_, ?_⟩
    · exact List.Subset.trans hsub (List.subset_append_left _ _)
    · exact List.subset_append_right _ _

end Tasty

-- ==== three colours

namespace Tasty.ThreeColour

inductive Mark where
  | visiting
  | done
  deriving DecidableEq

variable {α : Type} [DecidableEq α]

/-- The colours of the elements that are not new, the latest first. -/
abbrev Marks (α : Type) := List (α × Mark)

/-- Visits one after another up to the first that finds a cycle. -/
def visitAll (visit : Marks α → α → Option (Bool × Marks α)) :
    Marks α → List α → Option (Bool × Marks α)
  | marks, [] => some (false, marks)
  | marks, node :: rest =>
    match visit marks node with
    | none => none
    | some (true, marks) => some (true, marks)
    | some (false, marks) => visitAll visit marks rest

/-- The search from an element: whether it comes upon a cycle, and the
colours after it. -/
def visit (next : α → List α) :
    Nat → Marks α → α → Option (Bool × Marks α)
  | 0, _, _ => none
  | fuel + 1, marks, node =>
    match marks.lookup node with
    | some .done => some (false, marks)
    | some .visiting => some (true, marks)
    | none =>
      match visitAll (visit next fuel) ((node, .visiting) :: marks)
          (next node) with
      | none => none
      | some (true, marks) => some (true, marks)
      | some (false, marks) => some (false, (node, .done) :: marks)

-- ==== it ends

/-- What was marked stays marked. -/
def Covers (marks marks' : Marks α) : Prop :=
  ∀ a, marks.lookup a ≠ none → marks'.lookup a ≠ none

theorem Covers.cons (marks : Marks α) (node : α) (mark : Mark) :
    Covers marks ((node, mark) :: marks) := by
  intro a ha
  rw [List.lookup_cons]
  cases a == node with
  | true => exact Option.some_ne_none mark
  | false => exact ha

theorem Covers.trans {a b c : Marks α} (h : Covers a b) (h' : Covers b c) :
    Covers a c :=
  fun x hx => h' x (h x hx)

/-- The elements of the universe that are new. -/
def fresh (univ : List α) (marks : Marks α) : List α :=
  univ.filter fun a => marks.lookup a = none

variable {marks : Marks α}

theorem length_fresh_le {univ : List α} {marks' : Marks α}
    (h : Covers marks marks') :
    (fresh univ marks').length ≤ (fresh univ marks).length := by
  refine (List.monotone_filter_right univ fun a ha => ?_).length_le
  have hnone := of_decide_eq_true ha
  by_contra hmarked
  exact h a (fun hm => hmarked (decide_eq_true hm)) hnone

variable {node : α}

theorem length_fresh_lt {univ : List α} (hmem : node ∈ univ)
    (hnew : marks.lookup node = none) (mark : Mark) :
    (fresh univ ((node, mark) :: marks)).length
      < (fresh univ marks).length := by
  have hsub : (fresh univ ((node, mark) :: marks)).Sublist
      (fresh univ marks) := by
    refine List.monotone_filter_right univ fun a ha => ?_
    have hnone := of_decide_eq_true ha
    by_contra hmarked
    exact Covers.cons marks node mark a
      (fun hm => hmarked (decide_eq_true hm)) hnone
  refine Nat.lt_of_le_of_ne hsub.length_le fun heq => ?_
  have hin : node ∈ fresh univ marks :=
    List.mem_filter.2 ⟨hmem, decide_eq_true hnew⟩
  rw [← hsub.eq_of_length heq] at hin
  have hnone := of_decide_eq_true (List.mem_filter.1 hin).2
  rw [List.lookup_cons, beq_self_eq_true] at hnone
  cases hnone

/-- In a finite universe that the search does not leave, it ends, whatever
is marked. -/
theorem visit_ends {next : α → List α} (univ : List α)
    (hnext : ∀ a ∈ univ, ∀ b ∈ next a, b ∈ univ) {fuel : Nat}
    (hmem : node ∈ univ) (hfuel : (fresh univ marks).length < fuel) :
    ∃ found marks', visit next fuel marks node = some (found, marks')
      ∧ Covers marks marks' := by
  induction fuel generalizing marks node with
  | zero => exact absurd hfuel (Nat.not_lt_zero _)
  | succ fuel ih =>
    have hall (nodes : List α) (marks : Marks α)
        (hnodes : ∀ b ∈ nodes, b ∈ univ)
        (hfuel : (fresh univ marks).length < fuel) :
        ∃ found marks', visitAll (visit next fuel) marks nodes
          = some (found, marks') ∧ Covers marks marks' := by
      induction nodes generalizing marks with
      | nil => exact ⟨false, marks, rfl, fun _ h => h⟩
      | cons b nodes ihn =>
        obtain ⟨found, marks₁, hvisit, hcovers⟩ :=
          ih (hnodes b List.mem_cons_self) hfuel
        rw [visitAll, hvisit]
        cases found with
        | true => exact ⟨true, marks₁, rfl, hcovers⟩
        | false =>
          obtain ⟨found, marks₂, hrest, hcovers'⟩ := ihn marks₁
            (fun x hx => hnodes x (List.mem_cons_of_mem _ hx))
            (Nat.lt_of_le_of_lt (length_fresh_le hcovers) hfuel)
          exact ⟨found, marks₂, hrest, hcovers.trans hcovers'⟩
    rw [visit]
    cases hmark : marks.lookup node with
    | some mark =>
      cases mark with
      | done => exact ⟨false, marks, rfl, fun _ h => h⟩
      | visiting => exact ⟨true, marks, rfl, fun _ h => h⟩
    | none =>
      have hless := length_fresh_lt hmem hmark .visiting
      obtain ⟨found, marks₁, hvisits, hcovers⟩ := hall (next node)
        ((node, .visiting) :: marks) (hnext node hmem) (by omega)
      have hfirst := (Covers.cons marks node .visiting).trans hcovers
      dsimp only
      rw [hvisits]
      cases found with
      | true => exact ⟨true, marks₁, rfl, hfirst⟩
      | false =>
        exact ⟨false, _, rfl, hfirst.trans (.cons marks₁ node .done)⟩

-- ==== adjacency lists

section Adjacency

variable (adj : List (α × List α))

/-- Where an element leads. -/
def next (a : α) : List α := (adj.lookup a).getD []

/-- An element and all that are named. -/
def named (node : α) : List α := node :: adj.flatMap fun e => e.1 :: e.2

theorem next_named {a b : α} (hb : b ∈ next adj a) : b ∈ named adj node := by
  unfold next at hb
  cases hfind : adj.lookup a with
  | none =>
    rw [hfind] at hb
    cases hb
  | some bs =>
    rw [hfind] at hb
    refine List.mem_cons_of_mem _ (List.mem_flatMap.2 ⟨(a, bs), ?_, ?_⟩)
    · obtain ⟨before, after, rfl, -⟩ := List.lookup_eq_some_iff.1 hfind
      exact List.mem_append_right _ List.mem_cons_self
    · exact List.mem_cons_of_mem _ hb

theorem search_ends (marks : Marks α) (node : α) :
    (visit (next adj) ((named adj node).length + 1) marks node).isSome
      = true := by
  obtain ⟨found, marks', h, -⟩ := visit_ends (named adj node)
    (fun a _ b hb => next_named adj hb) List.mem_cons_self
    (Nat.lt_succ_of_le (List.length_filter_le _ _))
  rw [h]
  rfl

/-- The search, which ends on all adjacency lists. -/
def search (marks : Marks α) (node : α) : Bool × Marks α :=
  (visit (next adj) ((named adj node).length + 1) marks node).get
    (search_ends adj marks node)

def searchAll : Marks α → List α → Bool × Marks α
  | marks, [] => (false, marks)
  | marks, node :: rest =>
    match search adj marks node with
    | (true, marks) => (true, marks)
    | (false, marks) => searchAll marks rest

theorem visit_search (marks : Marks α) (node : α) :
    visit (next adj) ((named adj node).length + 1) marks node
      = some (search adj marks node) :=
  (Option.some_get _).symm

theorem visitAll_searchAll {search' : Marks α → α → Option (Bool × Marks α)}
    (h : ∀ marks node, search' marks node = some (search adj marks node))
    (marks : Marks α) (nodes : List α) :
    visitAll search' marks nodes = some (searchAll adj marks nodes) := by
  induction nodes generalizing marks with
  | nil => rfl
  | cons node nodes ih =>
    rw [visitAll, h, searchAll]
    obtain ⟨found, marks₁⟩ := search adj marks node
    cases found with
    | true => rfl
    | false => exact ih marks₁

end Adjacency

-- ==== what it finds

/-- The colours say what is being visited and what is done. -/
structure Colours (marks : Marks α) (stack done : List α) : Prop where
  visiting : ∀ a, marks.lookup a = some .visiting ↔ a ∈ stack
  done : ∀ a, marks.lookup a = some .done ↔ a ∈ done

variable {done stack : List α}

theorem Colours.enter (h : Colours marks stack done)
    (hnew : marks.lookup node = none) :
    Colours ((node, .visiting) :: marks) (node :: stack) done where
  visiting a := by
    rw [List.lookup_cons, List.mem_cons]
    by_cases ha : a = node
    · rw [ha, beq_self_eq_true]
      exact ⟨fun _ => .inl rfl, fun _ => rfl⟩
    · rw [beq_eq_false_iff_ne.2 ha]
      exact (h.visiting a).trans ⟨.inr, fun h => h.resolve_left ha⟩
  done a := by
    rw [List.lookup_cons]
    by_cases ha : a = node
    · rw [ha, beq_self_eq_true, ← h.done node, hnew]
      exact ⟨fun h => (by cases h), fun h => (by cases h)⟩
    · rw [beq_eq_false_iff_ne.2 ha]
      exact h.done a

theorem Colours.leave (h : Colours marks (node :: stack) done)
    (hnode : node ∉ stack) :
    Colours ((node, .done) :: marks) stack (done ++ [node]) where
  visiting a := by
    rw [List.lookup_cons]
    by_cases ha : a = node
    · rw [ha, beq_self_eq_true]
      exact ⟨fun h => (by cases h), fun h => absurd h hnode⟩
    · rw [beq_eq_false_iff_ne.2 ha]
      exact (h.visiting a).trans
        ⟨fun h => (List.mem_cons.1 h).resolve_left ha, List.mem_cons_of_mem _⟩
  done a := by
    rw [List.lookup_cons, List.mem_append, List.mem_singleton]
    by_cases ha : a = node
    · rw [ha, beq_self_eq_true]
      exact ⟨fun _ => .inr rfl, fun _ => rfl⟩
    · rw [beq_eq_false_iff_ne.2 ha]
      exact (h.done a).trans ⟨.inl, fun h => h.resolve_right ha⟩

/-- What a search answers: there is a cycle, or its goals are done and
settled with what was done before. -/
def Found (r : α → α → Prop) (stack done goals : List α) :
    Bool × Marks α → Prop
  | (true, _) => ∃ a, Relation.TransGen r a a
  | (false, marks) => ∃ done', Colours marks stack done' ∧ Settled r done'
      ∧ done ⊆ done' ∧ goals ⊆ done'

variable {leads : α → List α} {r : α → α → Prop}

variable {result : Bool × Marks α}

theorem found_visitAll {nodes : List α}
    {search : Marks α → α → Option (Bool × Marks α)}
    (hsearch : ∀ marks done, ∀ node ∈ nodes, Colours marks stack done →
      Settled r done → ∀ result, search marks node = some result →
        Found r stack done [node] result)
    (hcolours : Colours marks stack done) (hsettled : Settled r done)
    (h : visitAll search marks nodes = some result) :
    Found r stack done nodes result := by
  induction nodes generalizing marks done with
  | nil =>
    cases h
    exact ⟨done, hcolours, hsettled, List.Subset.refl _, List.nil_subset _⟩
  | cons node nodes ih =>
    rw [visitAll] at h
    cases hvisit : search marks node with
    | none =>
      rw [hvisit] at h
      cases h
    | some first =>
      have hfirst := hsearch marks done node List.mem_cons_self hcolours
        hsettled first hvisit
      rw [hvisit] at h
      obtain ⟨found, marks₁⟩ := first
      cases found with
      | true =>
        cases h
        exact hfirst
      | false =>
        obtain ⟨done₁, hcolours₁, hsettled₁, hsub, hgoal⟩ := hfirst
        have hrest := ih (fun m d x hx => hsearch m d x
          (List.mem_cons_of_mem _ hx)) hcolours₁ hsettled₁ h
        obtain ⟨found, marks₂⟩ := result
        cases found with
        | true => exact hrest
        | false =>
          obtain ⟨done₂, hcolours₂, hsettled₂, hsub₂, hgoals⟩ := hrest
          refine ⟨done₂, hcolours₂, hsettled₂, List.Subset.trans hsub hsub₂, ?_⟩
          exact List.cons_subset.2
            ⟨hsub₂ (hgoal List.mem_cons_self), hgoals⟩

/-- The search, from an element to which all that is being visited leads. -/
theorem visit_found (hr : ∀ a b, r a b ↔ b ∈ leads a) {fuel : Nat}
    (hcolours : Colours marks stack done) (hsettled : Settled r done)
    (hleads : ∀ a ∈ stack, Relation.TransGen r a node)
    (h : visit leads fuel marks node = some result) :
    Found r stack done [node] result := by
  induction fuel generalizing stack done marks node result with
  | zero => cases h
  | succ fuel ih =>
    rw [visit] at h
    cases hmark : marks.lookup node with
    | some mark =>
      rw [hmark] at h
      cases mark with
      | done =>
        cases h
        refine ⟨done, hcolours, hsettled, List.Subset.refl _, ?_⟩
        exact List.cons_subset.2
          ⟨(hcolours.done node).1 hmark, List.nil_subset _⟩
      | visiting =>
        cases h
        exact ⟨node, hleads node ((hcolours.visiting node).1 hmark)⟩
    | none =>
      rw [hmark] at h
      have hnode : node ∉ stack := fun hmem => by
        rw [(hcolours.visiting node).2 hmem] at hmark
        cases hmark
      cases hvisits : visitAll (visit leads fuel)
          ((node, .visiting) :: marks) (leads node) with
      | none =>
        rw [hvisits] at h
        cases h
      | some inner =>
        have hinner := found_visitAll (fun m d x hx hc hs res hres =>
          ih hc hs (fun a ha => by
            have hedge : r node x := (hr node x).2 hx
            rcases List.mem_cons.1 ha with rfl | ha
            · exact .single hedge
            · exact (hleads a ha).tail hedge) hres)
          (hcolours.enter hmark) hsettled hvisits
        rw [hvisits] at h
        obtain ⟨found, marks₁⟩ := inner
        cases found with
        | true =>
          cases h
          exact hinner
        | false =>
          cases h
          obtain ⟨done₁, hcolours₁, hsettled₁, hsub, hgoals⟩ := hinner
          refine ⟨done₁ ++ [node], hcolours₁.leave hnode,
            hsettled₁.snoc fun b hb => hgoals ((hr node b).1 hb),
            List.Subset.trans hsub (List.subset_append_left _ _),
            List.subset_append_right _ _⟩

/-- The search from all elements that lead anywhere finds a cycle exactly
where there is one. -/
theorem searchAll_eq_false {adj : List (α × List α)} {nodes : List α}
    (hall : ∀ a b, b ∈ next adj a → a ∈ nodes) :
    (searchAll adj [] nodes).1 = false
      ↔ ∀ a, ¬ Relation.TransGen (fun a b => b ∈ next adj a) a a := by
  have hnew : Colours ([] : Marks α) [] [] :=
    ⟨fun a => ⟨fun h => (by cases h), fun h => (by cases h)⟩,
      fun a => ⟨fun h => (by cases h), fun h => (by cases h)⟩⟩
  have hfound : Found (fun a b => b ∈ next adj a) [] [] nodes
      (searchAll adj [] nodes) :=
    found_visitAll (fun marks done node _ hcolours hsettled result hres =>
      visit_found (fun _ _ => Iff.rfl) hcolours hsettled
        (fun a ha => (by cases ha)) hres) hnew .nil
      (visitAll_searchAll adj (visit_search adj) [] nodes)
  generalize searchAll adj [] nodes = result at hfound ⊢
  obtain ⟨found, marks⟩ := result
  cases found with
  | true =>
    obtain ⟨a, ha⟩ := hfound
    exact ⟨fun h => (by cases h), fun h => absurd ha (h a)⟩
  | false =>
    obtain ⟨done, -, hsettled, -, hdone⟩ := hfound
    refine ⟨fun _ a hcycle => ?_, fun _ => rfl⟩
    obtain ⟨b, hab, -⟩ := Relation.TransGen.head'_iff.1 hcycle
    exact hsettled.acyclic (hdone (hall a b hab)) hcycle

end Tasty.ThreeColour
