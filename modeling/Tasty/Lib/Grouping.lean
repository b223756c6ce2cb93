/-
Groups: the elements of a list by a key, as an ordered map holds them that
each is pushed into, and union-find over the numbers below `n`. There the
representative of a class is its least element, and a search halves the way
it goes; what is joined is the equivalence that the joined pairs generate
(`Joins`).
-/
import Mathlib.Data.List.Dedup
import Mathlib.Data.List.Sort

namespace Tasty

open List

variable {α κ : Type} [LinearOrder κ] {key : α → κ} {l : List α}

/-- The keys, in order. -/
def groupKeys (key : α → κ) (l : List α) : List κ :=
  (l.map key).dedup.insertionSort (· ≤ ·)

/-- Each key with its elements, in the order they were pushed. -/
def grouped (key : α → κ) (l : List α) : List (κ × List α) :=
  (groupKeys key l).map fun k => (k, l.filter fun a => key a = k)

theorem nodup_groupKeys : (groupKeys key l).Nodup :=
  (perm_insertionSort _ _).nodup_iff.2 (nodup_dedup _)

theorem mem_groupKeys {k : κ} : k ∈ groupKeys key l ↔ ∃ a ∈ l, key a = k := by
  unfold groupKeys
  rw [mem_insertionSort, mem_dedup, mem_map]

theorem map_fst_grouped : (grouped key l).map Prod.fst = groupKeys key l := by
  unfold grouped
  rw [map_map]
  exact map_id _

theorem mem_grouped {p : κ × List α} : p ∈ grouped key l ↔
    (∃ a ∈ l, key a = p.1) ∧ p.2 = l.filter fun a => key a = p.1 := by
  obtain ⟨k, group⟩ := p
  unfold grouped
  rw [mem_map]
  constructor
  · rintro ⟨k', hk', heq⟩
    obtain ⟨rfl, rfl⟩ := Prod.mk.inj heq
    exact ⟨mem_groupKeys.1 hk', rfl⟩
  · rintro ⟨hk, hgroup⟩
    exact ⟨k, mem_groupKeys.2 hk, Prod.ext rfl hgroup.symm⟩

theorem ne_nil_of_grouped {p : κ × List α} (hp : p ∈ grouped key l) :
    p.2 ≠ [] := by
  obtain ⟨⟨a, ha, hk⟩, hgroup⟩ := mem_grouped.1 hp
  rw [hgroup]
  exact ne_nil_of_mem (mem_filter.2 ⟨ha, decide_eq_true hk⟩)

theorem flatMap_filter_perm {ks : List κ} (hks : ks.Nodup)
    (hall : ∀ a ∈ l, key a ∈ ks) :
    (ks.flatMap fun k => l.filter fun a => key a = k).Perm l := by
  induction ks generalizing l with
  | nil =>
    cases l with
    | nil => exact .refl _
    | cons a l => exact absurd (hall a mem_cons_self) not_mem_nil
  | cons k ks ih =>
    obtain ⟨hk, hks⟩ := nodup_cons.1 hks
    have hrest : (ks.flatMap fun k' => l.filter fun a => key a = k')
        = ks.flatMap fun k' =>
          (l.filter fun a => !decide (key a = k)).filter
            fun a => key a = k' := by
      refine flatMap_congr fun k' hk' => ?_
      rw [filter_filter]
      refine filter_congr fun a _ => ?_
      have hne : k' ≠ k := fun heq => hk (heq ▸ hk')
      by_cases ha : key a = k'
      · simp [ha, hne]
      · simp [ha]
    rw [flatMap_cons, hrest]
    have hmore := ih (l := l.filter fun a => !decide (key a = k)) hks
      fun a ha => by
        obtain ⟨hal, hne⟩ := mem_filter.1 ha
        rcases mem_cons.1 (hall a hal) with h | h
        · simp [h] at hne
        · exact h
    exact (hmore.append_left _).trans (filter_append_perm _ l)

theorem grouped_perm : ((grouped key l).flatMap Prod.snd).Perm l := by
  unfold grouped
  rw [flatMap_map]
  exact flatMap_filter_perm nodup_groupKeys fun a ha =>
    mem_groupKeys.2 ⟨a, ha, rfl⟩

/-- The order of the elements does not matter to the keys. -/
theorem groupKeys_of_perm {l' : List α} (h : l.Perm l') :
    groupKeys key l = groupKeys key l' := by
  unfold groupKeys
  refine List.Perm.eq_of_pairwise' (pairwise_insertionSort _ _)
    (pairwise_insertionSort _ _) ?_
  exact (perm_insertionSort _ _).trans
    (((h.map key).dedup).trans (perm_insertionSort _ _).symm)

/-- Where no two elements are equal in order, sorting forgets how the list
was ordered. -/
theorem insertionSort_of_perm {le : α → α → Prop} [DecidableRel le]
    [Std.Total le] [IsTrans α le] {l' : List α} (h : l.Perm l')
    (hanti : ∀ a ∈ l, ∀ b ∈ l, le a b → le b a → a = b) :
    l.insertionSort le = l'.insertionSort le := by
  refine List.Perm.eq_of_pairwise (fun a b ha hb => ?_)
    (pairwise_insertionSort le _) (pairwise_insertionSort le _) ?_
  · exact hanti a ((mem_insertionSort _).1 ha) b
      (h.mem_iff.2 ((mem_insertionSort _).1 hb))
  · exact (perm_insertionSort le l).trans
      (h.trans (perm_insertionSort le l').symm)

end Tasty

-- ==== union-find

namespace Tasty

/-- A parent is never above its child. -/
structure UnionFind (n : Nat) where
  parent : Fin n → Fin n
  le : ∀ i, parent i ≤ i

namespace UnionFind

variable {n : Nat}

def start (n : Nat) : UnionFind n := ⟨id, fun i => Nat.le_refl i.val⟩

/-- `parent[x] = y`. -/
def set (u : UnionFind n) (x y : Fin n) (h : y ≤ x) : UnionFind n where
  parent z := if z = x then y else u.parent z
  le z := by
    by_cases hz : z = x
    · rw [if_pos hz, hz]
      exact h
    · rw [if_neg hz]
      exact u.le z

theorem parent_lt {u : UnionFind n} {x : Fin n} (h : u.parent x ≠ x) :
    u.parent x < x :=
  lt_of_le_of_ne (u.le x) h

/-- Each element on the way is pointed to its grandparent. -/
def find (u : UnionFind n) (x : Fin n) : Fin n × UnionFind n :=
  if u.parent x = x then (x, u)
  else
    let y := u.parent (u.parent x)
    (u.set x y ((u.le _).trans (u.le x))).find y
termination_by x.val
decreasing_by
  exact Fin.lt_def.1 (lt_of_le_of_lt (u.le _) (parent_lt (by assumption)))

/-- The smaller of the two representatives stays one. -/
def union (u : UnionFind n) (a b : Fin n) : UnionFind n :=
  let (ra, u) := u.find a
  let (rb, u) := u.find b
  if ra = rb then u
  else if h : ra < rb then u.set rb ra h.le
  else u.set ra rb (not_lt.1 h)

-- ==== what is joined

/-- The representative. -/
def root (u : UnionFind n) (x : Fin n) : Fin n :=
  if u.parent x = x then x else u.root (u.parent x)
termination_by x
decreasing_by exact parent_lt (by assumption)

variable {u : UnionFind n} {x y z : Fin n}

theorem root_of_parent (h : u.parent x = x) : u.root x = x := by
  rw [root, if_pos h]

theorem root_parent : u.root (u.parent x) = u.root x := by
  by_cases h : u.parent x = x
  · rw [h]
  · conv_rhs => rw [root, if_neg h]

theorem parent_root : u.parent (u.root x) = u.root x := by
  induction x using root.induct u with
  | case1 x h => rw [root_of_parent h, h]
  | case2 x h ih =>
    rw [root_parent] at ih
    exact ih

/-- What a root is and what a parent keeps determine the representative. -/
theorem root_eq_of {f : Fin n → Fin n} (hfix : ∀ z, u.parent z = z → f z = z)
    (hstep : ∀ z, f (u.parent z) = f z) (z : Fin n) : u.root z = f z := by
  induction z using root.induct u with
  | case1 z h => rw [root_of_parent h, hfix z h]
  | case2 z h ih => rw [← root_parent, ih, hstep]

/-- Pointing an element further up its own way changes no class. -/
theorem root_set_up (hyx : y ≤ x) (hne : y ≠ x) (hroot : u.root y = u.root x)
    (z : Fin n) : (u.set x y hyx).root z = u.root z := by
  refine root_eq_of (fun z hz => ?_) (fun z => ?_) z
  · unfold set at hz
    dsimp only at hz
    by_cases hzx : z = x
    · rw [if_pos hzx] at hz
      exact absurd (hz.trans hzx) hne
    · rw [if_neg hzx] at hz
      exact root_of_parent hz
  · unfold set
    dsimp only
    by_cases hzx : z = x
    · rw [if_pos hzx, hroot, hzx]
    · rw [if_neg hzx, root_parent]

/-- Pointing one representative to another joins their classes. -/
theorem root_set_root (hyx : y ≤ x) (hne : y ≠ x) (hx : u.parent x = x)
    (hy : u.parent y = y) (z : Fin n) :
    (u.set x y hyx).root z = if u.root z = x then y else u.root z := by
  let g : Fin n → Fin n := fun r => if r = x then y else r
  have hgx : g x = y := if_pos rfl
  have hgy : g y = y := if_neg hne
  refine root_eq_of (f := fun z => g (u.root z)) (fun z hz => ?_)
    (fun z => ?_) z
  · unfold set at hz
    dsimp only at hz ⊢
    by_cases hzx : z = x
    · rw [if_pos hzx] at hz
      exact absurd (hz.trans hzx) hne
    · rw [if_neg hzx] at hz
      rw [root_of_parent hz]
      exact if_neg hzx
  · unfold set
    dsimp only
    by_cases hzx : z = x
    · rw [if_pos hzx, hzx, root_of_parent hx, root_of_parent hy, hgx, hgy]
    · rw [if_neg hzx, root_parent]

/-- A search finds the representative and changes no class. -/
theorem find_spec (u : UnionFind n) (x : Fin n) :
    (u.find x).1 = u.root x ∧ ∀ z, (u.find x).2.root z = u.root z := by
  induction u, x using find.induct with
  | case1 u x h =>
    rw [find, if_pos h]
    exact ⟨(root_of_parent h).symm, fun z => rfl⟩
  | case2 u x h y ih =>
    have hle : y ≤ x := (u.le _).trans (u.le x)
    have hne : y ≠ x := (lt_of_le_of_lt (u.le _) (parent_lt h)).ne
    have hroot : u.root y = u.root x := root_parent.trans root_parent
    have hset := root_set_up hle hne hroot
    rw [find, if_neg h]
    exact ⟨ih.1.trans ((hset y).trans hroot), fun z => (ih.2 z).trans (hset z)⟩

/-- They are in one class. -/
def Same (u : UnionFind n) (x y : Fin n) : Prop := u.root x = u.root y

theorem same_start : (start n).Same x y ↔ x = y := by
  have hroot : ∀ z, (start n).root z = z := fun z => root_of_parent rfl
  unfold Same
  rw [hroot, hroot]

/-- A union joins two classes and keeps the others. -/
theorem same_union {a b : Fin n} : (u.union a b).Same x y ↔
    u.Same x y ∨ u.Same x a ∧ u.Same b y ∨ u.Same x b ∧ u.Same a y := by
  obtain ⟨ha, hafter⟩ := u.find_spec a
  obtain ⟨hb, hbfter⟩ := (u.find a).2.find_spec b
  rw [hafter] at hb
  have hroots : ∀ z, ((u.find a).2.find b).2.root z = u.root z :=
    fun z => (hbfter z).trans (hafter z)
  have hfixed : ∀ z, ((u.find a).2.find b).2.parent (u.root z) = u.root z := by
    intro z
    rw [← hroots]
    exact parent_root
  unfold union Same
  dsimp only
  rw [ha, hb]
  by_cases heq : u.root a = u.root b
  · rw [if_pos heq, hroots, hroots]
    constructor
    · exact .inl
    · rintro (h | ⟨h, h'⟩ | ⟨h, h'⟩)
      · exact h
      · exact h.trans (heq.trans h')
      · exact h.trans (heq.symm.trans h')
  · rw [if_neg heq]
    by_cases hlt : u.root a < u.root b
    · rw [dif_pos hlt, root_set_root _ heq (hfixed b) (hfixed a),
        root_set_root _ heq (hfixed b) (hfixed a), hroots, hroots]
      grind
    · rw [dif_neg hlt, root_set_root _ (Ne.symm heq) (hfixed a) (hfixed b),
        root_set_root _ (Ne.symm heq) (hfixed a) (hfixed b), hroots, hroots]
      grind

-- ==== many unions

/-- Its classes are those that the pairs generate. -/
def Joins (u : UnionFind n) (pairs : List (Fin n × Fin n)) : Prop :=
  ∀ x y, u.Same x y ↔ Relation.EqvGen (fun a b => (a, b) ∈ pairs) x y

theorem joins_start : (start n).Joins [] := by
  intro x y
  rw [same_start]
  constructor
  · rintro rfl
    exact .refl x
  · intro h
    induction h with
    | rel _ _ h => cases h
    | refl => rfl
    | symm _ _ _ ih => exact ih.symm
    | trans _ _ _ _ _ ih ih' => exact ih.trans ih'

theorem Joins.union {pairs : List (Fin n × Fin n)} (h : u.Joins pairs)
    (a b : Fin n) : (u.union a b).Joins (pairs ++ [(a, b)]) := by
  have hold : ∀ x y, u.Same x y → Relation.EqvGen
      (fun x y => (x, y) ∈ pairs ++ [(a, b)]) x y := fun x y hxy =>
    Relation.EqvGen.mono (fun _ _ h => List.mem_append_left _ h) x y
      ((h x y).1 hxy)
  have hnew : Relation.EqvGen (fun x y => (x, y) ∈ pairs ++ [(a, b)]) a b :=
    .rel _ _ (List.mem_append_right _ (List.mem_singleton_self _))
  intro x y
  constructor
  · intro hxy
    rcases same_union.1 hxy with hxy | ⟨hxa, hby⟩ | ⟨hxb, hay⟩
    · exact hold x y hxy
    · exact .trans _ _ _ (hold x a hxa) (.trans _ _ _ hnew (hold b y hby))
    · exact .trans _ _ _ (hold x b hxb)
        (.trans _ _ _ (.symm _ _ hnew) (hold a y hay))
  · intro hxy
    induction hxy with
    | rel x y hmem =>
      rcases List.mem_append.1 hmem with hmem | hmem
      · exact same_union.2 (.inl ((h x y).2 (.rel _ _ hmem)))
      · cases List.mem_singleton.1 hmem
        exact same_union.2 (.inr (.inl ⟨rfl, rfl⟩))
    | refl => rfl
    | symm _ _ _ ih => exact ih.symm
    | trans _ _ _ _ _ ih ih' => exact ih.trans ih'

theorem Joins.foldl {pairs : List (Fin n × Fin n)} (h : u.Joins pairs)
    (more : List (Fin n × Fin n)) :
    (more.foldl (fun u (p : Fin n × Fin n) => u.union p.1 p.2) u).Joins
      (pairs ++ more) := by
  induction more generalizing u pairs with
  | nil => rwa [List.append_nil]
  | cons p more ih =>
    have hrest := ih (h.union p.1 p.2)
    rwa [List.append_assoc] at hrest

end UnionFind

end Tasty
