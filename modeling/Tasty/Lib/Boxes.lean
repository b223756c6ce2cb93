/-
Boxes in any number of axes over a linear order, half open in each axis, and
what it takes for boxes to tile another one. A cut parts a box along one axis
into a first box, a gap and a second box; tilings of the two sides and the gap
tile the whole.
-/
import Mathlib.Order.Lattice

namespace Tasty

open List

/-- The points between a low and a high corner. -/
structure Box (ι K : Type) where
  lo : ι → K
  hi : ι → K

namespace Box

variable {ι K : Type} [LinearOrder K] {a b c whole first gap second : Box ι K}
  {axis : ι}

def Contains (b : Box ι K) (p : ι → K) : Prop :=
  ∀ i, b.lo i ≤ p i ∧ p i < b.hi i

/-- No point is in both. -/
def Apart (a b : Box ι K) : Prop := ∀ p, ¬ (a.Contains p ∧ b.Contains p)

/-- In each axis the one lies between the ends of the other. -/
def Within (a b : Box ι K) : Prop := ∀ i, b.lo i ≤ a.lo i ∧ a.hi i ≤ b.hi i

theorem Within.refl (a : Box ι K) : Within a a :=
  fun i => ⟨le_refl (a.lo i), le_refl (a.hi i)⟩

theorem Within.trans (hab : Within a b) (hbc : Within b c) : Within a c :=
  fun i => ⟨(hbc i).1.trans (hab i).1, (hab i).2.trans (hbc i).2⟩

theorem Within.contains (h : Within a b) {p : ι → K} (hp : a.Contains p) :
    b.Contains p :=
  fun i => ⟨(h i).1.trans (hp i).1, (hp i).2.trans_le (h i).2⟩

theorem Apart.symm (h : Apart a b) : Apart b a := fun p hp => h p hp.symm

/-- Two boxes with a coordinate between them have no point in common. -/
theorem apart_of_le (axis : ι) (h : a.hi axis ≤ b.lo axis) : Apart a b := by
  intro p hp
  have hlow := (hp.1 axis).2
  have hhigh := (hp.2 axis).1
  exact absurd (hlow.trans_le (h.trans hhigh)) (lt_irrefl (p axis))

-- ==== cuts

/-- `whole` is cut along `axis`: a first box, a gap and a second box follow
each other, and each is as wide as the whole across the other axes. -/
structure Cut (axis : ι) (whole first gap second : Box ι K) : Prop where
  lo_first : first.lo axis = whole.lo axis
  hi_first : first.hi axis = gap.lo axis
  hi_gap : gap.hi axis = second.lo axis
  hi_second : second.hi axis = whole.hi axis
  first_lt : first.lo axis < first.hi axis
  gap_le : gap.lo axis ≤ gap.hi axis
  second_lt : second.lo axis < second.hi axis
  across_first : ∀ i, i ≠ axis →
    first.lo i = whole.lo i ∧ first.hi i = whole.hi i
  across_gap : ∀ i, i ≠ axis → gap.lo i = whole.lo i ∧ gap.hi i = whole.hi i
  across_second : ∀ i, i ≠ axis →
    second.lo i = whole.lo i ∧ second.hi i = whole.hi i

namespace Cut

variable (h : Cut axis whole first gap second)

include h

theorem first_le_second : first.hi axis ≤ second.lo axis := by
  rw [h.hi_first, ← h.hi_gap]
  exact h.gap_le

theorem within_first : Within first whole := by
  intro i
  by_cases hi : i = axis
  · subst hi
    refine ⟨h.lo_first.ge, ?_⟩
    rw [← h.hi_second]
    exact h.first_le_second.trans h.second_lt.le
  · obtain ⟨hlo, hhi⟩ := h.across_first i hi
    exact ⟨hlo.ge, hhi.le⟩

theorem within_second : Within second whole := by
  intro i
  by_cases hi : i = axis
  · subst hi
    refine ⟨?_, h.hi_second.le⟩
    rw [← h.lo_first]
    exact h.first_lt.le.trans h.first_le_second
  · obtain ⟨hlo, hhi⟩ := h.across_second i hi
    exact ⟨hlo.ge, hhi.le⟩

theorem within_gap : Within gap whole := by
  intro i
  by_cases hi : i = axis
  · subst hi
    constructor
    · rw [← h.lo_first, ← h.hi_first]
      exact h.first_lt.le
    · rw [← h.hi_second, h.hi_gap]
      exact h.second_lt.le
  · obtain ⟨hlo, hhi⟩ := h.across_gap i hi
    exact ⟨hlo.ge, hhi.le⟩

/-- A point of the whole is in one of the three parts. -/
theorem contains_iff (p : ι → K) :
    whole.Contains p
      ↔ gap.Contains p ∨ first.Contains p ∨ second.Contains p := by
  constructor
  · intro hp
    have hbetween : ∀ part : Box ι K,
        (∀ i, i ≠ axis → part.lo i = whole.lo i ∧ part.hi i = whole.hi i) →
        part.lo axis ≤ p axis → p axis < part.hi axis → part.Contains p := by
      intro part hacross hlo hhi i
      by_cases hi : i = axis
      · subst hi
        exact ⟨hlo, hhi⟩
      · rw [(hacross i hi).1, (hacross i hi).2]
        exact hp i
    by_cases hfirst : p axis < first.hi axis
    · refine .inr (.inl (hbetween first h.across_first ?_ hfirst))
      rw [h.lo_first]
      exact (hp axis).1
    · have hpast := not_lt.1 hfirst
      by_cases hgap : p axis < gap.hi axis
      · refine .inl (hbetween gap h.across_gap ?_ hgap)
        rw [← h.hi_first]
        exact hpast
      · refine .inr (.inr (hbetween second h.across_second ?_ ?_))
        · rw [← h.hi_gap]
          exact not_lt.1 hgap
        · rw [h.hi_second]
          exact (hp axis).2
  · rintro (hp | hp | hp)
    · exact h.within_gap.contains hp
    · exact h.within_first.contains hp
    · exact h.within_second.contains hp

omit h

end Cut

-- ==== tilings

/-- No two of the boxes have a point in common, and together they are the
whole. -/
structure Tiles (pieces : List (Box ι K)) (whole : Box ι K) : Prop where
  apart : pieces.Pairwise Apart
  covers : ∀ p, whole.Contains p ↔ ∃ b ∈ pieces, b.Contains p

namespace Tiles

variable {ps qs : List (Box ι K)}

theorem single (whole : Box ι K) : Tiles [whole] whole where
  apart := pairwise_singleton Apart whole
  covers p := by simp

theorem perm (h : Tiles ps whole) (hperm : ps.Perm qs) : Tiles qs whole where
  apart := (hperm.pairwise_iff fun {_ _} h => Apart.symm h).1 h.apart
  covers p := by
    rw [h.covers p]
    exact exists_congr fun b => and_congr_left fun _ => hperm.mem_iff

theorem apart_of_apart (hp : Tiles ps a) (hq : Tiles qs b) (hab : Apart a b)
    {x y : Box ι K} (hx : x ∈ ps) (hy : y ∈ qs) : Apart x y := by
  intro p hboth
  refine hab p ⟨(hp.covers p).2 ⟨x, hx, hboth.1⟩, (hq.covers p).2 ⟨y, hy, hboth.2⟩⟩

/-- The gap of a cut and tilings of its two sides tile the whole. -/
theorem cut (h : Cut axis whole first gap second) (hp : Tiles ps first)
    (hq : Tiles qs second) : Tiles (gap :: (ps ++ qs)) whole where
  apart := by
    have hgap : Tiles [gap] gap := single gap
    have hgapFirst : Apart gap first :=
      Apart.symm (apart_of_le axis h.hi_first.le)
    have hgapSecond : Apart gap second := apart_of_le axis h.hi_gap.le
    have hsides : Apart first second := apart_of_le axis h.first_le_second
    refine pairwise_cons.2 ⟨?_, pairwise_append.2
      ⟨hp.apart, hq.apart, fun x hx y hy => hp.apart_of_apart hq hsides hx hy⟩⟩
    intro x hx
    rcases mem_append.1 hx with hx | hx
    · exact hgap.apart_of_apart hp hgapFirst mem_cons_self hx
    · exact hgap.apart_of_apart hq hgapSecond mem_cons_self hx
  covers p := by
    rw [h.contains_iff p, hp.covers p, hq.covers p]
    simp only [mem_cons, mem_append, or_and_right, exists_or, exists_eq_left]

end Tiles

end Box

end Tasty
