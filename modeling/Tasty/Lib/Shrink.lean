/-
The greatest part of a finite set in which nothing is bad, as a loop finds
it: take out all that is bad among what is left, until nothing is.
-/
import Mathlib.Data.Finset.Card

namespace Tasty

variable {α : Type} [DecidableEq α] {bad : Finset α → α → Bool}

def badIn (bad : Finset α → α → Bool) (s : Finset α) : Finset α :=
  s.filter fun a => bad s a = true

/-- What is left of a set once nothing in it is bad. -/
def shrink (bad : Finset α → α → Bool) (s : Finset α) : Finset α :=
  if badIn bad s = ∅ then s
  else shrink bad (s \ badIn bad s)
termination_by s.card
decreasing_by
  rename_i h
  obtain ⟨a, ha⟩ := Finset.nonempty_iff_ne_empty.2 h
  refine Finset.card_lt_card (Finset.ssubset_iff_subset_ne.2
    ⟨Finset.sdiff_subset, fun heq => ?_⟩)
  have hin := (Finset.mem_filter.1 ha).1
  rw [← heq] at hin
  exact (Finset.mem_sdiff.1 hin).2 ha

theorem shrink_subset (s : Finset α) : shrink bad s ⊆ s := by
  induction s using shrink.induct bad with
  | case1 s h =>
    rw [shrink, if_pos h]
  | case2 s h ih =>
    rw [shrink, if_neg h]
    exact ih.trans Finset.sdiff_subset

/-- Nothing that is left is bad. -/
theorem shrink_stable (s : Finset α) :
    ∀ a ∈ shrink bad s, bad (shrink bad s) a = false := by
  induction s using shrink.induct bad with
  | case1 s h =>
    rw [shrink, if_pos h]
    intro a ha
    by_contra hbad
    have hin : a ∈ badIn bad s :=
      Finset.mem_filter.2 ⟨ha, Bool.eq_true_of_not_eq_false hbad⟩
    rw [h] at hin
    exact absurd hin (Finset.notMem_empty a)
  | case2 s h ih =>
    rw [shrink, if_neg h]
    exact ih

/-- What is never bad as long as it is whole is left. -/
theorem subset_shrink {T : Set α} {s : Finset α} (hT : T ⊆ ↑s)
    (hgood : ∀ u : Finset α, T ⊆ ↑u → ∀ a ∈ T, bad u a = false) :
    T ⊆ ↑(shrink bad s) := by
  induction s using shrink.induct bad with
  | case1 s h =>
    rw [shrink, if_pos h]
    exact hT
  | case2 s h ih =>
    rw [shrink, if_neg h]
    refine ih fun a ha => Finset.mem_coe.2 (Finset.mem_sdiff.2
      ⟨hT ha, fun hin => ?_⟩)
    rw [badIn, Finset.mem_filter, hgood s hT a ha] at hin
    cases hin.2

end Tasty
