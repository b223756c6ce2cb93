/-
Rows under numbers that never change their meaning: a timeline keeps a run
of rows, numbered one after another from the number of its first row; rows
are added behind the last one and dropped from the front. What may happen
to a kept row is a relation `R` between what was there and what is there
now.

A timeline of another epoch has nothing to do with this one: its numbers
start over. `Later R` follows both, and is closed under composition, so
that a whole run of steps is one such step.
-/
import Mathlib.Data.List.Forall2
import Mathlib.Order.Defs.PartialOrder

namespace Tasty

open List hiding getElem?_eq_some_iff

/-- The rows of one epoch that are still kept, the oldest first. -/
structure Timeline (α : Type) where
  epoch : Nat
  first : Nat
  rows : List α

namespace Timeline

variable {α : Type} {R : α → α → Prop} {t t' t'' : Timeline α}

/-- The number that the next row gets. -/
def next (t : Timeline α) : Nat := t.first + t.rows.length

/-- The row under a number, if that is kept. -/
def row (t : Timeline α) (r : Nat) : Option α :=
  if t.first ≤ r then t.rows[r - t.first]? else none

-- ==== reading

variable {r : Nat} {x : α}

theorem row_eq_some :
    t.row r = some x ↔ t.first ≤ r ∧ t.rows[r - t.first]? = some x := by
  unfold row
  split
  · next h => simp [h]
  · next h => simp [h]

theorem row_of_lt (h : r < t.first) : t.row r = none :=
  if_neg (by omega)

/-- What is kept is one run of numbers. -/
theorem row_isSome : (t.row r).isSome ↔ t.first ≤ r ∧ r < t.next := by
  unfold row next
  split
  · next h =>
    rw [isSome_getElem?]
    omega
  · next h => simp [h]

-- ==== continuations

/-- The same epoch, some time later: `added` came behind the last row, `n`
rows went at the front, and the rest is as `R` allows. -/
def Extends (R : α → α → Prop) (t : Timeline α) (added : List α)
    (t' : Timeline α) : Prop :=
  t'.epoch = t.epoch ∧ ∃ n, t'.first = t.first + n
    ∧ n ≤ (t.rows ++ added).length
    ∧ List.Forall₂ R ((t.rows ++ added).drop n) t'.rows

theorem Extends.refl [Std.Refl R] (t : Timeline α) : t.Extends R [] t :=
  ⟨rfl, 0, rfl, Nat.zero_le _, by simpa using forall₂_refl t.rows⟩

theorem forall₂_trans [IsTrans α R] {xs ys zs : List α}
    (h : List.Forall₂ R xs ys) (h' : List.Forall₂ R ys zs) :
    List.Forall₂ R xs zs := by
  induction h generalizing zs with
  | nil => exact h'
  | cons hx _ ih =>
    cases h' with
    | cons hy h' => exact .cons (trans_of R hx hy) (ih h')

variable {added : List α}

variable (h : t.Extends R added t')

include h

theorem Extends.trans [Std.Refl R] [IsTrans α R] {added' : List α}
    (h' : t'.Extends R added' t'') : t.Extends R (added ++ added') t'' := by
  obtain ⟨he, n, hf, hn, hr⟩ := h
  obtain ⟨he', n', hf', hn', hr'⟩ := h'
  have hlen := hr.length_eq
  rw [length_drop] at hlen
  rw [length_append] at hn'
  refine ⟨he'.trans he, n + n', by omega, ?_, ?_⟩
  · simp only [length_append] at hn hlen ⊢
    omega
  · have hall : List.Forall₂ R
        ((t.rows ++ added).drop n ++ added') (t'.rows ++ added') :=
      rel_append hr (forall₂_refl added')
    have hdrop := forall₂_drop n' hall
    rw [← drop_append_of_le_length hn, drop_drop, append_assoc] at hdrop
    exact forall₂_trans hdrop hr'

theorem Extends.first_le : t.first ≤ t'.first := by
  obtain ⟨-, n, hf, -⟩ := h
  omega

/-- The numbers given out are those of the rows that were added. -/
theorem Extends.next_eq : t'.next = t.next + added.length := by
  obtain ⟨-, n, hf, hn, hr⟩ := h
  have hlen := hr.length_eq
  simp only [length_drop, length_append] at hlen hn
  unfold next
  omega

/-- A kept number still stands for its row. -/
theorem Extends.row (hx : t.row r = some x)
    (hr : t'.first ≤ r) : ∃ y, t'.row r = some y ∧ R x y := by
  obtain ⟨-, n, hf, -, hrows⟩ := h
  obtain ⟨hfirst, hget⟩ := row_eq_some.1 hx
  have hlt := (getElem?_eq_some_iff.1 hget).1
  have hold : ((t.rows ++ added).drop n)[r - t'.first]? = some x := by
    rw [getElem?_drop, show n + (r - t'.first) = r - t.first by omega,
      getElem?_append_left hlt]
    exact hget
  obtain ⟨hi, hgeti⟩ := getElem?_eq_some_iff.1 hold
  have hi' : r - t'.first < t'.rows.length := by
    rw [← hrows.length_eq]
    exact hi
  refine ⟨t'.rows[r - t'.first], row_eq_some.2 ⟨hr, by simp [hi']⟩, ?_⟩
  have := hrows.get hi hi'
  simpa [get_eq_getElem, hgeti] using this

/-- A number that was given to an added row stands for that row, unless it
has been dropped. -/
theorem Extends.added_row {i : Nat}
    (hx : added[i]? = some x) (hr : t'.first ≤ t.next + i) :
    ∃ y, t'.row (t.next + i) = some y ∧ R x y := by
  obtain ⟨he, n, hf, hn, hrows⟩ := h
  have hx' : (t.rows ++ added)[t.rows.length + i]? = some x := by
    rw [getElem?_append_right (by omega)]
    simpa using hx
  have hall : Extends R { t with rows := t.rows ++ added } [] t' :=
    ⟨he, n, hf, by simpa using hn, by simpa using hrows⟩
  refine hall.row (row_eq_some.2 ⟨?_, ?_⟩) hr
  · show t.first ≤ t.first + t.rows.length + i
    omega
  · show (t.rows ++ added)[t.first + t.rows.length + i - t.first]? = some x
    rw [show t.first + t.rows.length + i - t.first = t.rows.length + i by
      omega]
    exact hx'

omit h

-- ==== any step

/-- Some time later: a continuation, or another epoch. -/
def Later (R : α → α → Prop) (t t' : Timeline α) : Prop :=
  (∃ added, t.Extends R added t') ∨ t.epoch < t'.epoch

theorem Later.epoch_le (h : t.Later R t') : t.epoch ≤ t'.epoch := by
  obtain ⟨_, h⟩ | h := h
  · exact Nat.le_of_eq h.1.symm
  · omega

theorem Later.refl [Std.Refl R] (t : Timeline α) : t.Later R t :=
  .inl ⟨[], .refl t⟩

theorem Later.trans [Std.Refl R] [IsTrans α R] (h : t.Later R t')
    (h' : t'.Later R t'') : t.Later R t'' := by
  have hle := h.epoch_le
  have hle' := h'.epoch_le
  obtain ⟨added, h⟩ | h := h
  · obtain ⟨added', h'⟩ | h' := h'
    · exact .inl ⟨_, h.trans h'⟩
    · exact .inr (by omega)
  · exact .inr (by omega)

/-- In one epoch nothing but a continuation can have happened. -/
theorem Later.extends (h : t.Later R t') (he : t'.epoch = t.epoch) :
    ∃ added, t.Extends R added t' := by
  obtain h | h := h
  · exact h
  · omega

end Timeline

end Tasty
