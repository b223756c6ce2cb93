/-
Trimming in stages. Each stage takes letters from the front of a text while
it finds them loose, which may depend on what stands behind them. One pass
over the stages leaves nothing loose exactly when the loose letters come in
the order of the stages.
-/
import Mathlib.Data.List.Basic

namespace Tasty

open List hiding getElem?_eq_some_iff

variable {α : Type}

def dropWhileBefore (p : α → List α → Bool) : List α → List α
  | [] => []
  | a :: rest => if p a rest then dropWhileBefore p rest else a :: rest

def trimAll (stages : List (α → List α → Bool)) (text : List α) : List α :=
  stages.foldl (fun text p => dropWhileBefore p text) text

/-- The first letter is loose for no stage. -/
def Tidy (stages : List (α → List α → Bool)) (text : List α) : Prop :=
  ∀ a rest, text = a :: rest → ∀ p ∈ stages, p a rest = false

/-- What is left when letters that may go are taken one by one. -/
inductive Trims (may : α → List α → Prop) : List α → List α → Prop
  | refl (text : List α) : Trims may text text
  | drop {a : α} {rest left : List α} :
      may a rest → Trims may rest left → Trims may (a :: rest) left

/-- The letters that are loose, up to the first that is not, may go, are
those of stage `k` or later, and none is of an earlier stage than the one
before. -/
def InOrder (stages : List (α → List α → Bool)) (may : α → List α → Prop) :
    Nat → List α → Prop
  | _, [] => True
  | k, a :: rest => ∀ (r : Nat) (p : α → List α → Bool),
      stages[r]? = some p → p a rest = true →
        k ≤ r ∧ may a rest ∧ InOrder stages may r rest

/-- A letter is loose for one stage at most. -/
def Separated (stages : List (α → List α → Bool)) : Prop :=
  ∀ (i j : Nat) (p q : α → List α → Bool) (a : α) (rest : List α),
    stages[i]? = some p → stages[j]? = some q →
      p a rest = true → q a rest = true → i = j

variable {stages : List (α → List α → Bool)} {may : α → List α → Prop}
  {text left : List α} {a : α} {k r : Nat}

theorem separated_of_pairwise (h : stages.Pairwise fun p q =>
      ∀ a rest, p a rest = true → q a rest = false) : Separated stages := by
  intro i j p q a rest hi hj hp hq
  obtain ⟨hil, rfl⟩ := getElem?_eq_some_iff.1 hi
  obtain ⟨hjl, rfl⟩ := getElem?_eq_some_iff.1 hj
  rw [pairwise_iff_getElem] at h
  rcases Nat.lt_trichotomy i j with hij | hij | hij
  · exact absurd hq (Bool.eq_false_iff.1 (h i j hil hjl hij a rest hp))
  · exact hij
  · exact absurd hp (Bool.eq_false_iff.1 (h j i hjl hil hij a rest hq))

theorem Trims.isSuffix (h : Trims may text left) : left <:+ text := by
  induction h with
  | refl => exact suffix_refl _
  | drop _ _ ih => exact ih.trans (suffix_cons _ _)

theorem dropWhileBefore_suffix (p : α → List α → Bool) (text : List α) :
    dropWhileBefore p text <:+ text := by
  induction text with
  | nil => exact suffix_refl _
  | cons a rest ih =>
    unfold dropWhileBefore
    split
    · exact ih.trans (suffix_cons _ _)
    · exact suffix_refl _

theorem trimAll_suffix (stages : List (α → List α → Bool))
    (text : List α) : trimAll stages text <:+ text := by
  induction stages generalizing text with
  | nil => exact suffix_refl _
  | cons p stages ih => exact (ih _).trans (dropWhileBefore_suffix p text)

/-- A letter that is taken may go. -/
theorem trims_cons_iff (h : left <:+ text) :
    Trims may (a :: text) left ↔ may a text ∧ Trims may text left := by
  refine ⟨fun htrims => ?_, fun htrims => .drop htrims.1 htrims.2⟩
  cases htrims with
  | refl => exact absurd h.length_le (Nat.not_succ_le_self _)
  | drop hmay htrims => exact ⟨hmay, htrims⟩

/-- Stages that find the first letter in its place keep it. -/
theorem trimAll_of_kept (h : ∀ p ∈ stages, p a text = false) :
    trimAll stages (a :: text) = a :: text := by
  induction stages with
  | nil => rfl
  | cons p stages ih =>
    rw [forall_mem_cons] at h
    rw [trimAll, foldl_cons, dropWhileBefore, h.1, if_neg Bool.false_ne_true]
    exact ih h.2

theorem trimAll_nil (stages : List (α → List α → Bool)) :
    trimAll stages [] = [] :=
  suffix_nil.1 (trimAll_suffix stages [])

theorem trimAll_of_tidy (h : Tidy stages text) :
    trimAll stages text = text := by
  cases text with
  | nil => exact trimAll_nil stages
  | cons a rest => exact trimAll_of_kept (h a rest rfl)

variable (hs : Separated stages)

include hs

/-- The stages before that of the first letter keep it, and that one takes
it. -/
theorem trimAll_of_loose {p : α → List α → Bool} (hr : stages[r]? = some p)
    (hp : p a text = true) (hk : k ≤ r) :
    trimAll (stages.drop k) (a :: text) = trimAll (stages.drop r) text := by
  obtain ⟨hlt, rfl⟩ := getElem?_eq_some_iff.1 hr
  induction hn : r - k generalizing k with
  | zero =>
    obtain rfl : k = r := by omega
    rw [drop_eq_getElem_cons hlt, trimAll, trimAll, foldl_cons,
      foldl_cons, dropWhileBefore, hp, if_pos rfl]
  | succ n ih =>
    have hkept : stages[k] a text = false := by
      by_contra hloose
      have hsame := hs k r _ _ a text (getElem?_eq_getElem _) hr
        (Bool.of_not_eq_false hloose) hp
      omega
    rw [← ih (by omega : k + 1 ≤ r) (by omega),
      drop_eq_getElem_cons (by omega : k < stages.length),
      trimAll, foldl_cons, dropWhileBefore, hkept,
      if_neg Bool.false_ne_true]
    rfl

theorem tidy_of_trimAll (h : trimAll stages text = text) :
    Tidy stages text := by
  rintro a rest rfl p hp
  obtain ⟨r, hr⟩ := mem_iff_getElem?.1 hp
  by_contra hloose
  rw [← drop_zero (l := stages), trimAll_of_loose hs hr
    (Bool.of_not_eq_false hloose) (Nat.zero_le r)] at h
  have hle := (trimAll_suffix (stages.drop r) rest).length_le
  rw [h] at hle
  exact Nat.not_succ_le_self _ hle

theorem trimAll_complete_iff :
    Tidy stages (trimAll (stages.drop k) text)
        ∧ Trims may text (trimAll (stages.drop k) text)
      ↔ InOrder stages may k text := by
  induction text generalizing k with
  | nil =>
    rw [trimAll_nil]
    refine ⟨fun _ => trivial, fun _ => ⟨fun _ _ hnil => ?_, .refl _⟩⟩
    cases hnil
  | cons a rest ih =>
    unfold InOrder
    by_cases hloose : ∃ (r : Nat) (p : α → List α → Bool),
        stages[r]? = some p ∧ p a rest = true
    · obtain ⟨r, p, hr, hp⟩ := hloose
      have honly : (∀ (r' : Nat) (p' : α → List α → Bool),
            stages[r']? = some p' → p' a rest = true →
              k ≤ r' ∧ may a rest ∧ InOrder stages may r' rest)
          ↔ k ≤ r ∧ may a rest ∧ InOrder stages may r rest := by
        refine ⟨fun h => h r p hr hp, fun h r' p' hr' hp' => ?_⟩
        rwa [← hs r r' p p' a rest hr hr' hp hp']
      rw [honly]
      by_cases hk : k ≤ r
      · rw [trimAll_of_loose hs hr hp hk, trims_cons_iff (trimAll_suffix _ _),
          ← ih, and_iff_right hk]
        exact and_left_comm
      · have hkept : trimAll (stages.drop k) (a :: rest) = a :: rest := by
          refine trimAll_of_kept fun q hq => ?_
          obtain ⟨j, hj⟩ := mem_iff_getElem?.1 hq
          rw [getElem?_drop] at hj
          by_contra hq
          have hsame := hs r (k + j) p q a rest hr hj hp
            (Bool.of_not_eq_false hq)
          omega
        rw [hkept]
        refine ⟨fun h => ?_, fun h => absurd h.1 hk⟩
        have hfalse := h.1 a rest rfl p (mem_of_getElem? hr)
        rw [hp] at hfalse
        cases hfalse
    · have hnone : ∀ p ∈ stages, p a rest = false := by
        intro p hp
        obtain ⟨r, hr⟩ := mem_iff_getElem?.1 hp
        exact Bool.eq_false_iff.2 fun h => hloose ⟨r, p, hr, h⟩
      rw [trimAll_of_kept fun p hp => hnone p (mem_of_mem_drop hp)]
      refine ⟨fun _ r p hr hp => absurd ⟨r, p, hr, hp⟩ hloose,
        fun _ => ⟨?_, .refl _⟩⟩
      intro a' rest' heq
      obtain ⟨rfl, rfl⟩ := List.cons.inj heq
      exact hnone

end Tasty
