/-
What is cut off behind a link in a row (`crates/tasty-terminal-link/src/
lib.rs`): punctuation first, then the closing brackets of one kind after
the other.
-/
import Tasty.Lib.Trimming

namespace Tasty.Terminal

open List

def PUNCTUATION : List Char := ['.', ',', ';', ':', '!', '?']

/-- The kinds of brackets, closing and opening, in the order of the loop. -/
def BRACKETS : List (Char × Char) :=
  [(')', '('), (']', '['), ('}', '{'), ('>', '<')]

/-- The inner loop, over the text read from its end. -/
def dropUnmatched (ch opener : Char) : List Char → List Char
  | [] => []
  | c :: inner =>
    if c = ch ∧ inner.count opener ≤ inner.count ch then
      dropUnmatched ch opener inner
    else c :: inner

def trimTrailingPunct (s : String) : String :=
  let trimmed := s.toList.reverse.dropWhile PUNCTUATION.contains
  let kept := BRACKETS.foldl
    (fun text bracket => dropUnmatched bracket.1 bracket.2 text) trimmed
  String.ofList kept.reverse

-- ==== the stages

/-- A closing bracket that nothing before it opens. -/
def unmatched (bracket : Char × Char) (c : Char) (inner : List Char) : Bool :=
  c = bracket.1 ∧ inner.count bracket.2 ≤ inner.count bracket.1

/-- The characters each loop takes. -/
def STAGES : List (Char → List Char → Bool) :=
  (fun c _ => PUNCTUATION.contains c) :: BRACKETS.map unmatched

/-- Whether a closing bracket behind the text, read from its end, closes an
opener in it; so many closing ones are to be closed before. -/
def isOpened (bracket : Char × Char) : Nat → List Char → Bool
  | _, [] => false
  | depth, c :: inner =>
    if c = bracket.2 then
      match depth with
      | 0 => true
      | depth + 1 => isOpened bracket depth inner
    else if c = bracket.1 then isOpened bracket (depth + 1) inner
    else isOpened bracket depth inner

/-- Punctuation, or a closing bracket without its opener. -/
def Removable (c : Char) (inner : List Char) : Prop :=
  c ∈ PUNCTUATION
    ∨ ∃ bracket ∈ BRACKETS, c = bracket.1 ∧ isOpened bracket 0 inner = false

/-- A link text that is cut as it should be. -/
structure Trimmed (s trimmed : String) : Prop where
  isPrefix : trimmed.toList <+: s.toList
  complete : ∀ inner c, trimmed.toList = inner ++ [c] →
    ¬ Removable c inner.reverse
  only : Trims Removable s.toList.reverse trimmed.toList.reverse
  again : trimTrailingPunct trimmed = trimmed

theorem trimTrailingPunct_reverse (s : String) :
    (trimTrailingPunct s).toList.reverse
      = trimAll STAGES s.toList.reverse := by
  have hpunct : ∀ text : List Char, text.dropWhile PUNCTUATION.contains
      = dropWhileBefore (fun c _ => PUNCTUATION.contains c) text := by
    intro text
    induction text with
    | nil => rfl
    | cons c text ih => rw [dropWhile_cons, dropWhileBefore, ih]
  have hbracket : ∀ ch opener (text : List Char),
      dropUnmatched ch opener text
        = dropWhileBefore (unmatched (ch, opener)) text := by
    intro ch opener text
    induction text with
    | nil => rfl
    | cons c text ih =>
      rw [dropUnmatched, dropWhileBefore, ih]
      simp only [unmatched, decide_eq_true_eq]
  rw [trimTrailingPunct, String.toList_ofList, reverse_reverse, hpunct]
  simp only [hbracket, trimAll, STAGES, foldl_cons, foldl_map]

theorem stages_separated : Separated STAGES := by
  have hclosing : ∀ bracket c inner, unmatched bracket c inner = true →
      c = bracket.1 := fun _ _ _ h => (of_decide_eq_true h).1
  refine separated_of_pairwise (pairwise_cons.2 ⟨?_, ?_⟩)
  · intro q hq c inner (hpunct : PUNCTUATION.contains c = true)
    obtain ⟨bracket, hmem, rfl⟩ := mem_map.1 hq
    have hnot : BRACKETS.all (fun b => !PUNCTUATION.contains b.1) = true := by
      decide
    have hb := all_eq_true.1 hnot bracket hmem
    refine Bool.eq_false_iff.2 fun h => ?_
    rw [← hclosing _ _ _ h, hpunct] at hb
    cases hb
  · have hne : BRACKETS.Pairwise fun b b' => b.1 ≠ b'.1 := by decide
    refine pairwise_map.2 (hne.imp fun {b b'} hbb c inner h => ?_)
    refine Bool.eq_false_iff.2 fun h' => hbb ?_
    rw [← hclosing _ _ _ h, ← hclosing _ _ _ h']

theorem count_of_not_opened {bracket : Char × Char}
    (hne : bracket.1 ≠ bracket.2) {depth : Nat} {inner : List Char}
    (h : isOpened bracket depth inner = false) :
    inner.count bracket.2 ≤ inner.count bracket.1 + depth := by
  induction inner generalizing depth with
  | nil => exact Nat.zero_le _
  | cons c inner ih =>
    unfold isOpened at h
    split at h
    · rename_i hopen
      subst hopen
      cases depth with
      | zero => cases h
      | succ depth =>
        have hle := ih h
        rw [count_cons_self, count_cons_of_ne (Ne.symm hne)]
        omega
    · rename_i hopen
      rw [count_cons_of_ne hopen]
      split at h
      · rename_i hclose
        subst hclose
        have hle := ih h
        rw [count_cons_self]
        omega
      · rename_i hclose
        rw [count_cons_of_ne hclose]
        exact ih h

/-- Each loop takes what may go, and at times more. -/
theorem loose_of_removable {c : Char} {inner : List Char}
    (h : Removable c inner) : ∃ p ∈ STAGES, p c inner = true := by
  rcases h with h | ⟨bracket, hmem, rfl, h⟩
  · exact ⟨_, mem_cons_self, contains_iff_mem.2 h⟩
  · have hne : BRACKETS.all (fun b => b.1 != b.2) = true := by decide
    have hcount := count_of_not_opened
      (bne_iff_ne.1 (all_eq_true.1 hne bracket hmem)) h
    exact ⟨_, mem_cons_of_mem _ (mem_map_of_mem hmem),
      decide_eq_true ⟨rfl, hcount⟩⟩

theorem trimTrailingPunct_complete_iff (s : String) :
    Trimmed s (trimTrailingPunct s)
      ↔ InOrder STAGES Removable 0 s.toList.reverse := by
  have hagain := trimTrailingPunct_reverse (trimTrailingPunct s)
  rw [← trimAll_complete_iff stages_separated, List.drop_zero,
    ← trimTrailingPunct_reverse]
  constructor
  · intro h
    rw [h.again] at hagain
    exact ⟨tidy_of_trimAll stages_separated hagain.symm, h.only⟩
  · rintro ⟨htidy, honly⟩
    refine ⟨List.reverse_suffix.1 honly.isSuffix, ?_, honly, ?_⟩
    · intro inner c hend hremovable
      obtain ⟨p, hp, hloose⟩ := loose_of_removable hremovable
      have hkept := htidy c inner.reverse (by rw [hend]; simp) p hp
      rw [hloose] at hkept
      cases hkept
    · rw [trimAll_of_tidy htidy] at hagain
      exact String.toList_inj.1 (List.reverse_inj.1 hagain)

/-- Cutting the bracket off lays the full stop bare. -/
theorem not_trimmed_exposed :
    ¬ Trimmed "x.)" (trimTrailingPunct "x.)") := by
  intro h
  have hstop : trimTrailingPunct "x." = "x." := h.again
  revert hstop
  decide

end Tasty.Terminal
