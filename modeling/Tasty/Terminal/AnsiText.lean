/-
Taking escape sequences out of text (`crates/tasty-ansi/src/lib.rs`). One
pass from the left goes on behind each sequence, so that what stands around
one may come to be a sequence of its own.
-/
import Mathlib.Data.List.Basic

namespace Tasty.Terminal

/-- Where in a sequence the expression is, past the escape: the parts of the
first alternative, then the text of the second, and the escape in it that a
backslash is to follow. -/
inductive EscapePart where
  | introducer
  | parameters
  | intermediates
  | string
  | terminator

/-- One more character of a sequence: `none` where it cannot go on so, and
`some none` at its end. The classes of each part exclude one another, so that
nothing is left to choose. -/
def EscapePart.step : EscapePart → Char → Option (Option EscapePart)
  | .introducer, c =>
    if c = '[' then some (some .parameters)
    else if c = ']' then some (some .string)
    else none
  | .parameters, c =>
    if '0' ≤ c ∧ c ≤ '?' then some (some .parameters)
    else if ' ' ≤ c ∧ c ≤ '/' then some (some .intermediates)
    else if '@' ≤ c ∧ c ≤ '~' then some none
    else none
  | .intermediates, c =>
    if ' ' ≤ c ∧ c ≤ '/' then some (some .intermediates)
    else if '@' ≤ c ∧ c ≤ '~' then some none
    else none
  | .string, c =>
    if c = '\x07' then some none
    else if c = '\x1b' then some (some .terminator)
    else some (some .string)
  | .terminator, c => if c = '\\' then some none else none

/-- The length of what ends a sequence. -/
def endOf (part : EscapePart) : List Char → Option Nat
  | [] => none
  | c :: text =>
    match part.step c with
    | none => none
    | some none => some 1
    | some (some part) => (endOf part text).map (· + 1)

/-- Where a character begins a sequence, the length of the rest of it. -/
def sequenceAt (c : Char) (text : List Char) : Option Nat :=
  if c = '\x1b' then endOf .introducer text else none

/-- What is left when `skip` characters of a sequence are still to go. -/
def stripFrom : Nat → List Char → List Char
  | _, [] => []
  | skip + 1, _ :: text => stripFrom skip text
  | 0, c :: text =>
    match sequenceAt c text with
    | some length => stripFrom length text
    | none => c :: stripFrom 0 text

def stripAnsi (s : String) : String := String.ofList (stripFrom 0 s.toList)

-- ==== what is asked of it

def IsSequence (text : List Char) : Prop :=
  ∃ c rest, text = c :: rest ∧ sequenceAt c rest = some rest.length

/-- Some text, and what is left of it when sequences go. -/
inductive Kept : List Char → List Char → Prop
  | nil : Kept [] []
  | char {text kept : List Char} (c : Char) (h : Kept text kept) :
    Kept (c :: text) (c :: kept)
  | sequence {before text kept : List Char} (hbefore : IsSequence before)
    (h : Kept text kept) : Kept (before ++ text) kept

structure Stripped (s out : String) : Prop where
  clean : ∀ before middle after, out.toList = before ++ middle ++ after →
    ¬ IsSequence middle
  kept : Kept s.toList out.toList
  again : stripAnsi out = out

/-- Whether text goes on with the end of a sequence, which complete sequences
may interrupt. -/
def resumes (part : EscapePart) : Nat → List Char → Bool
  | _, [] => false
  | skip + 1, _ :: text => resumes part skip text
  | 0, c :: text =>
    match sequenceAt c text with
    | some length => resumes part length text
    | none =>
      match part.step c with
      | none => false
      | some none => true
      | some (some part) => resumes part 0 text

/-- Whether an escape that begins no sequence begins one that complete
sequences interrupt. -/
def interrupted : Nat → List Char → Bool
  | _, [] => false
  | skip + 1, _ :: text => interrupted skip text
  | 0, c :: text =>
    match sequenceAt c text with
    | some length => interrupted length text
    | none =>
      c = '\x1b' && resumes .introducer 0 text || interrupted 0 text

variable {text kept : List Char} {n : Nat}

-- ==== sequences

theorem endOf_take {part : EscapePart} (h : endOf part text = some n) :
    (text.take n).length = n ∧ endOf part (text.take n) = some n := by
  induction text generalizing part n with
  | nil => cases h
  | cons c text ih =>
    unfold endOf at h
    split at h
    · cases h
    · rename_i hstep
      cases h
      simp [endOf, hstep]
    · rename_i next hstep
      obtain ⟨m, hm, rfl⟩ := Option.map_eq_some_iff.1 h
      obtain ⟨hlength, hend⟩ := ih hm
      simp [endOf, hstep, hend, hlength]

theorem endOf_append {part : EscapePart} (h : endOf part text = some n)
    (after : List Char) : endOf part (text ++ after) = some n := by
  induction text generalizing part n with
  | nil => cases h
  | cons c text ih =>
    unfold endOf at h
    rw [List.cons_append, endOf]
    split at h
    · cases h
    · exact h
    · obtain ⟨m, hm, rfl⟩ := Option.map_eq_some_iff.1 h
      rw [ih hm]
      rfl

theorem isSequence_take {c : Char} (h : sequenceAt c text = some n) :
    IsSequence (c :: text.take n) := by
  refine ⟨c, _, rfl, ?_⟩
  unfold sequenceAt at h ⊢
  split at h
  · rw [if_pos ‹_›, (endOf_take h).2, (endOf_take h).1]
  · cases h

theorem not_isSequence {out : List Char}
    (h : ∀ before c rest, out = before ++ c :: rest →
      sequenceAt c rest = none) (before middle after : List Char)
    (hout : out = before ++ middle ++ after) : ¬ IsSequence middle := by
  rintro ⟨c, rest, rfl, hseq⟩
  have hnone := h before c (rest ++ after) (by simp [hout])
  unfold sequenceAt at hseq hnone
  split at hseq
  · rw [if_pos ‹_›, endOf_append hseq] at hnone
    cases hnone
  · cases hseq

-- ==== the pass

theorem stripFrom_drop (skip : Nat) (text : List Char) :
    stripFrom skip text = stripFrom 0 (text.drop skip) := by
  induction text generalizing skip with
  | nil => cases skip <;> rfl
  | cons c text ih =>
    cases skip with
    | zero => rfl
    | succ skip => exact ih skip

theorem kept_stripFrom (text : List Char) : Kept text (stripFrom 0 text) := by
  induction hlength : text.length using Nat.strongRecOn generalizing text with
  | ind length ih =>
  subst hlength
  cases text with
  | nil => exact .nil
  | cons c text =>
    rw [stripFrom]
    split
    · rename_i n hn
      rw [stripFrom_drop]
      have hrest := ih _ (by grind) (text.drop n) rfl
      have hsplit := Kept.sequence (isSequence_take hn) hrest
      rwa [List.cons_append, List.take_append_drop] at hsplit
    · exact .char c (ih _ (by simp) text rfl)

theorem resumes_eq (part : EscapePart) (skip : Nat) (text : List Char) :
    resumes part skip text = (endOf part (stripFrom skip text)).isSome := by
  induction text generalizing part skip with
  | nil => cases skip <;> rfl
  | cons c text ih =>
    cases skip with
    | succ skip => exact ih part skip
    | zero =>
      rw [resumes, stripFrom]
      split
      · exact ih part _
      · rw [endOf]
        split <;> simp [*]

theorem interrupted_eq_false_iff (skip : Nat) (text : List Char) :
    interrupted skip text = false
      ↔ ∀ before c rest, stripFrom skip text = before ++ c :: rest →
        sequenceAt c rest = none := by
  induction text generalizing skip with
  | nil => cases skip <;> simp [interrupted, stripFrom]
  | cons c text ih =>
    cases skip with
    | succ skip => exact ih skip
    | zero =>
      rw [interrupted, stripFrom]
      split
      · exact ih _
      · have hhere : (decide (c = '\x1b') && resumes .introducer 0 text) = false
            ↔ sequenceAt c (stripFrom 0 text) = none := by
          rw [resumes_eq, sequenceAt]
          split <;> simp [*]
        rw [Bool.or_eq_false_iff, hhere, ih]
        constructor
        · rintro ⟨hc, htext⟩ before c' rest heq
          cases before with
          | nil =>
            cases heq
            exact hc
          | cons b before => exact htext before c' rest (List.cons.inj heq).2
        · intro h
          exact ⟨h [] c _ rfl, fun before c' rest heq =>
            h (c :: before) c' rest (by rw [heq]; rfl)⟩

theorem stripFrom_of_clean
    (h : ∀ before c rest, text = before ++ c :: rest →
      sequenceAt c rest = none) : stripFrom 0 text = text := by
  induction text with
  | nil => rfl
  | cons c text ih =>
    rw [stripFrom, h [] c text rfl]
    refine congrArg (c :: ·) (ih fun before c' rest htext => ?_)
    exact h (c :: before) c' rest (by rw [htext]; rfl)

theorem stripAnsi_toList (s : String) :
    (stripAnsi s).toList = stripFrom 0 s.toList := String.toList_ofList

theorem stripAnsi_complete_iff (s : String) :
    Stripped s (stripAnsi s) ↔ interrupted 0 s.toList = false := by
  rw [interrupted_eq_false_iff, ← stripAnsi_toList]
  constructor
  · intro h before c rest hout
    cases hseq : sequenceAt c rest with
    | none => rfl
    | some n =>
      refine absurd (isSequence_take hseq)
        (h.clean before _ (rest.drop n) ?_)
      rw [hout, List.append_assoc, List.cons_append, List.take_append_drop]
  · intro h
    refine ⟨not_isSequence h, ?_, ?_⟩
    · rw [stripAnsi_toList]
      exact kept_stripFrom s.toList
    · rw [← String.toList_inj, stripAnsi_toList, stripFrom_of_clean h]

/-- What stands around the inner sequence is one then. -/
theorem not_stripped_nested :
    ¬ Stripped "\x1b\x1b[m[m" (stripAnsi "\x1b\x1b[m[m") := by
  intro h
  have hagain : stripAnsi "\x1b[m" = "\x1b[m" := h.again
  revert hagain
  decide

end Tasty.Terminal
