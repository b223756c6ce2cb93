/-
Codes. A text spelled with a prefix code is spelled in one way only. The
words of others can be told apart from any place in a text: a word begins
with a letter that none goes on with, and goes on with at most so many
letters. Whoever stands in a text finds the last beginning of a word by
stepping back over the letters that go on. UTF-8 is such a code.
-/
import Mathlib.Data.List.Infix

namespace Tasty

variable {α β : Type}

/-- What follows a code word does not change which word it is. -/
structure PrefixCode (code : α → List β) (ok : α → Prop) : Prop where
  nonempty : ∀ a, code a ≠ []
  unique : ∀ a b xs ys, ok a → ok b → code a ++ xs = code b ++ ys → a = b

theorem PrefixCode.flatMap_inj {code : α → List β} {ok : α → Prop}
    (h : PrefixCode code ok) {xs ys : List α} (hxs : ∀ a ∈ xs, ok a)
    (hys : ∀ a ∈ ys, ok a) (heq : xs.flatMap code = ys.flatMap code) :
    xs = ys := by
  induction xs generalizing ys with
  | nil =>
    cases ys with
    | nil => rfl
    | cons b ys =>
      rw [List.flatMap_nil, List.flatMap_cons] at heq
      exact absurd (List.append_eq_nil_iff.1 heq.symm).1 (h.nonempty b)
  | cons a xs ih =>
    cases ys with
    | nil =>
      rw [List.flatMap_nil, List.flatMap_cons] at heq
      exact absurd (List.append_eq_nil_iff.1 heq).1 (h.nonempty a)
    | cons b ys =>
      rw [List.forall_mem_cons] at hxs hys
      rw [List.flatMap_cons, List.flatMap_cons] at heq
      obtain rfl := h.unique a b _ _ hxs.1 hys.1 heq
      rw [ih hxs.2 hys.2 (List.append_cancel_left heq)]

end Tasty

-- ==== codes that synchronise

namespace Tasty

variable {α β : Type}

/-- Each word is a letter that begins one, and at most `width` letters that
go on. -/
def SelfSync (code : α → List β) (goesOn : β → Bool) (width : Nat) : Prop :=
  ∀ a, ∃ first rest, code a = first :: rest ∧ goesOn first = false
    ∧ (∀ b ∈ rest, goesOn b = true) ∧ rest.length ≤ width

/-- Back from `i` to the beginning of a word, at most so many steps. -/
def backOff (goesOn : β → Bool) (text : List β) : Nat → Nat → Nat
  | 0, i => i
  | steps + 1, i =>
    if 0 < i ∧ text[i]?.any goesOn = true then
      backOff goesOn text steps (i - 1)
    else i

theorem backOff_le (goesOn : β → Bool) (text : List β) (steps i : Nat) :
    backOff goesOn text steps i ≤ i := by
  induction steps generalizing i with
  | zero => exact Nat.le_refl i
  | succ steps ih =>
    unfold backOff
    split
    · exact Nat.le_trans (ih (i - 1)) (Nat.sub_le i 1)
    · exact Nat.le_refl i

/-- `j` is where stepping back from `i` has to stop. -/
structure StopsAt (goesOn : β → Bool) (text : List β) (i j : Nat) :
    Prop where
  le : j ≤ i
  begins : text[j]?.any goesOn = false
  between : ∀ x, j < x → x ≤ i → text[x]?.any goesOn = true

variable {code : α → List β} {goesOn : β → Bool} {width : Nat}
  {text : List β} {i j steps : Nat}

theorem StopsAt.backOff_eq (h : StopsAt goesOn text i j)
    (hsteps : i ≤ j + steps) : backOff goesOn text steps i = j := by
  induction steps generalizing i with
  | zero => exact Nat.le_antisymm hsteps h.le
  | succ steps ih =>
    unfold backOff
    by_cases hij : j = i
    · subst hij
      rw [if_neg]
      rw [h.begins]
      simp
    · have hlt : j < i := Nat.lt_of_le_of_ne h.le hij
      rw [if_pos ⟨by omega, h.between i hlt (Nat.le_refl i)⟩]
      refine ih ⟨by omega, h.begins, fun x hx hxi => ?_⟩ (by omega)
      exact h.between x hx (by omega)

/-- In what begins a text, every place is at most `width` letters behind
the beginning of a word. -/
theorem SelfSync.exists_stopsAt (h : SelfSync code goesOn width)
    {words : List α} (hpre : text <+: words.flatMap code)
    (hi : i < text.length) :
    ∃ before after, words = before ++ after
      ∧ StopsAt goesOn text i (before.flatMap code).length
      ∧ i ≤ (before.flatMap code).length + width := by
  induction words generalizing text i with
  | nil =>
    rw [List.flatMap_nil, List.prefix_nil] at hpre
    subst hpre
    exact absurd hi (Nat.not_lt_zero i)
  | cons a words ih =>
    obtain ⟨first, rest, hword, hfirst, hrest, hwidth⟩ := h a
    have hget : ∀ x, x < text.length →
        text[x]? = (code a ++ words.flatMap code)[x]? := by
      intro x hx
      obtain ⟨more, hmore⟩ := hpre
      rw [← List.flatMap_cons, ← hmore, List.getElem?_append_left hx]
    by_cases hin : i < (code a).length
    · refine ⟨[], a :: words, rfl, ⟨Nat.zero_le i, ?_, ?_⟩, ?_⟩
      · rw [List.flatMap_nil, List.length_nil, hget 0 (by omega), hword]
        exact hfirst
      · intro x hx hxi
        rw [List.flatMap_nil, List.length_nil] at hx
        rw [hget x (by omega), List.getElem?_append_left (by omega), hword]
        obtain ⟨x, rfl⟩ : ∃ y, x = y + 1 := ⟨x - 1, by omega⟩
        rw [List.getElem?_cons_succ]
        rw [hword, List.length_cons] at hin
        rw [List.getElem?_eq_getElem (by omega : x < rest.length)]
        exact hrest _ (List.getElem_mem _)
      · rw [hword, List.length_cons] at hin
        rw [List.flatMap_nil, List.length_nil]
        omega
    · have hin := Nat.le_of_not_lt hin
      have htail : text.drop (code a).length <+: words.flatMap code := by
        obtain ⟨more, hmore⟩ := hpre
        rw [List.flatMap_cons] at hmore
        have hdrop := congrArg (List.drop (code a).length) hmore
        rw [List.drop_left, List.drop_append_of_le_length (by omega)]
          at hdrop
        exact ⟨more, hdrop⟩
      obtain ⟨before, after, rfl, hstop, hle⟩ :=
        ih htail (i := i - (code a).length)
          (by rw [List.length_drop]; omega)
      refine ⟨a :: before, after, rfl, ⟨?_, ?_, ?_⟩, ?_⟩
      · have := hstop.le
        rw [List.flatMap_cons, List.length_append]
        omega
      · have := hstop.begins
        rw [List.getElem?_drop] at this
        rw [List.flatMap_cons, List.length_append]
        exact this
      · intro x hx hxi
        rw [List.flatMap_cons, List.length_append] at hx
        have := hstop.between (x - (code a).length) (by omega) (by omega)
        rw [List.getElem?_drop] at this
        rwa [Nat.add_sub_cancel' (by omega)] at this
      · rw [List.flatMap_cons, List.length_append]
        omega

/-- Stepping back in what begins a text leads to the beginning of a
word. -/
theorem SelfSync.backOff_eq (h : SelfSync code goesOn width)
    {words : List α} (hpre : text <+: words.flatMap code)
    (hi : i < text.length) :
    ∃ before after, words = before ++ after
      ∧ backOff goesOn text width i = (before.flatMap code).length
      ∧ (before.flatMap code).length ≤ i
      ∧ i ≤ (before.flatMap code).length + width := by
  obtain ⟨before, after, hwords, hstop, hle⟩ := h.exists_stopsAt hpre hi
  exact ⟨before, after, hwords, hstop.backOff_eq hle, hstop.le, hle⟩

end Tasty
