/-
A stream of symbols cut into lines at a separator: the lines that are
complete, and what follows the last separator.

Reading may stop anywhere: what is held back is cut together with what
comes next (`cut_append`). A stream that ends behind a separator holds
nothing back, and may be cut there (`lines_append`).
-/
namespace Tasty.Lines

variable {α : Type} [DecidableEq α] {sep : α}

/-- Reads on with some symbols held back: the lines that get complete, and
what is held back then. -/
def cut (sep : α) (held : List α) : List α → List (List α) × List α
  | [] => ([], held)
  | x :: xs =>
    if x = sep then (held :: (cut sep [] xs).1, (cut sep [] xs).2)
    else cut sep (held ++ [x]) xs

/-- The complete lines, without their separators. -/
def lines (sep : α) (xs : List α) : List (List α) := (cut sep [] xs).1

/-- What follows the last separator. -/
def rest (sep : α) (xs : List α) : List α := (cut sep [] xs).2

theorem cut_sep (held xs : List α) : cut sep held (sep :: xs)
    = (held :: (cut sep [] xs).1, (cut sep [] xs).2) := by
  simp [cut]

theorem cut_cons {x : α} (hx : x ≠ sep) (held xs : List α) :
    cut sep held (x :: xs) = cut sep (held ++ [x]) xs := by
  simp [cut, hx]

/-- Reading in two pieces is reading at once. -/
theorem cut_append (held xs ys : List α) :
    cut sep held (xs ++ ys)
      = ((cut sep held xs).1 ++ (cut sep (cut sep held xs).2 ys).1,
        (cut sep (cut sep held xs).2 ys).2) := by
  induction xs generalizing held with
  | nil => rfl
  | cons x xs ih =>
    by_cases hx : x = sep
    · subst hx
      rw [List.cons_append, cut_sep, cut_sep, ih]
      rfl
    · rw [List.cons_append, cut_cons hx, cut_cons hx]
      exact ih _

theorem rest_append (xs ys : List α) :
    rest sep (xs ++ ys) = (cut sep (rest sep xs) ys).2 := by
  rw [rest, cut_append]
  rfl

variable {xs : List α}

/-- A stream may be cut where nothing is held back. -/
theorem lines_append (h : rest sep xs = []) (ys : List α) :
    lines sep (xs ++ ys) = lines sep xs ++ lines sep ys := by
  have hcut := @cut_append _ _ sep [] xs ys
  unfold lines
  rw [hcut, show (cut sep [] xs).2 = [] from h]

theorem rest_append_of_nil (h : rest sep xs = []) (ys : List α) : rest sep (xs ++ ys) = rest sep ys := by
  rw [rest_append, h]
  rfl

/-- What was read is what the lines were cut from and what is held back. -/
theorem cut_whole (held xs : List α) (h : cut sep [] held = ([], held)) :
    ∃ whole, held ++ xs = whole ++ (cut sep held xs).2
      ∧ cut sep [] whole = ((cut sep held xs).1, []) := by
  induction xs generalizing held with
  | nil => exact ⟨[], by simp [cut], rfl⟩
  | cons x xs ih =>
    by_cases hx : x = sep
    · subst hx
      obtain ⟨whole, hxs, hwhole⟩ := ih [] rfl
      refine ⟨held ++ x :: whole, ?_, ?_⟩
      · rw [cut_sep]
        simpa using hxs
      · rw [cut_append, h]
        simp [cut_sep, hwhole]
    · have hheld : cut sep [] (held ++ [x]) = ([], held ++ [x]) := by
        rw [cut_append, h, cut_cons hx]
        rfl
      obtain ⟨whole, hxs, hwhole⟩ := ih (held ++ [x]) hheld
      refine ⟨whole, ?_, ?_⟩
      · rw [cut_cons hx]
        simpa using hxs
      · rw [hwhole, cut_cons hx]

/-- A stream is its complete part and the rest; the complete part has the
same lines and holds nothing back. -/
theorem split_eq (sep : α) (xs : List α) :
    ∃ whole, xs = whole ++ rest sep xs ∧ lines sep whole = lines sep xs
      ∧ rest sep whole = [] := by
  obtain ⟨whole, hxs, hwhole⟩ := @cut_whole _ _ sep [] xs rfl
  exact ⟨whole, hxs, by rw [lines, hwhole]; rfl, by rw [rest, hwhole]⟩

variable {ys : List α}

/-- Whether anything is held back does not depend on what was before. -/
theorem cut_eq_nil {held held' : List α} (hy : ys ≠ [])
    (h : (cut sep held ys).2 = []) : (cut sep held' ys).2 = [] := by
  induction ys generalizing held held' with
  | nil => exact absurd rfl hy
  | cons y ys ih =>
    by_cases hs : y = sep
    · subst hs
      rw [cut_sep] at h ⊢
      exact h
    · rw [cut_cons hs] at h ⊢
      cases ys with
      | nil => simp [cut] at h
      | cons z zs => exact ih (List.cons_ne_nil z zs) h

/-- What ends a stream that holds nothing back holds nothing back. -/
theorem rest_of_append (h : rest sep (xs ++ ys) = []) : rest sep ys = [] := by
  cases ys with
  | nil => rfl
  | cons y ys =>
    rw [rest_append] at h
    exact cut_eq_nil (List.cons_ne_nil y ys) h

/-- What is held back holds no complete line. -/
theorem cut_held (held xs : List α) (h : cut sep [] held = ([], held)) :
    cut sep [] (cut sep held xs).2 = ([], (cut sep held xs).2) := by
  induction xs generalizing held with
  | nil => exact h
  | cons x xs ih =>
    by_cases hx : x = sep
    · subst hx
      rw [cut_sep]
      exact ih [] rfl
    · rw [cut_cons hx]
      apply ih
      rw [cut_append, h, cut_cons hx]
      rfl

theorem lines_rest (xs : List α) : lines sep (rest sep xs) = [] :=
  congrArg Prod.fst (cut_held [] xs rfl)

/-- Whether a line gets complete does not depend on what was before. -/
theorem cut_eq_nil_fst {held held' : List α} (h : (cut sep held ys).1 = []) : (cut sep held' ys).1 = [] := by
  induction ys generalizing held held' with
  | nil => rfl
  | cons y ys ih =>
    by_cases hs : y = sep
    · subst hs
      rw [cut_sep] at h
      cases h
    · rw [cut_cons hs] at h ⊢
      exact ih h

theorem lines_of_append (h : lines sep (xs ++ ys) = []) :
    lines sep ys = [] := by
  rw [lines, cut_append] at h
  exact cut_eq_nil_fst (List.append_eq_nil_iff.mp h).2

end Tasty.Lines
