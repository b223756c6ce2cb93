/-
Reading a numbered log by a cursor.

The entries of a log have rising numbers. A reader goes on from a number and
sees some of the entries behind it; an entry that it did not see may lie in
a gap that it was told of, or may have been refused on the way. `Accounted`
says that nothing else happens to the wanted entries of a stretch.
-/
import Mathlib.Data.List.Infix
import Mathlib.Data.List.Pairwise

namespace Tasty.Cursor

open List

variable {α : Type} {num : α → Nat} {l l' : List α} {a b x : α}

/-- The numbers rise. -/
def Rising (num : α → Nat) (l : List α) : Prop :=
  l.Pairwise fun a b => num a < num b

namespace Rising

theorem nil : Rising num ([] : List α) := List.Pairwise.nil

theorem singleton (a : α) : Rising num [a] := pairwise_singleton _ a

theorem append (h : Rising num l) (h' : Rising num l')
    (hlt : ∀ a ∈ l, ∀ b ∈ l', num a < num b) : Rising num (l ++ l') :=
  pairwise_append.2 ⟨h, h', hlt⟩

theorem right (h : Rising num (l ++ l')) : Rising num l' :=
  (pairwise_append.1 h).2.1

theorem lt (h : Rising num (l ++ l')) (ha : a ∈ l) (hb : b ∈ l') :
    num a < num b :=
  (pairwise_append.1 h).2.2 a ha b hb

theorem sublist (h : Rising num l') (hs : l.Sublist l') : Rising num l :=
  List.Pairwise.sublist hs h

/-- An entry is behind the last one of a list if that is all it is behind. -/
theorem snoc (h : Rising num l) (hlt : ∀ a ∈ l, num a < num x) :
    Rising num (l ++ [x]) :=
  h.append (singleton x) fun a ha b hb => by
    rw [mem_singleton.1 hb]
    exact hlt a ha

/-- One entry has a number. -/
theorem eq_of_num (h : Rising num l) (ha : a ∈ l) (hb : b ∈ l)
    (hab : num a = num b) : a = b := by
  induction l with
  | nil => cases ha
  | cons x l ih =>
    obtain ⟨hx, hl⟩ := pairwise_cons.1 h
    rcases mem_cons.1 ha with rfl | hal
    · rcases mem_cons.1 hb with rfl | hbl
      · rfl
      · exact absurd (hx b hbl) (by omega)
    · rcases mem_cons.1 hb with rfl | hbl
      · exact absurd (hx a hal) (by omega)
      · exact ih hl hal hbl

/-- What is not above an entry of the front is in the front. -/
theorem mem_left (h : Rising num (l ++ l')) (ha : a ∈ l ++ l') (hx : x ∈ l)
    (hle : num a ≤ num x) : a ∈ l := by
  rcases mem_append.1 ha with ha | ha
  · exact ha
  · have hlt := h.lt hx ha
    omega

theorem le_getLast (h : Rising num l) (hx : l.getLast? = some x)
    (ha : a ∈ l) : num a ≤ num x := by
  obtain ⟨front, rfl⟩ := getLast?_eq_some_iff.1 hx
  rcases mem_append.1 ha with ha | ha
  · exact Nat.le_of_lt (h.lt ha (mem_singleton_self x))
  · rw [mem_singleton.1 ha]

/-- The entries before those that are kept have numbers below the first. -/
theorem kept_or_below {first : Nat} (h : Rising num (l ++ l'))
    (hfirst : ∀ x, l'.head? = some x → first = num x)
    (hempty : l' = [] → ∀ a ∈ l, num a < first) (ha : a ∈ l ++ l') :
    a ∈ l' ∨ num a < first := by
  rcases mem_append.1 ha with hal | hal
  · right
    cases l' with
    | nil => exact hempty rfl a hal
    | cons x l' =>
      rw [hfirst x rfl]
      exact h.lt hal (.head _)
  · exact .inl hal

end Rising

-- ==== accounting

/-- The entry was seen, lies in a gap, or was refused. -/
def Explained (num : α → Nat) (seen : List α) (gaps : List (Nat × Nat))
    (refused : List Nat) (e : α) : Prop :=
  e ∈ seen ∨ (∃ g ∈ gaps, g.1 ≤ num e ∧ num e ≤ g.2) ∨ num e ∈ refused

/-- Every wanted entry of the stretch is explained. -/
def Accounted (num : α → Nat) (log : List α) (wants : α → Bool)
    (lo hi : Nat) (seen : List α) (gaps : List (Nat × Nat))
    (refused : List Nat) : Prop :=
  ∀ e ∈ log, wants e = true → lo < num e → num e ≤ hi →
    Explained num seen gaps refused e

variable {seen seen' : List α} {gaps gaps' : List (Nat × Nat)}
  {refused refused' : List Nat} {log log' : List α} {wants : α → Bool}
  {lo mid hi : Nat}

theorem Explained.mono (h : Explained num seen gaps refused a)
    (hs : seen ⊆ seen') (hg : gaps ⊆ gaps') (hr : refused ⊆ refused') :
    Explained num seen' gaps' refused' a := by
  rcases h with h | ⟨g, hmem, h⟩ | h
  · exact .inl (hs h)
  · exact .inr (.inl ⟨g, hg hmem, h⟩)
  · exact .inr (.inr (hr h))

namespace Accounted

theorem empty (h : hi ≤ lo) :
    Accounted num log wants lo hi seen gaps refused := by
  intro e _ _ hlo hhi
  omega

theorem mono (h : Accounted num log wants lo hi seen gaps refused)
    (hs : seen ⊆ seen') (hg : gaps ⊆ gaps') (hr : refused ⊆ refused') :
    Accounted num log wants lo hi seen' gaps' refused' :=
  fun e he hw hlo hhi => (h e he hw hlo hhi).mono hs hg hr

/-- A log that has no new entries in the stretch. -/
theorem of_log (h : Accounted num log wants lo hi seen gaps refused)
    (hlog : ∀ e ∈ log', num e ≤ hi → e ∈ log) :
    Accounted num log' wants lo hi seen gaps refused :=
  fun e he hw hlo hhi => h e (hlog e he hhi) hw hlo hhi

end Accounted

end Tasty.Cursor
