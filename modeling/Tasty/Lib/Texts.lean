/-
Texts: one that begins with another, and numbers in digits. Different
numbers have different digits in a base up to sixteen, and a text of two
numbers with something else between them is read in one way; the decimal
text of a natural number has no leading zero, and that of an integer is the
canonical one.
-/
import Mathlib.Data.String.Basic

namespace Tasty

open List

/-- `str::strip_prefix`. -/
def stripPrefix (p s : String) : Option String :=
  if p.toList.isPrefixOf s.toList then
    some (String.ofList (s.toList.drop p.toList.length))
  else none

theorem stripPrefix_eq_some {p s rest : String} :
    stripPrefix p s = some rest ↔ s = p ++ rest := by
  unfold stripPrefix
  constructor
  · intro h
    split at h
    · rename_i hp
      obtain ⟨t, ht⟩ := isPrefixOf_iff_prefix.1 hp
      cases h
      refine String.toList_inj.1 ?_
      rw [String.toList_append, String.toList_ofList, ← ht, drop_left]
    · cases h
  · rintro rfl
    rw [String.toList_append, if_pos (List.isPrefixOf_iff_prefix.2
      (prefix_append _ _)), drop_left, String.ofList_toList]

theorem stripPrefix_append (p rest : String) :
    stripPrefix p (p ++ rest) = some rest :=
  stripPrefix_eq_some.2 rfl

theorem append_left_cancel {p a b : String} (h : p ++ a = p ++ b) : a = b := by
  have hlist := congrArg String.toList h
  rw [String.toList_append, String.toList_append] at hlist
  exact String.toList_inj.1 (append_cancel_left hlist)

end Tasty

-- ==== digits

namespace Tasty

theorem digitChar_inj : ∀ m < 16, ∀ n < 16,
    Nat.digitChar m = Nat.digitChar n → m = n := by decide

theorem mem_toDigits {base n : Nat} (hbase : 1 < base) {c : Char}
    (h : c ∈ Nat.toDigits base n) : ∃ d < base, c = Nat.digitChar d := by
  induction n using Nat.strongRecOn with
  | ind n ih =>
    rw [Nat.toDigits_eq_if hbase] at h
    split at h
    · rename_i hlt
      exact ⟨n, hlt, List.mem_singleton.1 h⟩
    · rename_i hge
      rcases List.mem_append.1 h with h | h
      · exact ih (n / base) (Nat.div_lt_self (by omega) hbase) h
      · exact ⟨n % base, Nat.mod_lt n (by omega), List.mem_singleton.1 h⟩

theorem toDigits_inj {base m n : Nat} (hbase : 1 < base)
    (hsixteen : base ≤ 16) (h : Nat.toDigits base m = Nat.toDigits base n) :
    m = n := by
  induction m using Nat.strongRecOn generalizing n with
  | ind m ih =>
    rw [Nat.toDigits_eq_if hbase, Nat.toDigits_eq_if (n := n) hbase] at h
    have hlong {k : Nat} (d : Char) :
        (Nat.toDigits base k ++ [d]).length ≠ 1 := by
      have hpos := Nat.length_toDigits_pos (b := base) (n := k)
      rw [List.length_append, List.length_singleton]
      omega
    split at h
    · rename_i hm
      split at h
      · rename_i hn
        exact digitChar_inj m (by omega) n (by omega) (List.cons.inj h).1
      · exact (hlong _ (congrArg List.length h).symm).elim
    · rename_i hm
      split at h
      · exact (hlong _ (congrArg List.length h)).elim
      · rename_i hn
        obtain ⟨hlead, hlast⟩ := List.append_inj' h rfl
        have hmod_m := Nat.mod_lt m (by omega : 0 < base)
        have hmod_n := Nat.mod_lt n (by omega : 0 < base)
        have hlead := ih (m / base) (Nat.div_lt_self (by omega) hbase) hlead
        have hlast := digitChar_inj _ (by omega) _ (by omega)
          (List.cons.inj hlast).1
        rw [← Nat.div_add_mod m base, ← Nat.div_add_mod n base, hlead, hlast]

/-- What comes behind the first separator is told apart. -/
theorem append_cons_inj {α : Type} {sep : α} {a b a' b' : List α}
    (ha : sep ∉ a) (ha' : sep ∉ a')
    (h : a ++ sep :: b = a' ++ sep :: b') : a = a' ∧ b = b' := by
  induction a generalizing a' with
  | nil =>
    cases a' with
    | nil => exact ⟨rfl, (List.cons.inj h).2⟩
    | cons x a' =>
      exact absurd ((List.cons.inj h).1 ▸ List.mem_cons_self) ha'
  | cons x a ih =>
    cases a' with
    | nil => exact absurd ((List.cons.inj h).1 ▸ List.mem_cons_self) ha
    | cons y a' =>
      obtain ⟨hxy, h⟩ := List.cons.inj h
      obtain ⟨hrest, hb⟩ := ih (fun hx => ha (List.mem_cons_of_mem _ hx))
        (fun hx => ha' (List.mem_cons_of_mem _ hx)) h
      exact ⟨by rw [hxy, hrest], hb⟩

end Tasty

-- ==== decimal texts

namespace Tasty

/-- A canonical decimal: digits, without a leading zero. -/
def canonicalDecimal (digits : List Char) : Bool :=
  !(digits.isEmpty || (digits.length > 1 && digits.head? = some '0')
    || !digits.all Char.isDigit)

theorem head?_toDigits {n : Nat} (hpos : 0 < n) :
    (Nat.toDigits 10 n).head? ≠ some '0' := by
  induction n using Nat.strongRecOn with
  | ind n ih =>
    by_cases hlt : n < 10
    · rw [Nat.toDigits_of_lt_base hlt]
      simp only [List.head?_cons, ne_eq, Option.some.injEq,
        Nat.digitChar_eq_zero]
      omega
    · -- a longer number starts as its leading part does
      rw [Nat.toDigits_of_base_le (by decide) (by omega),
        List.head?_append]
      have hlead := ih (n / 10) (by omega) (by omega)
      cases hd : (Nat.toDigits 10 (n / 10)).head? with
      | none => exact absurd (List.head?_eq_none_iff.1 hd) Nat.toDigits_ne_nil
      | some c =>
        rw [hd] at hlead
        exact hlead

theorem canonicalDecimal_toDigits (n : Nat) :
    canonicalDecimal (Nat.toDigits 10 n) = true := by
  have hdigits : (Nat.toDigits 10 n).all Char.isDigit = true := by
    rw [List.all_eq_true]
    intro c hc
    exact Nat.isDigit_of_mem_toDigits (by decide) (by decide) hc
  unfold canonicalDecimal
  rcases Nat.eq_zero_or_pos n with hzero | hpos
  · rw [hzero]
    decide
  · simp [hdigits, head?_toDigits hpos]

end Tasty
