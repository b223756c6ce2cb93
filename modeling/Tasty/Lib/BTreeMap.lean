/-
Ordered maps with the key equality written as `=`.

`Std.ExtTreeMap` is the finite ordered map this development uses
wherever a program keeps a `BTreeMap`: extensional, iterated in key
order, executable. Its library states lookups through the comparison
(`compare k a = .eq`); every proof here compares keys by equality, so
this file restates the handful of lookup lemmas the proofs rewrite
with, once, for any lawful key order.

The second half is about loops whose steps each concern one key: what such
a loop leaves at a key is what the steps for that key leave there, and the
entries of a map have at most one step for each key.
-/
import Mathlib.Logic.Function.Basic
import Std.Data.ExtTreeMap

namespace Tasty

open Std ExtTreeMap

/-- A finite map iterated in the order of its keys. -/
abbrev BTreeMap (α β : Type) [Ord α] := ExtTreeMap α β compare

namespace BTreeMap

variable {α β γ : Type} [Ord α] [TransOrd α]

variable (m : BTreeMap α β)

/-- Membership is a successful lookup. -/
theorem mem_iff_get (a : α) : a ∈ m ↔ ∃ v, m[a]? = some v := by
  rw [mem_iff_isSome_getElem?, Option.isSome_iff_exists]

/-- Absence is a failed lookup. -/
theorem not_mem_iff_get (a : α) : a ∉ m ↔ m[a]? = none := by
  rw [mem_iff_get]
  cases m[a]? <;> simp

/-- The lookup function of a map, seen through a view of its values. -/
def view (f : β → γ) (m : BTreeMap α β) : α → Option γ :=
  fun a => (m[a]?).map f

variable {a : α}

theorem view_eq_some {f : β → γ} {m : BTreeMap α β} {c : γ} :
    view f m a = some c ↔ ∃ v, m[a]? = some v ∧ f v = c := by
  unfold view
  exact Option.map_eq_some_iff

theorem view_eq_none {f : β → γ} {m : BTreeMap α β} :
    view f m a = none ↔ m[a]? = none := by
  unfold view
  exact Option.map_eq_none_iff

theorem view_of_get {m : BTreeMap α β} {v : β} (h : m[a]? = some v)
    (f : β → γ) : view f m a = some (f v) :=
  view_eq_some.2 ⟨v, h, rfl⟩

@[simp] theorem view_empty (f : β → γ) :
    view f (∅ : BTreeMap α β) = fun _ => none := by
  funext a
  simp [view]

variable [LawfulEqOrd α]

/-- Lookup after an insertion, by key equality. -/
@[simp, grind =] theorem get_insert [DecidableEq α] (k a : α) (v : β) :
    (m.insert k v)[a]? = if k = a then some v else m[a]? := by
  rw [getElem?_insert]
  simp only [LawfulEqOrd.compare_eq_iff_eq]

/-- Lookup after a removal, by key equality. -/
@[simp, grind =] theorem get_erase [DecidableEq α] (k a : α) :
    (m.erase k)[a]? = if k = a then none else m[a]? := by
  rw [getElem?_erase]
  simp only [LawfulEqOrd.compare_eq_iff_eq]

/-- What is found after an insertion is what was put in, or was there. -/
theorem of_get_insert [DecidableEq α] {m : BTreeMap α β} {k a : α} {v w : β}
    (h : (m.insert k v)[a]? = some w) :
    (k = a ∧ v = w) ∨ (k ≠ a ∧ m[a]? = some w) := by
  rw [get_insert] at h
  split at h
  · exact .inl ⟨‹_›, Option.some.inj h⟩
  · exact .inr ⟨‹_›, h⟩

theorem view_insert [DecidableEq α] (f : β → γ) (m : BTreeMap α β)
    (k : α) (v : β) :
    view f (m.insert k v) = Function.update (view f m) k (some (f v)) := by
  funext a
  by_cases h : k = a
  · subst h
    simp [view]
  · simp [view, h, Function.update, Ne.symm h]

theorem view_erase [DecidableEq α] (f : β → γ) (m : BTreeMap α β) (k : α) :
    view f (m.erase k) = Function.update (view f m) k none := by
  funext a
  by_cases h : k = a
  · subst h
    simp [view]
  · simp [view, h, Function.update, Ne.symm h]

/-- Replacing a value by one that looks the same is not seen. -/
theorem view_insert_same [DecidableEq α] {f : β → γ} {m : BTreeMap α β}
    {k : α} {v w : β} (h : m[k]? = some w) (hf : f v = f w) :
    view f (m.insert k v) = view f m := by
  rw [view_insert, hf, ← view_of_get h f, Function.update_eq_self]

/-- The entries are exactly the successful lookups. -/
theorem mem_toList_iff (k : α) (v : β) :
    (k, v) ∈ m.toList ↔ m[k]? = some v := by
  rw [mem_toList_iff_getElem?_eq_some]

theorem foldl_insert_toList :
    m.toList.foldl (fun acc e => acc.insert e.1 e.2) ∅ = m := by
  classical
  rw [← ofList_eq_foldl]
  refine ext_getElem? fun a => ?_
  cases h : m[a]? with
  | some v =>
    exact getElem?_ofList_of_mem ReflCmp.compare_self
      ExtTreeMap.distinct_keys_toList ((mem_toList_iff m a v).2 h)
  | none =>
    refine getElem?_ofList_of_contains_eq_false ?_
    rw [Bool.eq_false_iff, ne_eq, List.contains_iff_mem, List.mem_map]
    intro hmem
    obtain ⟨⟨k, v⟩, hkv, hk⟩ := hmem
    rw [mem_toList_iff] at hkv
    rw [show k = a from hk, h] at hkv
    cases hkv

/-- `map.values().any(p)`. -/
def anyValue (m : BTreeMap α β) (p : β → Bool) : Bool :=
  m.toList.any fun e => p e.2

theorem anyValue_iff (p : β → Bool) :
    anyValue m p = true ↔ ∃ (k : α) (v : β), m[k]? = some v ∧ p v = true := by
  simp only [anyValue, List.any_eq_true, Prod.exists, mem_toList_iff]

variable {p : β → Bool}

/-- No value passes exactly when each fails. -/
theorem anyValue_eq_false {m : BTreeMap α β} :
    anyValue m p = false ↔ ∀ (k : α) (v : β), m[k]? = some v → p v = false := by
  rw [Bool.eq_false_iff, ne_eq, anyValue_iff]
  simp only [not_exists, not_and, Bool.not_eq_true]

/-- Mapping a map's values is the identity when it is on each. -/
theorem map_eq_self_iff {m : BTreeMap α β} {f : β → β} :
    (m.map fun _ v => f v) = m
      ↔ ∀ (k : α) (v : β), m[k]? = some v → f v = v := by
  constructor
  · intro h k v hv
    have hget := congrArg (fun m => m[k]?) h
    simp only [getElem?_map, hv, Option.map_some] at hget
    exact Option.some.inj hget
  · intro h
    refine ext_getElem? fun k => ?_
    rw [getElem?_map]
    cases hv : m[k]? with
    | none => rfl
    | some v => rw [Option.map_some, h k v hv]

/-- `map.iter().find(p)`: the first entry, in key order, that passes. -/
def findEntry (m : BTreeMap α β) (p : β → Bool) : Option (α × β) :=
  m.toList.find? fun e => p e.2

theorem findEntry_some {m : BTreeMap α β} {k : α} {v : β}
    (h : findEntry m p = some (k, v)) : m[k]? = some v ∧ p v = true := by
  unfold findEntry at h
  have hp := List.find?_some h
  exact ⟨(mem_toList_iff m k v).1 (List.mem_of_find?_eq_some h), hp⟩

theorem findEntry_none {m : BTreeMap α β} :
    findEntry m p = none ↔ ∀ (k : α) (v : β), m[k]? = some v → p v = false := by
  simp only [findEntry, List.find?_eq_none, Prod.forall, mem_toList_iff,
    Bool.not_eq_true]

-- ==== where entries come from

/-- Every entry of `map'` stems from the entry of `map` at its key,
changed at most by `R`, unless its key is new. -/
def Stems (R : β → β → Prop) (new : α → Prop) (map map' : BTreeMap α β) :
    Prop :=
  ∀ (a : α) (v' : β), map'[a]? = some v' →
    (∃ v, map[a]? = some v ∧ R v v') ∨ new a

namespace Stems

variable {R : β → β → Prop} {new : α → Prop} {map map' map'' : BTreeMap α β}

omit [LawfulEqOrd α] in
theorem refl (hrefl : ∀ v, R v v) : Stems R new map map := by
  intro a v hv
  exact .inl ⟨v, hv, hrefl v⟩

omit [LawfulEqOrd α] in
/-- Steps compose when their changes do. -/
theorem trans {R₁ R₂ : β → β → Prop}
    (h₁ : Stems R₁ new map map') (h₂ : Stems R₂ new map' map'')
    (hcomp : ∀ u v w, R₁ u v → R₂ v w → R u w) : Stems R new map map'' := by
  intro a v'' hv''
  rcases h₂ a v'' hv'' with ⟨v', hv', h₂⟩ | hnew
  · rcases h₁ a v' hv' with ⟨v, hv, h₁⟩ | hnew
    · exact .inl ⟨v, hv, hcomp v v' v'' h₁ h₂⟩
    · exact .inr hnew
  · exact .inr hnew

omit [LawfulEqOrd α] in
theorem mono {R' : β → β → Prop} {new' : α → Prop}
    (hR : ∀ v v', R v v' → R' v v') (hnew : ∀ a, new a → new' a)
    (h : Stems R new map map') : Stems R' new' map map' := by
  intro a v' hv'
  rcases h a v' hv' with ⟨v, hv, hvv'⟩ | ha
  · exact .inl ⟨v, hv, hR v v' hvv'⟩
  · exact .inr (hnew a ha)

/-- One entry is replaced. -/
theorem set [DecidableEq α] {v w : β} (hv : map[a]? = some v) (hR : R v w)
    (hrefl : ∀ v, R v v) : Stems R new map (map.insert a w) := by
  intro b v' hv'
  rw [get_insert] at hv'
  split at hv'
  · rename_i hab
    cases hv'
    exact .inl ⟨v, hab ▸ hv, hR⟩
  · exact .inl ⟨v', hv', hrefl v'⟩

theorem add [DecidableEq α] (ha : new a) (w : β) (hrefl : ∀ v, R v v) : Stems R new map (map.insert a w) := by
  intro b v' hv'
  rw [get_insert] at hv'
  split at hv'
  · rename_i hab
    exact .inr (hab ▸ ha)
  · exact .inl ⟨v', hv', hrefl v'⟩

/-- An entry goes. -/
theorem erase [DecidableEq α] (a : α) (hrefl : ∀ v, R v v) :
    Stems R new map (map.erase a) := by
  intro b v' hv'
  rw [get_erase] at hv'
  split at hv'
  · cases hv'
  · exact .inl ⟨v', hv', hrefl v'⟩

end Stems

end BTreeMap

end Tasty

-- ==== loops by key

namespace Tasty

variable {σ ε γ κ : Type} [DecidableEq κ] {f : σ → ε → σ} {g : σ → γ}
  {P : σ → Prop}

/-- `g` is what a state shows at the key `k`, `P` what every step keeps. -/
theorem foldl_keyed (key : ε → κ) (k : κ) (upd : γ → ε → γ)
    (hP : ∀ s e, P s → P (f s e))
    (hstep : ∀ s e, P s → g (f s e) = if key e = k then upd (g s) e else g s)
    (l : List ε) {s : σ} (hs : P s) :
    P (l.foldl f s)
      ∧ g (l.foldl f s) = (l.filter fun e => key e = k).foldl upd (g s) := by
  induction l generalizing s with
  | nil => exact ⟨hs, rfl⟩
  | cons e l ih =>
    obtain ⟨hkept, hview⟩ := ih (hP s e hs)
    refine ⟨hkept, hview.trans ?_⟩
    rw [hstep s e hs]
    by_cases hk : key e = k
    · rw [if_pos hk, List.filter_cons_of_pos (by simpa using hk)]
      rfl
    · rw [if_neg hk, List.filter_cons_of_neg (by simpa using hk)]

namespace BTreeMap

open Std

variable {α β : Type} [Ord α] [TransOrd α] [LawfulEqOrd α] [DecidableEq α]

/-- The entries at one key: the value looked up there, once. -/
theorem toList_filter_key (m : BTreeMap α β) (k : α) :
    (m.toList.filter fun e => e.1 = k) = (m[k]?.map fun v => (k, v)).toList := by
  have hdistinct : m.toList.Pairwise fun a b => ¬ compare a.1 b.1 = .eq :=
    ExtTreeMap.distinct_keys_toList
  have hmem : ∀ e ∈ m.toList.filter fun e => e.1 = k,
      e.1 = k ∧ m[k]? = some e.2 := by
    intro e he
    obtain ⟨hin, hk⟩ := List.mem_filter.1 he
    have hk : e.1 = k := by simpa using hk
    exact ⟨hk, hk ▸ (mem_toList_iff m e.1 e.2).1 hin⟩
  have hapart := hdistinct.filter fun e => decide (e.1 = k)
  cases hv : m[k]? with
  | none =>
    rw [Option.map_none, Option.toList_none, List.eq_nil_iff_forall_not_mem]
    intro e he
    have := (hmem e he).2
    rw [hv] at this
    cases this
  | some v =>
    rw [Option.map_some, Option.toList_some]
    have hin : (k, v) ∈ m.toList.filter fun e => e.1 = k :=
      List.mem_filter.2 ⟨(mem_toList_iff m k v).2 hv, by simp⟩
    match hl : m.toList.filter fun e => e.1 = k with
    | [] =>
      rw [hl] at hin
      cases hin
    | [e] =>
      rw [hl] at hin
      rw [hl, List.mem_singleton.1 hin]
    | a :: b :: l =>
      rw [hl] at hapart hmem
      have hab := (List.pairwise_cons.1 hapart).1 b List.mem_cons_self
      have ha := (hmem a List.mem_cons_self).1
      have hb := (hmem b (List.mem_cons_of_mem a List.mem_cons_self)).1
      rw [ha, hb, LawfulEqOrd.compare_eq_iff_eq] at hab
      exact absurd rfl hab

end BTreeMap

end Tasty
