/-
Maps written as lists of entries, for use inside nested inductive types:
the first entry of a key is its value, and a walk over the map meets
values, never shadowed entries. Where the entries are in the order of their
keys, as a `BTreeMap` is walked, an insertion keeps the order, and a key
stands at one place.
-/
import Mathlib.Data.List.Perm.Subperm
import Mathlib.Data.String.Basic

namespace Tasty

abbrev Entries (α : Type) := List (String × α)

namespace Entries

variable {α : Type}

/-- `map.get(key)`. -/
def get (m : Entries α) (k : String) : Option α := m.lookup k

/-- `map.contains_key(key)`. -/
def contains (m : Entries α) (k : String) : Bool := (m.get k).isSome

/-- The keys, in order. -/
def keys (m : Entries α) : List String := m.map Prod.fst

/-- The entries a `for` loop over the map visits. -/
def iter (m : Entries α) : List (String × α) :=
  m.keys.filterMap fun k => (m.get k).map fun v => (k, v)

@[simp] theorem get_nil (k : String) : get ([] : Entries α) k = none := rfl

theorem get_cons (k k' : String) (v : α) (m : Entries α) :
    get ((k, v) :: m) k' = if k' = k then some v else get m k' := by
  unfold get
  rw [List.lookup_cons]
  by_cases h : k' = k
  · simp [h]
  · simp [h, beq_eq_false_iff_ne.2 h]

variable {m : Entries α} {k : String}

theorem mem_of_get {v : α} (h : m.get k = some v) : (k, v) ∈ m := by
  induction m with
  | nil => cases h
  | cons entry m ih =>
    obtain ⟨k', v'⟩ := entry
    rw [get_cons] at h
    split at h
    · rename_i hk
      cases h
      rw [hk]
      exact List.mem_cons_self
    · exact List.mem_cons_of_mem _ (ih h)

theorem get_isSome_iff : (m.get k).isSome = true ↔ k ∈ m.keys := by
  induction m with
  | nil => simp [keys]
  | cons entry m ih =>
    obtain ⟨k', v'⟩ := entry
    rw [get_cons]
    show _ ↔ k ∈ k' :: keys m
    rw [List.mem_cons]
    split
    · rename_i hk
      simp [hk]
    · rename_i hk
      rw [ih]
      simp [hk]

theorem contains_iff : m.contains k = true ↔ k ∈ m.keys :=
  get_isSome_iff

/-- A walk visits each key with its value. -/
theorem mem_iter {v : α} : (k, v) ∈ m.iter ↔ m.get k = some v := by
  unfold iter
  rw [List.mem_filterMap]
  constructor
  · rintro ⟨k', _, h⟩
    obtain ⟨v', hv', h⟩ := Option.map_eq_some_iff.1 h
    cases h
    exact hv'
  · intro h
    refine ⟨k, get_isSome_iff.1 (by rw [h]; rfl), ?_⟩
    rw [h]
    rfl

end Entries

end Tasty

-- ==== entries in order

namespace Tasty.Entries

variable {α : Type}

/-- `map.insert(key, value)`. -/
def insert (k : String) (v : α) : Entries α → Entries α
  | [] => [(k, v)]
  | (k', v') :: rest =>
    if k = k' then (k, v) :: rest
    else if k < k' then (k, v) :: (k', v') :: rest
    else (k', v') :: insert k v rest

/-- The keys ascend. -/
def Sorted (m : Entries α) : Prop := m.keys.Pairwise (· < ·)

theorem sorted_nil : Sorted ([] : Entries α) := List.Pairwise.nil

variable {k : String} {m : Entries α} {v : α}

theorem sorted_cons :
    Sorted ((k, v) :: m) ↔ (∀ k' ∈ m.keys, k < k') ∧ m.Sorted :=
  List.pairwise_cons

theorem get_insert (k : String) (v : α) (m : Entries α) (k' : String) :
    get (insert k v m) k' = if k' = k then some v else get m k' := by
  induction m with
  | nil => rw [insert, get_cons]
  | cons entry m ih =>
    obtain ⟨k₀, v₀⟩ := entry
    rw [insert]
    by_cases hsame : k = k₀
    · rw [if_pos hsame, get_cons, get_cons, hsame]
      split <;> rfl
    · rw [if_neg hsame]
      split
      · rw [get_cons]
      · rw [get_cons, get_cons, ih]
        by_cases hk : k' = k₀
        · rw [if_pos hk, if_pos hk, if_neg (fun h => hsame (h.symm.trans hk))]
        · rw [if_neg hk, if_neg hk]

theorem mem_keys_insert {k' : String} :
    k' ∈ (insert k v m).keys ↔ k' = k ∨ k' ∈ m.keys := by
  rw [← get_isSome_iff, ← get_isSome_iff, get_insert]
  split
  · rename_i h
    simp [h]
  · rename_i h
    simp [h]

theorem mem_insert {e : String × α} (h : e ∈ insert k v m) : e = (k, v) ∨ e ∈ m := by
  induction m with
  | nil => exact .inl (List.mem_singleton.1 h)
  | cons entry m ih =>
    obtain ⟨k', v'⟩ := entry
    rw [insert] at h
    split at h
    · exact (List.mem_cons.1 h).imp_right (List.mem_cons_of_mem _)
    · split at h
      · exact List.mem_cons.1 h
      · rcases List.mem_cons.1 h with he | hm
        · exact .inr (he ▸ List.mem_cons_self)
        · exact (ih hm).imp_right (List.mem_cons_of_mem _)

theorem insert_of_lt (h : ∀ k' ∈ m.keys, k' < k) : insert k v m = m ++ [(k, v)] := by
  induction m with
  | nil => rfl
  | cons entry m ih =>
    obtain ⟨k', v'⟩ := entry
    obtain ⟨hlt, hrest⟩ := List.forall_mem_cons.1 h
    rw [insert, if_neg hlt.ne', if_neg hlt.not_gt, ih hrest]
    rfl

/-- What comes after a map and after one more key comes after both. -/
theorem lt_of_mem_append {later : List String}
    (h : ∀ k' ∈ m.keys, ∀ n ∈ k :: later, k' < n) (hk : ∀ n ∈ later, k < n) :
    ∀ k' ∈ keys (m ++ [(k, v)]), ∀ n ∈ later, k' < n := by
  intro k' hk' n hn
  rw [keys, List.map_append, List.mem_append] at hk'
  rcases hk' with hk' | hk'
  · exact h k' hk' n (List.mem_cons_of_mem _ hn)
  · rw [List.mem_singleton.1 hk']
    exact hk n hn

theorem Sorted.insert (h : m.Sorted) (k : String) (v : α) :
    (Entries.insert k v m).Sorted := by
  induction m with
  | nil => exact List.pairwise_singleton _ _
  | cons entry m ih =>
    obtain ⟨k₀, v₀⟩ := entry
    obtain ⟨hfirst, hrest⟩ := sorted_cons.1 h
    unfold Entries.insert
    by_cases hsame : k = k₀
    · rw [if_pos hsame]
      exact sorted_cons.2 ⟨hsame ▸ hfirst, hrest⟩
    · rw [if_neg hsame]
      by_cases hlt : k < k₀
      · rw [if_pos hlt]
        refine sorted_cons.2 ⟨fun k' hk' => ?_, h⟩
        rcases List.mem_cons.1 hk' with rfl | hk'
        · exact hlt
        · exact hlt.trans (hfirst k' hk')
      · rw [if_neg hlt]
        refine sorted_cons.2 ⟨fun k' hk' => ?_, ih hrest⟩
        rcases mem_keys_insert.1 hk' with rfl | hk'
        · exact lt_of_le_of_ne (not_lt.1 hlt) (Ne.symm hsame)
        · exact hfirst k' hk'

theorem Sorted.nodup (h : m.Sorted) : m.keys.Nodup :=
  h.imp fun hlt => hlt.ne

/-- The entries are what the keys look up. -/
theorem Sorted.mem_iff (h : m.Sorted) : (k, v) ∈ m ↔ m.get k = some v := by
  refine ⟨fun hmem => ?_, mem_of_get⟩
  induction m with
  | nil => cases hmem
  | cons entry m ih =>
    obtain ⟨k₀, v₀⟩ := entry
    obtain ⟨hfirst, hrest⟩ := sorted_cons.1 h
    rw [get_cons]
    rcases List.mem_cons.1 hmem with he | hmem
    · cases he
      exact if_pos rfl
    · have hlt := hfirst k (List.mem_map.2 ⟨(k, v), hmem, rfl⟩)
      rw [if_neg hlt.ne']
      exact ih hrest hmem

/-- An entry that is there is inserted for nothing. -/
theorem Sorted.insert_of_get (h : m.Sorted) (hget : m.get k = some v) : Entries.insert k v m = m := by
  induction m with
  | nil => cases hget
  | cons entry m ih =>
    obtain ⟨k₀, v₀⟩ := entry
    obtain ⟨hfirst, hrest⟩ := sorted_cons.1 h
    rw [get_cons] at hget
    unfold Entries.insert
    by_cases hsame : k = k₀
    · rw [if_pos hsame] at hget ⊢
      cases hget
      rw [hsame]
    · rw [if_neg hsame] at hget ⊢
      have hlt := hfirst k (get_isSome_iff.1 (by rw [hget]; rfl))
      rw [if_neg hlt.not_gt, ih hrest hget]

/-- A walk visits each entry. -/
theorem Sorted.iter_eq (h : m.Sorted) : m.iter = m := by
  have hvisit : ∀ l : Entries α, (∀ e ∈ l, e ∈ m) →
      l.keys.filterMap (fun k => (m.get k).map fun v => (k, v)) = l := by
    intro l hl
    induction l with
    | nil => rfl
    | cons e l ih =>
      obtain ⟨he, hl⟩ := List.forall_mem_cons.1 hl
      have hget : m.get e.1 = some e.2 := h.mem_iff.1 he
      show List.filterMap _ (e.1 :: keys l) = _
      rw [List.filterMap_cons, hget, ih hl]
      rfl
  exact hvisit m fun _ he => he

/-- Of two maps of one size, one has a key that the other lacks only if
the other does, too. -/
theorem Sorted.keys_subset {β : Type} {m' : Entries β} (h : m.Sorted)
    (hlen : m.length = m'.length) (hsub : ∀ k ∈ m.keys, k ∈ m'.keys) : ∀ k ∈ m'.keys, k ∈ m.keys := by
  have hperm := (List.subperm_of_subset h.nodup hsub).perm_of_length_le
    (by simp [keys, hlen])
  exact fun k hk => hperm.mem_iff.2 hk

end Tasty.Entries
