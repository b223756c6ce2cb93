/-
Tables of rows in the order of their rowids: the statements that change
them, and what they keep of a key that no two rows share.
-/
import Mathlib.Data.List.Nodup

namespace Tasty.Table

open List

variable {ρ κ : Type}

-- ==== the statements

/-- `UPDATE … SET f WHERE p`. -/
def update (p : ρ → Bool) (f : ρ → ρ) (t : List ρ) : List ρ :=
  t.map fun r => if p r then f r else r

/-- `DELETE … WHERE p`. -/
def delete (p : ρ → Bool) (t : List ρ) : List ρ := t.filter fun r => !p r

section Keys

variable [DecidableEq κ] (key : ρ → κ)

/-- The row with this key. -/
def find (k : κ) (t : List ρ) : Option ρ := t.find? fun r => key r = k

/-- A row with the key of `r` is there, so that an `INSERT` of `r` fails. -/
def clashes (r : ρ) (t : List ρ) : Bool := t.any fun r' => key r' = key r

/-- `INSERT … ON CONFLICT(key) DO UPDATE`. -/
def upsert (r : ρ) (t : List ρ) : List ρ :=
  if clashes key r t then update (fun r' => key r' = key r) (fun _ => r) t
  else t ++ [r]

/-- `INSERT OR IGNORE`. -/
def insertOrIgnore [DecidableEq ρ] (r : ρ) (t : List ρ) : List ρ :=
  if r ∈ t then t else t ++ [r]

/-- No two rows have the same key. -/
def Unique (t : List ρ) : Prop := (t.map key).Nodup

end Keys

-- ==== membership

variable {p : ρ → Bool} {f : ρ → ρ} {r : ρ}

variable {t : List ρ}

theorem mem_update :
    r ∈ update p f t
      ↔ (r ∈ t ∧ p r = false) ∨ ∃ r' ∈ t, p r' = true ∧ r = f r' := by
  unfold update
  rw [mem_map]
  constructor
  · intro h
    obtain ⟨r', hr', rfl⟩ := h
    by_cases hp : p r' = true
    · rw [if_pos hp]
      exact .inr ⟨r', hr', hp, rfl⟩
    · rw [if_neg hp]
      exact .inl ⟨hr', Bool.eq_false_iff.2 hp⟩
  · intro h
    rcases h with ⟨hr, hp⟩ | ⟨r', hr', hp, rfl⟩
    · exact ⟨r, hr, by rw [hp]; rfl⟩
    · exact ⟨r', hr', if_pos hp⟩

theorem mem_delete : r ∈ delete p t ↔ r ∈ t ∧ p r = false := by
  unfold delete
  rw [mem_filter, Bool.not_eq_true']

theorem delete_sublist (p : ρ → Bool) (t : List ρ) : (delete p t).Sublist t :=
  filter_sublist

/-- A statement that meets no row changes nothing. -/
theorem update_of_none (h : ∀ r ∈ t, p r = false) : update p f t = t := by
  unfold update
  rw [map_congr_left (g := id) fun r hr => by rw [h r hr]; rfl,
    map_id]

/-- An update keeps what it does not write. -/
theorem map_update {α : Type} {g : ρ → α}
    (h : ∀ r ∈ t, p r = true → g (f r) = g r) :
    (update p f t).map g = t.map g := by
  unfold update
  rw [map_map]
  refine map_congr_left fun r hr => ?_
  show g (if p r then f r else r) = g r
  by_cases hp : p r = true
  · rw [if_pos hp]
    exact h r hr hp
  · rw [if_neg hp]

/-- A selection of rows whose choice an update keeps. -/
theorem filter_update {q : ρ → Bool} (h : ∀ r ∈ t, p r = true → q (f r) = q r) :
    (update p f t).filter q = update p f (t.filter q) := by
  unfold update
  rw [filter_map]
  congr 1
  refine filter_congr fun r hr => ?_
  show q (if p r then f r else r) = q r
  by_cases hp : p r = true
  · rw [if_pos hp]
    exact h r hr hp
  · rw [if_neg hp]

-- ==== the keys

section Keys

variable {key : ρ → κ}

theorem Unique.eq_of_key (h : Unique key t) {r' : ρ}
    (hr : r ∈ t) (hr' : r' ∈ t) (hkey : key r = key r') : r = r' :=
  inj_on_of_nodup_map h hr hr' hkey

theorem Unique.nil : Unique key [] := nodup_nil

theorem Unique.update (h : Unique key t)
    (hf : ∀ r ∈ t, p r = true → key (f r) = key r) :
    Unique key (update p f t) := by
  unfold Unique
  rw [map_update hf]
  exact h

theorem Unique.sublist {t' : List ρ} (h : Unique key t)
    (hsub : t'.Sublist t) : Unique key t' :=
  List.Nodup.sublist (hsub.map key) h

variable [DecidableEq κ]

theorem clashes_eq_false :
    clashes key r t = false ↔ ∀ r' ∈ t, key r' ≠ key r := by
  unfold clashes
  rw [any_eq_false]
  exact forall₂_congr fun _ _ => not_congr decide_eq_true_iff

variable {k : κ}

theorem find_mem (h : find key k t = some r) : r ∈ t :=
  mem_of_find?_eq_some h

theorem find_key (h : find key k t = some r) : key r = k :=
  of_decide_eq_true (List.find?_some h :)

theorem find_eq_none : find key k t = none ↔ ∀ r ∈ t, key r ≠ k := by
  unfold find
  rw [List.find?_eq_none]
  exact forall₂_congr fun _ _ => not_congr decide_eq_true_iff

theorem Unique.find_eq_some (h : Unique key t) :
    find key k t = some r ↔ r ∈ t ∧ key r = k := by
  constructor
  · intro hfind
    exact ⟨find_mem hfind, find_key hfind⟩
  · intro hr
    cases hfind : find key k t with
    | none => exact absurd hr.2 (find_eq_none.1 hfind r hr.1)
    | some r' =>
      rw [h.eq_of_key (find_mem hfind) hr.1 ((find_key hfind).trans hr.2.symm)]

/-- The order of the rows does not matter to what is found. -/
theorem Unique.find_of_perm {t' : List ρ} (h : Unique key t)
    (hperm : t.Perm t') : find key k t = find key k t' := by
  have h' : Unique key t' := (hperm.map key).nodup_iff.1 h
  refine Option.ext fun r => ?_
  rw [h.find_eq_some, h'.find_eq_some, hperm.mem_iff]

theorem Unique.append (h : Unique key t)
    (hr : clashes key r t = false) : Unique key (t ++ [r]) := by
  unfold Unique
  rw [map_append, nodup_append]
  refine ⟨h, nodup_singleton _, fun k hk k' hk' heq => ?_⟩
  obtain ⟨r', hr', rfl⟩ := mem_map.1 hk
  rw [map_singleton, mem_singleton] at hk'
  exact clashes_eq_false.1 hr r' hr' (heq.trans hk')

theorem Unique.upsert (h : Unique key t) (r : ρ) :
    Unique key (upsert key r t) := by
  unfold Table.upsert
  by_cases hr : clashes key r t = true
  · rw [if_pos hr]
    exact h.update fun r' _ hp => (of_decide_eq_true hp).symm
  · rw [if_neg hr]
    exact h.append (Bool.eq_false_iff.2 hr)

theorem mem_upsert {r' : ρ} :
    r' ∈ upsert key r t ↔ r' = r ∨ r' ∈ t ∧ key r' ≠ key r := by
  unfold upsert
  by_cases hr : clashes key r t = true
  · rw [if_pos hr, mem_update]
    constructor
    · intro h
      rcases h with ⟨hr', hp⟩ | ⟨_, -, -, rfl⟩
      · exact .inr ⟨hr', of_decide_eq_false hp⟩
      · exact .inl rfl
    · intro h
      rcases h with rfl | ⟨hr', hne⟩
      · obtain ⟨r₀, hr₀, hkey⟩ := any_eq_true.1 hr
        exact .inr ⟨r₀, hr₀, hkey, rfl⟩
      · exact .inl ⟨hr', decide_eq_false hne⟩
  · rw [if_neg hr, mem_append, mem_singleton]
    constructor
    · intro h
      rcases h with hr' | rfl
      · exact .inr ⟨hr', clashes_eq_false.1 (Bool.eq_false_iff.2 hr) r' hr'⟩
      · exact .inl rfl
    · intro h
      rcases h with rfl | ⟨hr', -⟩
      · exact .inr rfl
      · exact .inl hr'

/-- An update changes the row that is found. -/
theorem find_update (k : κ) (t : List ρ)
    (hf : ∀ r, p r = true → key (f r) = key r) :
    find key k (update p f t)
      = (find key k t).map fun r => if p r then f r else r := by
  unfold find update
  rw [List.find?_map]
  congr 2
  funext r
  show decide (key (if p r then f r else r) = k) = _
  by_cases hp : p r = true
  · rw [if_pos hp, hf r hp]
  · rw [if_neg hp]

theorem find_append (k : κ) (t : List ρ) (r : ρ) :
    find key k (t ++ [r])
      = (find key k t).or (if key r = k then some r else none) := by
  unfold find
  rw [List.find?_append, List.find?_singleton]
  by_cases hk : key r = k <;> simp [hk]

theorem find_delete_of_ne (h : ∀ r, key r = k → p r = false) :
    find key k (delete p t) = find key k t := by
  unfold find delete
  rw [List.find?_filter]
  congr 1
  funext r
  by_cases hk : key r = k
  · simp [hk, h r hk]
  · simp [hk]

theorem find_upsert (k : κ) (r : ρ) (t : List ρ) :
    find key k (upsert key r t)
      = if key r = k then some r else find key k t := by
  unfold upsert
  by_cases hr : clashes key r t = true
  · rw [if_pos hr, find_update k t fun r' hp => (of_decide_eq_true hp).symm]
    by_cases hk : key r = k
    · rw [if_pos hk]
      obtain ⟨r', hr', hkey⟩ := any_eq_true.1 hr
      cases hfind : find key k t with
      | none =>
        exact absurd ((of_decide_eq_true hkey).trans hk)
          (find_eq_none.1 hfind r' hr')
      | some r'' => simp [find_key hfind, hk]
    · rw [if_neg hk]
      cases hfind : find key k t with
      | none => rfl
      | some r'' =>
        have hne : key r'' ≠ key r := fun h =>
          hk (h.symm.trans (find_key hfind))
        simp [hne]
  · rw [if_neg hr, find_append]
    by_cases hk : key r = k
    · rw [if_pos hk, if_pos hk]
      have hnone : find key k t = none := find_eq_none.2 fun r' hr' h =>
        clashes_eq_false.1 (Bool.eq_false_iff.2 hr) r' hr' (h.trans hk.symm)
      rw [hnone, Option.none_or]
    · rw [if_neg hk, if_neg hk, Option.or_none]

end Keys

-- ==== AUTOINCREMENT

/-- The rows have numbers from one on, in their order and without a number
being used again, of which `last` is the last one. -/
structure Numbered (key : ρ → Nat) (last : Nat) (t : List ρ) : Prop where
  order : t.Pairwise fun r r' => key r < key r'
  bounds : ∀ r ∈ t, 0 < key r ∧ key r ≤ last

namespace Numbered

variable {key : ρ → Nat} {last : Nat} {t : List ρ}

theorem nil : Numbered key 0 [] := ⟨.nil, fun _ hr => nomatch hr⟩

theorem append (h : Numbered key last t) (hr : key r = last + 1) :
    Numbered key (last + 1) (t ++ [r]) where
  order := by
    refine pairwise_append.2 ⟨h.order, pairwise_singleton _ _, ?_⟩
    intro a ha b hb
    rw [mem_singleton.1 hb, hr]
    exact Nat.lt_succ_of_le (h.bounds a ha).2
  bounds := fun a ha => by
    rcases mem_append.1 ha with ha | ha
    · exact ⟨(h.bounds a ha).1, Nat.le_succ_of_le (h.bounds a ha).2⟩
    · rw [mem_singleton.1 ha, hr]
      exact ⟨Nat.succ_pos _, Nat.le_refl _⟩

theorem sublist (h : Numbered key last t) {t' : List ρ}
    (hsub : t'.Sublist t) : Numbered key last t' :=
  ⟨h.order.sublist hsub, fun r hr => h.bounds r (hsub.subset hr)⟩

theorem unique (h : Numbered key last t) : Unique key t :=
  pairwise_map.2 (h.order.imp Nat.ne_of_lt)

end Numbered

end Tasty.Table
