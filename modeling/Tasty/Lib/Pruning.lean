/-
Taking whole families out of a doubly linked store: the parents of a list,
and with them every child that one of them lists.

A child has one parent, so the families of different parents do not meet,
and a parent that stays lists none of what goes.
-/
import Tasty.Lib.BTreeMap
import Tasty.Lib.Linked

namespace Tasty

open Std ExtTreeMap Option

-- ==== the maps

namespace BTreeMap

variable {α β : Type} [Ord α] [TransOrd α] [LawfulEqOrd α] [DecidableEq α]

/-- The map without the keys of a list. -/
def eraseAll (m : BTreeMap α β) : List α → BTreeMap α β
  | [] => m
  | k :: keys => eraseAll (m.erase k) keys

@[simp] theorem get_eraseAll (m : BTreeMap α β) (keys : List α) (a : α) :
    (eraseAll m keys)[a]? = if a ∈ keys then none else m[a]? := by
  induction keys generalizing m with
  | nil => simp [eraseAll]
  | cons k keys ih =>
    unfold eraseAll
    rw [ih, get_erase]
    by_cases hk : k = a
    · simp [hk]
    · simp [hk, Ne.symm hk]

omit [LawfulEqOrd α] [DecidableEq α] in
theorem eraseAll_append (m : BTreeMap α β) (keys keys' : List α) :
    eraseAll m (keys ++ keys') = eraseAll (eraseAll m keys) keys' := by
  induction keys generalizing m with
  | nil => rfl
  | cons k keys ih => exact ih (m.erase k)

variable {m : BTreeMap α β}

omit [LawfulEqOrd α] [DecidableEq α] in
/-- A map whose values stay as they are. -/
theorem get_map_same {f : β → β} {a : α}
    (h : ∀ (v : β), m[a]? = some v → f v = v) : m[a]? = (m[a]?).map f := by
  cases hv : m[a]? with
  | none => rfl
  | some v => rw [map_some, h v hv]

theorem get_eraseAll_map {keys : List α} {f : β → β}
    (h : ∀ (a : α) (v : β), m[a]? = some v → a ∉ keys → f v = v) (a : α) :
    (eraseAll m keys)[a]? = if a ∈ keys then none else (m[a]?).map f := by
  rw [get_eraseAll]
  split
  · rfl
  · rename_i ha
    exact get_map_same fun v hv => h a v hv ha

/-- A map that changes one value only. -/
theorem get_insert_map {k : α} {v : β} {f : β → β} (hk : m[k]? = some v)
    (h : ∀ (a : α) (v : β), m[a]? = some v → a ≠ k → f v = v) (a : α) :
    (m.insert k (f v))[a]? = (m[a]?).map f := by
  rw [get_insert]
  split
  · rename_i hka
    rw [← hka, hk, map_some]
  · rename_i hka
    exact get_map_same fun v hv => h a v hv (Ne.symm hka)

omit [LawfulEqOrd α] [DecidableEq α] in
/-- The keys a map lost, from what is left of it. -/
theorem gone_of_get {m' : BTreeMap α β} {p : Prop} [Decidable p] {a : α}
    {f : β → β} (h : m'[a]? = if decide p then none else (m[a]?).map f)
    (hin : p → a ∈ m) : p ↔ a ∈ m ∧ a ∉ m' := by
  refine ⟨fun hp => ⟨hin hp, ?_⟩, fun hm => ?_⟩
  · rw [if_pos (decide_eq_true hp)] at h
    exact (not_mem_iff_get ..).2 h
  · by_contra hp
    rw [if_neg (by simpa using hp)] at h
    obtain ⟨v, hv⟩ := (mem_iff_get ..).1 hm.1
    rw [hv] at h
    exact hm.2 ((mem_iff_get ..).2 ⟨f v, h⟩)

-- Single edits, as filters of the whole map.

section Filters

variable {m : BTreeMap α β} {f : α → β → Option β} {k₀ : α}

omit [DecidableEq α] in
theorem filterMap_self
    (h : ∀ (k : α) (v : β), m[k]? = some v → f k v = some v) :
    m.filterMap f = m := by
  refine ext_getElem? fun k => ?_
  rw [getElem?_filterMap']
  cases hv : m[k]? with
  | none => rfl
  | some v => rw [bind_some, h k v hv]

/-- A filter that changes one entry overwrites it. -/
theorem insert_eq_filterMap {v₀ w : β} (hv : m[k₀]? = some v₀)
    (hf : f k₀ v₀ = some w)
    (hother : ∀ (k : α) (v : β), k ≠ k₀ → m[k]? = some v →
      f k v = some v) : m.insert k₀ w = m.filterMap f := by
  refine ext_getElem? fun k => ?_
  rw [get_insert, getElem?_filterMap']
  split
  · rename_i hk
    rw [← hk, hv, bind_some, hf]
  · rename_i hk
    cases hget : m[k]? with
    | none => rfl
    | some v => rw [bind_some, hother k v (Ne.symm hk) hget]

/-- A filter that drops one entry removes it. -/
theorem erase_eq_filterMap (hf : ∀ v : β, m[k₀]? = some v → f k₀ v = none)
    (hother : ∀ (k : α) (v : β), k ≠ k₀ → m[k]? = some v →
      f k v = some v) : m.erase k₀ = m.filterMap f := by
  refine ext_getElem? fun k => ?_
  rw [get_erase, getElem?_filterMap']
  split
  · rename_i hk
    rw [← hk]
    cases hget : m[k₀]? with
    | none => rfl
    | some v => rw [bind_some, hf v hget]
  · rename_i hk
    cases hget : m[k]? with
    | none => rfl
    | some v => rw [bind_some, hother k v (Ne.symm hk) hget]

/-- A filter that drops one entry and changes another. -/
theorem replace_eq_filterMap {s t : α} {v w : β}
    (hv : (m.erase t)[s]? = some v) (hgone : ∀ v, f t v = none)
    (hf : f s v = some w)
    (hother : ∀ (k : α) (u : β), k ≠ s → k ≠ t → m[k]? = some u →
      f k u = some u) : (m.erase t).insert s w = m.filterMap f := by
  refine ext_getElem? fun k => ?_
  rw [get_insert, get_erase, getElem?_filterMap']
  rw [get_erase] at hv
  split at hv
  · cases hv
  · rename_i hne
    by_cases hks : s = k
    · rw [if_pos hks, ← hks, hv, bind_some, hf]
    · rw [if_neg hks]
      by_cases hkt : t = k
      · rw [if_pos hkt, ← hkt]
        cases m[t]? with
        | none => rfl
        | some u => rw [bind_some, hgone u]
      · rw [if_neg hkt]
        cases hu : m[k]? with
        | none => rfl
        | some u =>
          rw [bind_some, hother k u (Ne.symm hks) (Ne.symm hkt) hu]

/-- An entry that goes need not be written first. -/
theorem erase_insert_self {v : β} : (m.insert k₀ v).erase k₀ = m.erase k₀ := by
  refine ext_getElem? fun k => ?_
  rw [get_erase, get_erase, get_insert]
  split
  · rfl
  · rfl

end Filters

end BTreeMap

-- ==== the families

namespace Linked

variable {α β : Type} {kids : α → Option (List β)} {up : β → Option α}
  {orphans : List β} {parents : List α} {a : α} {b : β}

/-- What the parents of a list have under them, in order. -/
def family (kids : α → Option (List β)) (parents : List α) : List β :=
  parents.flatMap fun a => (kids a).getD []

@[simp] theorem family_nil : family kids [] = [] := rfl

@[simp] theorem family_cons (a : α) (parents : List α) :
    family kids (a :: parents)
      = (kids a).getD [] ++ family kids parents := rfl

theorem family_singleton {l : List β} (hl : kids a = some l) :
    family kids [a] = l := by
  simp [hl]

theorem mem_family : b ∈ family kids parents
    ↔ ∃ a ∈ parents, ∃ l, kids a = some l ∧ b ∈ l := by
  unfold family
  rw [List.mem_flatMap]
  refine exists_congr fun a => and_congr_right fun _ => ?_
  cases kids a <;> simp

theorem family_congr {kids' : α → Option (List β)}
    (h : ∀ a ∈ parents, kids' a = kids a) :
    family kids' parents = family kids parents :=
  List.flatMap_congr fun a ha => by rw [h a ha]

theorem spared (h : Linked kids up orphans) (ha : a ∉ parents)
    {l : List β} (hl : kids a = some l) (hb : b ∈ l) :
    b ∉ family kids parents := by
  intro hf
  obtain ⟨a', ha', l', hl', hb'⟩ := mem_family.1 hf
  exact ha (h.parent_unique hl hb hl' hb' ▸ ha')

theorem nodup_family (h : Linked kids up orphans) (hp : parents.Nodup) :
    (family kids parents).Nodup := by
  induction parents with
  | nil => exact List.nodup_nil
  | cons a parents ih =>
    rw [family_cons]
    obtain ⟨ha, hp⟩ := List.nodup_cons.1 hp
    cases hl : kids a with
    | none => exact ih hp
    | some l =>
      exact List.nodup_append.2 ⟨h.nodup hl, ih hp, fun b hb b' hb' heq =>
        h.spared ha hl hb (heq ▸ hb')⟩

end Linked

end Tasty
