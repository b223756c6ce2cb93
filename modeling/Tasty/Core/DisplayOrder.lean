/-
The composite sequence of workspaces: whatever the nine mutators do to the
lists and the display order, the sequence has every workspace once and the
local ones in their own order.

What an iterator has yet to yield is a list (`remaining`), of which `next`
takes the head. The display order stays a permutation of all ids that lists
the local ones as the local list does (`Ordered`), so a refresh of it
changes nothing.
-/
import Mathlib.Data.List.Perm.Subperm
import Tasty.Core.Workspaces

namespace Tasty.Core.Live

open List

variable {α : Type}

-- ==== the iterator

namespace WorkspaceIter

variable {r : WorkspaceRead α} {it : WorkspaceIter α}

/-- What is still to be yielded. -/
def remaining (it : WorkspaceIter α) : List (Workspace α) :=
  (it.read.order.drop it.ordered).filterMap it.read.find
    ++ (it.read.all.drop it.fallback).filter
      fun w => !it.read.order.contains w.id

/-- How many entries and workspaces are still to be looked at. -/
def left (it : WorkspaceIter α) : Nat :=
  (it.read.order.length - it.ordered) + (it.read.len - it.fallback)

theorem scanOrder_spec (l : List UInt32) (n : Nat) :
    (∃ w k, k < l.length ∧ scanOrder r l n = (some w, n + k + 1)
      ∧ l.filterMap r.find = w :: (l.drop (k + 1)).filterMap r.find)
    ∨ (scanOrder r l n = (none, n + l.length) ∧ l.filterMap r.find = []) := by
  induction l generalizing n with
  | nil => exact .inr ⟨rfl, rfl⟩
  | cons id l ih =>
    unfold scanOrder
    cases hfind : r.find id with
    | some w =>
      exact .inl ⟨w, 0, Nat.succ_pos _, rfl, filterMap_cons_some hfind⟩
    | none =>
      have hskip := filterMap_cons_none (l := l) hfind
      rw [hskip, length_cons]
      rcases ih (n + 1) with ⟨w, k, hk, hscan, hrest⟩ | ⟨hscan, hrest⟩
      · refine .inl ⟨w, k + 1, by omega, ?_, hrest⟩
        rw [hscan]
        exact congrArg (Prod.mk _) (by omega)
      · refine .inr ⟨?_, hrest⟩
        rw [hscan]
        exact congrArg (Prod.mk _) (by omega)

theorem scanRest_spec (l : List (Workspace α)) (n : Nat) :
    (∃ w k, k < l.length ∧ scanRest r l n = (some w, n + k + 1)
      ∧ (l.filter fun w => !r.order.contains w.id)
        = w :: (l.drop (k + 1)).filter fun w => !r.order.contains w.id)
    ∨ (scanRest r l n = (none, n + l.length)
      ∧ (l.filter fun w => !r.order.contains w.id) = []) := by
  induction l generalizing n with
  | nil => exact .inr ⟨rfl, rfl⟩
  | cons w l ih =>
    unfold scanRest
    by_cases hin : (!r.order.contains w.id) = true
    · rw [if_pos hin]
      exact .inl ⟨w, 0, Nat.succ_pos _, rfl, filter_cons_of_pos hin⟩
    · have hskip : ((w :: l).filter fun w => !r.order.contains w.id)
          = l.filter fun w => !r.order.contains w.id :=
        filter_cons_of_neg hin
      rw [if_neg hin, hskip, length_cons]
      rcases ih (n + 1) with ⟨w', k, hk, hscan, hrest⟩ | ⟨hscan, hrest⟩
      · refine .inl ⟨w', k + 1, by omega, ?_, hrest⟩
        rw [hscan]
        exact congrArg (Prod.mk _) (by omega)
      · refine .inr ⟨?_, hrest⟩
        rw [hscan]
        exact congrArg (Prod.mk _) (by omega)

theorem next_spec (it : WorkspaceIter α) :
    (∃ w it', it.next = (some w, it') ∧ it'.read = it.read
      ∧ it'.yielded = it.yielded + 1 ∧ it.remaining = w :: it'.remaining
      ∧ it'.left < it.left)
    ∨ (∃ it', it.next = (none, it') ∧ it'.read = it.read
      ∧ it'.yielded = it.yielded ∧ it.remaining = [] ∧ it'.remaining = []) := by
  unfold next remaining left
  have hall : it.read.all.length = it.read.len := length_append
  rcases scanOrder_spec (r := it.read) (it.read.order.drop it.ordered)
    it.ordered with ⟨w, k, hk, hscan, hrest⟩ | ⟨hscan, hrest⟩
  · rw [length_drop] at hk
    rw [drop_drop] at hrest
    refine .inl ⟨w, { it with
      ordered := it.ordered + k + 1, yielded := it.yielded + 1 }, ?_, rfl,
      rfl, ?_, ?_⟩
    · rw [hscan]
    · rw [hrest]
      rfl
    · dsimp only
      omega
  · have hdone : (it.read.order.drop (it.ordered
        + (it.read.order.drop it.ordered).length)).filterMap it.read.find
        = [] := by
      rw [length_drop, drop_of_length_le (by omega)]
      rfl
    rcases scanRest_spec (r := it.read) (it.read.all.drop it.fallback)
      it.fallback with ⟨w, k, hk, hscan', hrest'⟩ | ⟨hscan', hrest'⟩
    · rw [length_drop, hall] at hk
      rw [drop_drop] at hrest'
      refine .inl ⟨w, { it with
        ordered := it.ordered + (it.read.order.drop it.ordered).length
        fallback := it.fallback + k + 1
        yielded := it.yielded + 1 }, ?_, rfl, rfl, ?_, ?_⟩
      · rw [hscan]
        dsimp only
        rw [hscan']
      · dsimp only
        rw [hrest, hrest', hdone]
        rfl
      · dsimp only
        omega
    · refine .inr ⟨{ it with
        ordered := it.ordered + (it.read.order.drop it.ordered).length
        fallback := it.fallback + (it.read.all.drop it.fallback).length },
        ?_, rfl, rfl, ?_, ?_⟩
      · rw [hscan]
        dsimp only
        rw [hscan']
      · rw [hrest, hrest']
        rfl
      · dsimp only
        rw [hdone, length_drop, drop_of_length_le (by omega)]
        rfl

theorem collectUpTo_eq {fuel : Nat} (h : it.left < fuel) :
    collectUpTo fuel it = it.remaining := by
  induction fuel generalizing it with
  | zero => exact absurd h (Nat.not_lt_zero _)
  | succ fuel ih =>
    unfold collectUpTo
    rcases next_spec it with ⟨w, it', hnext, -, -, hrest, hleft⟩ |
      ⟨it', hnext, -, -, hrest, -⟩
    · rw [hnext, hrest]
      dsimp only
      rw [ih (by omega)]
    · rw [hnext, hrest]

theorem collect_iter (r : WorkspaceRead α) :
    r.iter.collect = r.iter.remaining :=
  collectUpTo_eq (Nat.lt_succ_self _)

theorem nth_eq (it : WorkspaceIter α) (n : Nat) :
    it.nth n = it.remaining[n]? := by
  induction n generalizing it with
  | zero =>
    unfold nth
    rcases next_spec it with ⟨w, it', hnext, -, -, hrest, -⟩ |
      ⟨it', hnext, -, -, hrest, -⟩
    · rw [hnext, hrest]
      rfl
    · rw [hnext, hrest]
      rfl
  | succ n ih =>
    unfold nth
    rcases next_spec it with ⟨w, it', hnext, -, -, hrest, -⟩ |
      ⟨it', hnext, -, -, hrest, -⟩
    · rw [hnext, hrest]
      exact ih it'
    · rw [hnext, hrest]
      rfl

/-- The iterator after so many calls of `next`. -/
def after (it : WorkspaceIter α) : Nat → WorkspaceIter α
  | 0 => it
  | n + 1 => it.next.2.after n

theorem sizeHint_after (n : Nat)
    (h : it.yielded + it.remaining.length = it.read.len) :
    (it.after n).sizeHint
      = (it.remaining.length - n, some (it.remaining.length - n)) := by
  induction n generalizing it with
  | zero =>
    unfold after sizeHint
    rw [← h, Nat.add_sub_cancel_left, Nat.sub_zero]
  | succ n ih =>
    unfold after
    rcases next_spec it with ⟨w, it', hnext, hread, hyielded, hrest, -⟩ |
      ⟨it', hnext, hread, hyielded, hrest, hrest'⟩
    · rw [hrest, length_cons] at h ⊢
      rw [hnext]
      dsimp only
      rw [ih (by rw [hread, hyielded]; omega), Nat.add_sub_add_right]
    · rw [hrest] at h ⊢
      rw [hnext]
      dsimp only
      rw [ih (by rw [hread, hyielded, hrest']; exact h), hrest']
      rw [length_nil, Nat.zero_sub, Nat.zero_sub]

end WorkspaceIter

-- ==== the lists

section Lists

open CoreState (removeId replaceFirst noRepeats)

variable {ws vs all : List (Workspace α)} {w : Workspace α} {id : UInt32}

theorem hasId_iff : hasId ws id = true ↔ id ∈ ids ws := by
  unfold hasId ids
  simp

theorem ids_append (ws vs : List (Workspace α)) :
    ids (ws ++ vs) = ids ws ++ ids vs :=
  map_append

theorem eq_of_ids (all : List (Workspace α)) (hall : (ids all).Nodup)
    (hw : ∀ w ∈ ws, w ∈ all) (hv : ∀ v ∈ vs, v ∈ all)
    (h : ids ws = ids vs) : ws = vs := by
  induction ws generalizing vs with
  | nil => exact (map_eq_nil_iff.1 h.symm).symm
  | cons w ws ih =>
    cases vs with
    | nil => cases h
    | cons v vs =>
      obtain ⟨hid, hrest⟩ := List.cons.inj h
      have heq : w = v := inj_on_of_nodup_map hall (hw w (.head _))
        (hv v (.head _)) hid
      rw [heq, ih (fun w h => hw w (.tail _ h)) (fun v h => hv v (.tail _ h))
        hrest]

theorem ids_removeId (id : UInt32) (hnd : (ids ws).Nodup) :
    ids (removeId ws id) = (ids ws).filter (· ≠ id) := by
  induction ws with
  | nil => rfl
  | cons w ws ih =>
    obtain ⟨hout, hnd⟩ := nodup_cons.1 hnd
    show ids (eraseP _ (w :: ws)) = (w.id :: ids ws).filter (· ≠ id)
    by_cases h : w.id = id
    · have hrest : (ids ws).filter (· ≠ id) = ids ws :=
        filter_eq_self.2 fun v hv => by
          have hne : v ≠ w.id := fun heq => hout (heq ▸ hv)
          simpa [h] using hne
      rw [eraseP_cons_of_pos (by simpa using h),
        filter_cons_of_neg (by simpa using h), hrest]
    · rw [eraseP_cons_of_neg (by simpa using h),
        filter_cons_of_pos (by simpa using h)]
      exact congrArg (w.id :: ·) (ih hnd)

theorem ids_replaceFirst (ws : List (Workspace α)) (w : Workspace α) :
    ids (replaceFirst ws w) = ids ws := by
  induction ws with
  | nil => rfl
  | cons v ws ih =>
    unfold replaceFirst
    by_cases h : v.id = w.id
    · rw [if_pos h]
      exact congrArg (· :: ids ws) h.symm
    · rw [if_neg h]
      exact congrArg (v.id :: ·) ih

theorem find_of_mem (hall : (ids all).Nodup) (hw : w ∈ all) :
    (all.find? fun v => v.id = w.id) = some w := by
  cases hfind : all.find? fun v => v.id = w.id with
  | none =>
    have hnone := List.find?_eq_none.1 hfind w hw
    exact absurd (decide_eq_true rfl) hnone
  | some v =>
    have hid : v.id = w.id := by simpa using List.find?_some hfind
    rw [inj_on_of_nodup_map hall (mem_of_find?_eq_some hfind) hw hid]

variable {order : List UInt32}

/-- What is put into a list comes after those of its kind before it. -/
theorem filter_insertIdx {p : UInt32 → Bool} (hp : p id = true)
    {index : Nat} (hindex : index ≤ order.length) :
    (order.insertIdx index id).filter p = (order.filter p).insertIdx
      ((order.take index).filter p).length id := by
  induction order generalizing index with
  | nil =>
    cases Nat.le_zero.1 hindex
    exact filter_cons_of_pos hp
  | cons a order ih =>
    cases index with
    | zero => exact filter_cons_of_pos hp
    | succ index =>
      have hrest := ih (Nat.le_of_succ_le_succ hindex)
      rw [insertIdx_succ_cons, take_succ_cons]
      by_cases ha : p a = true
      · rw [filter_cons_of_pos ha, filter_cons_of_pos ha,
          filter_cons_of_pos ha, hrest]
        rfl
      · rw [filter_cons_of_neg ha, filter_cons_of_neg ha,
          filter_cons_of_neg ha, hrest]

theorem ids_insertIdx (ws : List (Workspace α)) (w : Workspace α)
    (index : Nat) :
    ids (ws.insertIdx index w) = (ids ws).insertIdx index w.id :=
  map_insertIdx _ _ _ _

theorem lookup_ids (hall : (ids all).Nodup) (hin : ∀ id ∈ order, id ∈ ids all) :
    (∀ w ∈ order.filterMap fun id => all.find? fun v => v.id = id, w ∈ all)
      ∧ ids (order.filterMap fun id => all.find? fun v => v.id = id)
        = order := by
  induction order with
  | nil => exact ⟨forall_mem_nil _, rfl⟩
  | cons id order ih =>
    obtain ⟨w, hw, rfl⟩ := mem_map.1 (hin id (.head _))
    obtain ⟨hmem, hids⟩ := ih fun id h => hin id (.tail _ h)
    rw [filterMap_cons_some
      (f := fun id => all.find? fun v => v.id = id) (find_of_mem hall hw)]
    refine ⟨fun v hv => ?_, congrArg (w.id :: ·) hids⟩
    rcases mem_cons.1 hv with rfl | hv
    · exact hw
    · exact hmem v hv

theorem nodup_of_noRepeats {before : List UInt32}
    (h : noRepeats before order = true) :
    order.Nodup ∧ ∀ id ∈ order, id ∉ before := by
  induction order generalizing before with
  | nil => exact ⟨nodup_nil, forall_mem_nil _⟩
  | cons id order ih =>
    unfold noRepeats at h
    simp only [Bool.and_eq_true, Bool.not_eq_true',
      contains_eq_mem, decide_eq_false_iff_not] at h
    obtain ⟨hnd, hout⟩ := ih h.2
    have hid : id ∉ order := fun hmem =>
      hout id hmem (mem_append_right _ (.head _))
    refine ⟨nodup_cons.2 ⟨hid, hnd⟩, fun v hv => ?_⟩
    rcases mem_cons.1 hv with rfl | hv
    · exact h.1
    · exact fun hmem => hout v hv (mem_append_left _ hmem)

end Lists

-- ==== the invariant

/-- The display order is in step with the lists. -/
structure Ordered (s : CoreState α) : Prop where
  distinct : (ids s.localWorkspaces ++ ids s.mirrorWorkspaces).Nodup
  perm : s.workspaceDisplayOrder.Perm
    (ids s.localWorkspaces ++ ids s.mirrorWorkspaces)
  locals : s.workspaceDisplayOrder.filter (hasId s.localWorkspaces)
    = ids s.localWorkspaces

namespace Ordered

open CoreState

variable {s : CoreState α}

theorem newBase : Ordered (CoreState.newBase : CoreState α) :=
  ⟨nodup_nil, .refl _, rfl⟩

theorem view (h : Ordered s) :
    (∀ w ∈ s.workspaces.iter.collect,
      w ∈ s.localWorkspaces ++ s.mirrorWorkspaces)
      ∧ ids s.workspaces.iter.collect = s.workspaceDisplayOrder := by
  rw [WorkspaceIter.collect_iter]
  unfold WorkspaceIter.remaining WorkspaceRead.iter CoreState.workspaces
  by_cases hempty : s.mirrorWorkspaces.isEmpty = true
  · have hnone : s.mirrorWorkspaces = [] := List.isEmpty_iff.1 hempty
    have hlocal : ∀ id ∈ s.workspaceDisplayOrder,
        hasId s.localWorkspaces id = true := by
      intro id hid
      have hmem := h.perm.mem_iff.1 hid
      rw [hnone] at hmem
      exact hasId_iff.2 (by simpa [ids] using hmem)
    have horder : s.workspaceDisplayOrder = ids s.localWorkspaces :=
      (filter_eq_self.2 hlocal).symm.trans h.locals
    rw [if_pos hempty]
    simp [WorkspaceRead.all, hnone, horder]
  · rw [if_neg hempty]
    have hin : ∀ w ∈ s.localWorkspaces ++ s.mirrorWorkspaces,
        w.id ∈ s.workspaceDisplayOrder := by
      intro w hw
      rw [h.perm.mem_iff, ← ids_append]
      exact mem_map_of_mem hw
    have hrest : ((s.localWorkspaces ++ s.mirrorWorkspaces).filter fun w =>
        !s.workspaceDisplayOrder.contains w.id) = [] := by
      rw [filter_eq_nil_iff]
      intro w hw
      simpa using hin w hw
    have hall : (ids (s.localWorkspaces ++ s.mirrorWorkspaces)).Nodup := by
      rw [ids_append]
      exact h.distinct
    have hin : ∀ id ∈ s.workspaceDisplayOrder,
        id ∈ ids (s.localWorkspaces ++ s.mirrorWorkspaces) := by
      intro id hid
      rw [ids_append]
      exact h.perm.mem_iff.1 hid
    have hlookup := lookup_ids hall hin
    unfold WorkspaceRead.find WorkspaceRead.all
    dsimp only
    rw [drop_zero, drop_zero, hrest, append_nil]
    exact hlookup

theorem view_perm (h : Ordered s) : s.workspaces.iter.collect.Perm
    (s.localWorkspaces ++ s.mirrorWorkspaces) := by
  obtain ⟨hmem, hids⟩ := h.view
  have hall : (ids (s.localWorkspaces ++ s.mirrorWorkspaces)).Nodup := by
    rw [ids_append]
    exact h.distinct
  have hnodup : (ids s.workspaces.iter.collect).Nodup := by
    rw [hids]
    exact h.perm.nodup_iff.2 h.distinct
  refine (perm_ext_iff_of_nodup hnodup.of_map hall.of_map).2
    fun w => ⟨hmem w, fun hw => ?_⟩
  have hid : w.id ∈ ids s.workspaces.iter.collect := by
    rw [hids, h.perm.mem_iff, ← ids_append]
    exact mem_map_of_mem hw
  obtain ⟨v, hv, heq⟩ := mem_map.1 hid
  rw [← inj_on_of_nodup_map hall (hmem v hv) hw heq]
  exact hv

theorem view_locals (h : Ordered s) :
    (s.workspaces.iter.collect.filter fun w => hasId s.localWorkspaces w.id)
      = s.localWorkspaces := by
  obtain ⟨hmem, hids⟩ := h.view
  refine eq_of_ids (s.localWorkspaces ++ s.mirrorWorkspaces)
    (by rw [ids_append]; exact h.distinct)
    (fun w hw => hmem w (mem_of_mem_filter hw))
    (fun w hw => mem_append_left _ hw) ?_
  rw [← h.locals, ← hids]
  unfold ids
  rw [filter_map]
  rfl

theorem refresh_eq (h : Ordered s) : s.refresh = s := by
  unfold refresh
  rw [h.view.2]

theorem len_eq (s : CoreState α) : s.workspaces.len
    = s.localWorkspaces.length + s.mirrorWorkspaces.length := by
  unfold CoreState.workspaces WorkspaceRead.len
  by_cases hempty : s.mirrorWorkspaces.isEmpty = true
  · rw [if_pos hempty, List.isEmpty_iff.1 hempty]
  · rw [if_neg hempty]

-- ==== the mutators

variable {index : Nat}

variable {w : Workspace α}

theorem insertAt {k : Nat} (h : Ordered s)
    (hfresh : w.id ∉ ids s.localWorkspaces ++ ids s.mirrorWorkspaces)
    (hindex : index ≤ s.workspaceDisplayOrder.length)
    (hk : ((s.workspaceDisplayOrder.take index).filter
      (hasId s.localWorkspaces)).length = k) :
    Ordered { s with
      workspaceDisplayOrder := s.workspaceDisplayOrder.insertIdx index w.id
      localWorkspaces := s.localWorkspaces.insertIdx k w } := by
  have hout : ∀ id ∈ s.workspaceDisplayOrder, id ≠ w.id := by
    intro id hid heq
    rw [h.perm.mem_iff, heq] at hid
    exact hfresh hid
  have hids := ids_insertIdx s.localWorkspaces w k
  have hlength : k ≤ (ids s.localWorkspaces).length := by
    rw [← hk, ← h.locals]
    exact ((take_sublist _ _).filter _).length_le
  have hperm := perm_insertIdx w.id _ hlength
  have hin : ∀ id, hasId (s.localWorkspaces.insertIdx k w) id = true
      ↔ id = w.id ∨ hasId s.localWorkspaces id = true := by
    intro id
    rw [hasId_iff, hasId_iff, hids, hperm.mem_iff, mem_cons]
  refine ⟨?_, ?_, ?_⟩
  · dsimp only
    rw [hids, (hperm.append_right _).nodup_iff]
    exact nodup_cons.2 ⟨hfresh, h.distinct⟩
  · dsimp only
    rw [hids]
    exact (perm_insertIdx _ _ hindex).trans
      ((h.perm.cons _).trans (hperm.append_right _).symm)
  · dsimp only
    have hsame : ∀ l : List UInt32, (∀ id ∈ l, id ≠ w.id) →
        l.filter (hasId (s.localWorkspaces.insertIdx k w))
          = l.filter (hasId s.localWorkspaces) := by
      intro l hl
      refine filter_congr fun id hid => ?_
      rw [Bool.eq_iff_iff, hin, or_iff_right (hl id hid)]
    rw [filter_insertIdx ((hin w.id).2 (.inl rfl)) hindex, hsame _ hout,
      hsame _ fun id hid => hout id (mem_of_mem_take hid), h.locals, hk,
      hids]

variable {s' : CoreState α}

theorem insertLocal (h : Ordered s)
    (hfresh : w.id ∉ ids s.localWorkspaces ++ ids s.mirrorWorkspaces)
    (hs : s.insertLocalWorkspace index w = some s') : Ordered s' := by
  unfold insertLocalWorkspace at hs
  rw [h.refresh_eq] at hs
  dsimp only at hs
  split at hs
  · cases hs
  split at hs
  · cases hs
  rename_i hindex
  cases hs
  exact h.insertAt hfresh (by omega) rfl

theorem pushMirror (h : Ordered s)
    (hfresh : w.id ∉ ids s.localWorkspaces ++ ids s.mirrorWorkspaces)
    (hs : s.pushMirrorWorkspace w = some s') : Ordered s' := by
  unfold pushMirrorWorkspace at hs
  rw [h.refresh_eq] at hs
  dsimp only at hs
  split at hs
  · cases hs
  cases hs
  have hids : ids (s.mirrorWorkspaces ++ [w])
      = ids s.mirrorWorkspaces ++ [w.id] := ids_append _ _
  refine ⟨?_, ?_, ?_⟩
  · dsimp only
    rw [hids, ← append_assoc, nodup_append]
    refine ⟨h.distinct, nodup_singleton _, fun a ha b hb => ?_⟩
    cases mem_singleton.1 hb
    exact fun heq => hfresh (heq ▸ ha)
  · dsimp only
    rw [hids, ← append_assoc]
    exact h.perm.append_right _
  · dsimp only
    have hout : ¬ hasId s.localWorkspaces w.id = true := fun hin =>
      hfresh (mem_append_left _ (hasId_iff.1 hin))
    rw [filter_append, h.locals, filter_cons_of_neg hout]
    exact append_nil _

theorem replaceMirror (h : Ordered s)
    (hs : s.replaceMirrorWorkspace w = some s') : Ordered s' := by
  unfold replaceMirrorWorkspace at hs
  split at hs
  · cases hs
  cases hs
  have hids := ids_replaceFirst s.mirrorWorkspaces w
  exact ⟨by rw [hids]; exact h.distinct, by rw [hids]; exact h.perm,
    h.locals⟩

variable {id : UInt32}

theorem forget_filter {order : List UInt32}
    {p p' : UInt32 → Bool} (hp : ∀ v, v ≠ id → p' v = p v) :
    (forget order id).filter p' = (order.filter p).filter (· ≠ id) := by
  unfold forget
  rw [filter_filter, filter_filter]
  refine filter_congr fun v _ => ?_
  by_cases hv : v = id
  · simp [hv]
  · simp [hv, hp v hv]

theorem forget_perm (h : Ordered s) (id : UInt32) :
    (forget s.workspaceDisplayOrder id).Perm
      ((ids s.localWorkspaces).filter (· ≠ id)
        ++ (ids s.mirrorWorkspaces).filter (· ≠ id)) := by
  rw [← filter_append]
  exact h.perm.filter _

theorem filter_ne_eq {l : List UInt32} (h : id ∉ l) : l.filter (· ≠ id) = l :=
  filter_eq_self.2 fun v hv => by
    have hne : v ≠ id := fun heq => h (heq ▸ hv)
    simpa using hne

theorem removeLocal (h : Ordered s) (hin : id ∈ ids s.localWorkspaces) :
    Ordered { s with
      workspaceDisplayOrder := forget s.workspaceDisplayOrder id
      localWorkspaces := removeId s.localWorkspaces id } := by
  obtain ⟨hlocal, hmirror, hapart⟩ := nodup_append.1 h.distinct
  have hids := ids_removeId id hlocal
  have hmirrors := filter_ne_eq fun hm => hapart id hin id hm rfl
  have hperm := h.forget_perm id
  rw [hmirrors, ← hids] at hperm
  refine ⟨?_, hperm, ?_⟩
  · rw [← hperm.nodup_iff]
    exact (h.perm.nodup_iff.2 h.distinct).filter _
  · dsimp only
    rw [forget_filter (p := hasId s.localWorkspaces), h.locals, hids]
    intro v hv
    rw [Bool.eq_iff_iff, hasId_iff, hasId_iff, hids, mem_filter]
    simp [hv]

theorem removeMirror (h : Ordered s) (hin : id ∈ ids s.mirrorWorkspaces) :
    Ordered { s with
      workspaceDisplayOrder := forget s.workspaceDisplayOrder id
      mirrorWorkspaces := removeId s.mirrorWorkspaces id } := by
  obtain ⟨hlocal, hmirror, hapart⟩ := nodup_append.1 h.distinct
  have hids := ids_removeId id hmirror
  have hlocals := filter_ne_eq fun hl => hapart id hl id hin rfl
  have hperm := h.forget_perm id
  rw [hlocals, ← hids] at hperm
  refine ⟨?_, hperm, ?_⟩
  · rw [← hperm.nodup_iff]
    exact (h.perm.nodup_iff.2 h.distinct).filter _
  · dsimp only
    rw [forget_filter (p := hasId s.localWorkspaces) fun _ _ => rfl,
      h.locals, hlocals]

theorem removeAt (h : Ordered s) (hs : s.removeWorkspaceAt index = some s') : Ordered s' := by
  unfold removeWorkspaceAt at hs
  split at hs
  · cases hs
  rename_i w hw
  dsimp only at hs
  split at hs
  · rename_i hlocal
    cases hs
    exact h.removeLocal (hasId_iff.1 hlocal)
  · split at hs
    · rename_i hmirror
      cases hs
      exact h.removeMirror (hasId_iff.1 hmirror)
    · cases hs

theorem applyDisplayOrder (h : Ordered s) (order : List UInt32) :
    Ordered (s.applyWorkspaceDisplayOrder order).1 := by
  unfold applyWorkspaceDisplayOrder
  split
  · exact h
  rename_i hok
  simp only [Bool.or_eq_true, decide_eq_true_eq, Bool.not_eq_true', not_or,
    Bool.not_eq_false, Bool.and_eq_true, ne_eq, not_not, all_eq_true] at hok
  obtain ⟨⟨hlength, hrepeats, hall⟩, hlocals⟩ := hok
  obtain ⟨hnodup, -⟩ := nodup_of_noRepeats hrepeats
  have hin : order ⊆ ids s.localWorkspaces ++ ids s.mirrorWorkspaces := by
    intro id hid
    have hmem := hasId_iff.1 (hall id hid)
    rw [h.view.2] at hmem
    exact h.perm.mem_iff.1 hmem
  have hall : (ids s.localWorkspaces ++ ids s.mirrorWorkspaces).length
      = order.length := by
    rw [hlength, len_eq, length_append]
    unfold ids
    rw [length_map, length_map]
  exact ⟨h.distinct, (hnodup.subperm hin).perm_of_length_le
    (Nat.le_of_eq hall), hlocals⟩

/-- Each place of a mirror is kept, and the locals fill the rest. -/
theorem weave_filter {mirrors : List (Workspace α)}
    (order : List UInt32) {locals : List UInt32}
    (hlocals : ∀ id ∈ locals, hasId mirrors id = false) :
    (weave mirrors order locals).filter (hasId mirrors)
        = order.filter (hasId mirrors)
      ∧ (weave mirrors order locals).filter (fun id => !hasId mirrors id)
        = locals := by
  induction order generalizing locals with
  | nil =>
    unfold weave
    refine ⟨filter_eq_nil_iff.2 fun id hid => ?_,
      filter_eq_self.2 fun id hid => ?_⟩
    · rw [hlocals id hid]
      exact Bool.false_ne_true
    · rw [hlocals id hid]
      rfl
  | cons id order ih =>
    unfold weave
    by_cases hid : hasId mirrors id = true
    · obtain ⟨hm, hl⟩ := ih hlocals
      rw [if_pos hid, filter_cons_of_pos hid, filter_cons_of_pos hid, hm]
      refine ⟨rfl, ?_⟩
      rw [filter_cons_of_neg (by simp [hid])]
      exact hl
    · rw [if_neg hid, filter_cons_of_neg hid]
      cases locals with
      | nil => exact ih hlocals
      | cons l locals =>
        have hl := hlocals l (.head _)
        obtain ⟨hm, hrest⟩ := ih fun id h => hlocals id (.tail _ h)
        dsimp only
        rw [filter_cons_of_neg (by simp [hl]),
          filter_cons_of_pos (by simp [hl]), hrest]
        exact ⟨hm, rfl⟩

variable {ws : List (Workspace α)}

/-- New local workspaces take the places of the old ones. -/
theorem reconcile_ordered (h : Ordered s)
    (hws : (ids ws ++ ids s.mirrorWorkspaces).Nodup) :
    Ordered (reconcile { s with localWorkspaces := ws }) := by
  obtain ⟨-, -, hapart⟩ := nodup_append.1 h.distinct
  obtain ⟨-, hmirror, hapart'⟩ := nodup_append.1 hws
  have hout : ∀ id ∈ ids ws, hasId s.mirrorWorkspaces id = false := by
    intro id hid
    rw [Bool.eq_false_iff]
    exact fun hm => hapart' id hid id (hasId_iff.1 hm) rfl
  obtain ⟨hm, hl⟩ := weave_filter s.workspaceDisplayOrder hout
  have hmirrors : (s.workspaceDisplayOrder.filter
      (hasId s.mirrorWorkspaces)).Perm (ids s.mirrorWorkspaces) := by
    have hperm := h.perm.filter (hasId s.mirrorWorkspaces)
    rw [filter_append] at hperm
    have hnone : (ids s.localWorkspaces).filter (hasId s.mirrorWorkspaces)
        = [] := filter_eq_nil_iff.2 fun id hid hin =>
      hapart id hid id (hasId_iff.1 hin) rfl
    have hsome : (ids s.mirrorWorkspaces).filter (hasId s.mirrorWorkspaces)
        = ids s.mirrorWorkspaces :=
      filter_eq_self.2 fun id hid => hasId_iff.2 hid
    rw [hnone, hsome] at hperm
    exact hperm
  have hperm : (weave s.mirrorWorkspaces s.workspaceDisplayOrder
      (ids ws)).Perm (ids ws ++ ids s.mirrorWorkspaces) := by
    have hsplit := filter_append_perm (hasId s.mirrorWorkspaces)
      (weave s.mirrorWorkspaces s.workspaceDisplayOrder (ids ws))
    rw [hm, hl] at hsplit
    exact hsplit.symm.trans ((hmirrors.append_right _).trans perm_append_comm)
  have hwoven : Ordered { s with
      localWorkspaces := ws
      workspaceDisplayOrder := weave s.mirrorWorkspaces
        s.workspaceDisplayOrder (ids ws) } := by
    refine ⟨hws, hperm, ?_⟩
    refine Eq.trans (filter_congr fun id hid => ?_) hl
    rw [Bool.eq_iff_iff, hasId_iff, Bool.not_eq_true', Bool.eq_false_iff,
      Ne, hasId_iff]
    constructor
    · exact fun hid hmem => hapart' id hid id hmem rfl
    · intro hno
      exact (mem_append.1 (hperm.mem_iff.1 hid)).resolve_right hno
  unfold reconcile
  rw [hwoven.refresh_eq]
  exact hwoven

theorem reorderLocal (h : Ordered s) (order : List UInt32) :
    Ordered (s.reorderLocalWorkspaces order).1 := by
  unfold reorderLocalWorkspaces
  split
  · exact h
  · refine h.reconcile_ordered ?_
    have hperm := (mergeSort_perm s.localWorkspaces fun v w =>
      positionLe (order.idxOf? v.id) (order.idxOf? w.id)).map Workspace.id
    exact (hperm.append_right _).nodup_iff.2 h.distinct

theorem replaceLocal (h : Ordered s)
    (hws : (ids ws ++ ids s.mirrorWorkspaces).Nodup)
    (hs : s.replaceLocalWorkspaces ws = some s') : Ordered s' := by
  unfold replaceLocalWorkspaces at hs
  split at hs
  · cases hs
  · cases hs
    exact h.reconcile_ordered hws

end Ordered

-- ==== the runs

inductive Op (α : Type) where
  | pushLocal (w : Workspace α)
  | insertLocal (index : Nat) (w : Workspace α)
  | pushMirror (w : Workspace α)
  | removeAt (index : Nat)
  | replaceMirror (w : Workspace α)
  | removeMirror (id : UInt32)
  | applyDisplayOrder (order : List UInt32)
  | reorderLocal (order : List UInt32)
  | replaceLocal (ws : List (Workspace α))

namespace CoreState

/-- One call; `none` if it panics. -/
def step (s : CoreState α) : Op α → Option (CoreState α)
  | .pushLocal w => s.pushLocalWorkspace w
  | .insertLocal index w => s.insertLocalWorkspace index w
  | .pushMirror w => s.pushMirrorWorkspace w
  | .removeAt index => s.removeWorkspaceAt index
  | .replaceMirror w => s.replaceMirrorWorkspace w
  | .removeMirror id => some (s.removeMirrorWorkspace id)
  | .applyDisplayOrder order => some (s.applyWorkspaceDisplayOrder order).1
  | .reorderLocal order => some (s.reorderLocalWorkspaces order).1
  | .replaceLocal ws => s.replaceLocalWorkspaces ws

/-- The workspaces that a call brings in have ids of their own. -/
def Fresh (s : CoreState α) : Op α → Prop
  | .pushLocal w | .insertLocal _ w | .pushMirror w =>
    w.id ∉ ids s.localWorkspaces ++ ids s.mirrorWorkspaces
  | .replaceLocal ws => (ids ws ++ ids s.mirrorWorkspaces).Nodup
  | _ => True

/-- Reached from a new engine by calls that do not panic. -/
inductive Reachable : CoreState α → Prop
  | newBase : Reachable newBase
  | step {s s' : CoreState α} (op : Op α) : Reachable s → s.Fresh op →
      s.step op = some s' → Reachable s'

end CoreState

theorem Ordered.step {s s' : CoreState α} {op : Op α} (h : Ordered s)
    (hfresh : s.Fresh op) (hs : s.step op = some s') : Ordered s' := by
  cases op with
  | pushLocal w => exact h.insertLocal hfresh hs
  | insertLocal index w => exact h.insertLocal hfresh hs
  | pushMirror w => exact h.pushMirror hfresh hs
  | removeAt index => exact h.removeAt hs
  | replaceMirror w => exact h.replaceMirror hs
  | removeMirror id =>
    cases hs
    unfold CoreState.removeMirrorWorkspace
    split
    · rename_i hin
      exact h.removeMirror (hasId_iff.1 hin)
    · exact h
  | applyDisplayOrder order =>
    cases hs
    exact h.applyDisplayOrder order
  | reorderLocal order =>
    cases hs
    exact h.reorderLocal order
  | replaceLocal ws => exact h.replaceLocal hfresh hs

theorem CoreState.Reachable.ordered {s : CoreState α} (h : s.Reachable) :
    Ordered s := by
  induction h with
  | newBase => exact .newBase
  | step op _ hfresh hs ih => exact ih.step hfresh hs

/-- What the view is of the lists behind it. -/
structure Composite (s : CoreState α) : Prop where
  /-- every workspace once -/
  once : s.workspaces.iter.collect.Perm
    (s.localWorkspaces ++ s.mirrorWorkspaces)
  distinct : (ids s.workspaces.iter.collect).Nodup
  len : s.workspaces.len = s.workspaces.iter.collect.length
  /-- at every point of an iteration the hint is what is yet to come -/
  sizeHint : ∀ n, (s.workspaces.iter.after n).sizeHint
    = (s.workspaces.iter.collect.length - n,
      some (s.workspaces.iter.collect.length - n))
  get : ∀ index, s.workspaces.get index
    = s.workspaces.iter.collect[index]?
  locals : (s.workspaces.iter.collect.filter fun w =>
    hasId s.localWorkspaces w.id) = s.localWorkspaces

/-- However the lists came about, the view has every workspace once, with
the local ones in their own order. -/
theorem composite_workspaces {s : CoreState α} (h : s.Reachable) :
    Composite s := by
  have ho := h.ordered
  have hlen : s.workspaces.len = s.workspaces.iter.collect.length := by
    rw [Ordered.len_eq, ho.view_perm.length_eq, List.length_append]
  refine ⟨ho.view_perm, ?_, hlen, fun n => ?_, fun index => ?_,
    ho.view_locals⟩
  · rw [ho.view.2]
    exact ho.perm.nodup_iff.2 ho.distinct
  · rw [WorkspaceIter.collect_iter] at hlen ⊢
    refine WorkspaceIter.sizeHint_after n ?_
    exact (Nat.zero_add _).trans hlen.symm
  · rw [WorkspaceIter.collect_iter]
    exact WorkspaceIter.nth_eq _ index

/-- A mirror before a local workspace. -/
theorem composite_workspaces_mixed :
    Composite (⟨[⟨1, false, ()⟩], [⟨2, true, ()⟩], [2, 1]⟩ :
      CoreState Unit) :=
  composite_workspaces (.step (.applyDisplayOrder [2, 1])
    (.step (.pushMirror ⟨2, true, ()⟩)
      (.step (.pushLocal ⟨1, false, ()⟩) .newBase
        (show (1 : UInt32) ∉ [] by decide) rfl)
      (show (2 : UInt32) ∉ [1] by decide) rfl) trivial rfl)

end Tasty.Core.Live
