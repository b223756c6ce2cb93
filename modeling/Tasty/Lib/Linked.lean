/-
Doubly linked ownership: parents list their children, children name
their parent.

Many stores keep a containment relation twice: each parent holds an
ordered list of child keys, and each child holds the key of its
parent. `Linked kids up orphans` says the two agree, except for a list
of orphans: children whose parent no longer lists them (or never did).
An operation that moves or deletes a child passes through a state with
one orphan; an operation that deletes a parent passes through a state
where every child is one. So each primitive edit of such a store is
one lemma here, and a compound operation is their composition, ending
again with no orphans.

Nothing in this file knows what the keys are. The state is a pair of
functions, edits are `Function.update`, and a concrete store supplies
its own lookups as `kids` and `up`.
-/
import Mathlib.Data.List.Perm.Basic
import Mathlib.Data.List.Nodup

namespace Tasty

open List Function

/-- Parent lists and parent references agree, except for the orphans. -/
structure Linked {α β : Type} (kids : α → Option (List β))
    (up : β → Option α) (orphans : List β) : Prop where
  /-- no parent lists a child twice -/
  nodup : ∀ {a l}, kids a = some l → l.Nodup
  /-- a listed child names the parent that lists it -/
  down : ∀ {a l b}, kids a = some l → b ∈ l → up b = some a
  /-- an orphan is listed nowhere -/
  free : ∀ {a l b}, kids a = some l → b ∈ l → b ∉ orphans
  /-- a child that is no orphan is listed by the parent it names -/
  listed : ∀ {a b}, up b = some a → b ∉ orphans →
    ∃ l, kids a = some l ∧ b ∈ l

namespace Linked

variable {α β : Type} {kids : α → Option (List β)} {up : β → Option α}
  {orphans : List β}

-- ==== reading off

theorem empty : Linked (fun _ : α => none) (fun _ : β => none) [] where
  nodup h := by cases h
  down h := by cases h
  free h := by cases h
  listed h := by cases h

variable {a : α} {l l' : List β} {b : β}

theorem parent_unique (h : Linked kids up orphans) {a' : α}
    (hl : kids a = some l) (hb : b ∈ l) (hl' : kids a' = some l')
    (hb' : b ∈ l') : a = a' := by
  have h₁ := h.down hl hb
  rw [h.down hl' hb'] at h₁
  exact (Option.some.inj h₁).symm

/-- A child that names no parent is listed nowhere. -/
theorem not_listed (h : Linked kids up orphans) (hb : up b = none)
    (hl : kids a = some l) : b ∉ l := by
  intro hmem
  rw [h.down hl hmem] at hb
  cases hb

-- ==== the edits

/-- A key that names no parent may be counted as an orphan. -/
theorem mint (h : Linked kids up orphans) (hb : up b = none) :
    Linked kids up (b :: orphans) where
  nodup := h.nodup
  down := h.down
  free hk hc := by
    rintro (_ | ⟨_, hmem⟩)
    · exact h.not_listed hb hk hc
    · exact h.free hk hc hmem
  listed hc ho := h.listed hc fun hmem => ho (mem_cons_of_mem _ hmem)

/-- A value after an edit is the new one, or another key's. -/
theorem update_cases {κ υ : Type} [DecidableEq κ] {f : κ → υ} {x y : κ}
    {v w : υ} (h : Function.update f y v x = w) :
    (x = y ∧ v = w) ∨ (x ≠ y ∧ f x = w) := by
  by_cases hx : x = y
  · subst hx
    exact .inl ⟨rfl, (update_self ..).symm.trans h⟩
  · exact .inr ⟨hx, (update_of_ne hx ..).symm.trans h⟩

theorem bury [DecidableEq β] (h : Linked kids up (b :: orphans)) :
    Linked kids (Function.update up b none) orphans := by
  have hne : ∀ {x k c}, kids x = some k → c ∈ k → c ≠ b :=
    fun hk hc e => h.free hk hc (e ▸ mem_cons_self)
  refine ⟨h.nodup, ?_, ?_, ?_⟩
  · intro x k c hk hc
    rw [update_of_ne (hne hk hc)]
    exact h.down hk hc
  · intro x k c hk hc hmem
    exact h.free hk hc (mem_cons_of_mem _ hmem)
  · intro x c hc ho
    obtain ⟨-, ⟨⟩⟩ | ⟨hcb, hc⟩ := update_cases hc
    exact h.listed hc (by simp [hcb, ho])

/-- An orphan that names no parent was never there. -/
theorem forget [DecidableEq β] (h : Linked kids up (b :: orphans))
    (hb : up b = none) : Linked kids up orphans := by
  have hbury := h.bury
  rwa [← hb, update_eq_self] at hbury

section Lists

variable [DecidableEq α]

/-- Reordering one parent's list changes nothing. -/
theorem reorder (h : Linked kids up orphans) (hl : kids a = some l)
    (hp : l'.Perm l) :
    Linked (Function.update kids a (some l')) up orphans := by
  have hget : ∀ {x k}, Function.update kids a (some l') x = some k →
      ∃ k', kids x = some k' ∧ k.Perm k' := by
    intro x k hk
    obtain ⟨rfl, ⟨⟩⟩ | ⟨hx, hk⟩ := update_cases hk
    · exact ⟨l, hl, hp⟩
    · exact ⟨k, hk, List.Perm.refl _⟩
  refine ⟨?_, ?_, ?_, ?_⟩
  · intro x k hk
    obtain ⟨k', hk', hperm⟩ := hget hk
    exact (hperm.nodup_iff).2 (h.nodup hk')
  · intro x k b hk hb
    obtain ⟨k', hk', hperm⟩ := hget hk
    exact h.down hk' (hperm.mem_iff.1 hb)
  · intro x k b hk hb
    obtain ⟨k', hk', hperm⟩ := hget hk
    exact h.free hk' (hperm.mem_iff.1 hb)
  · intro x b hb ho
    obtain ⟨k, hk, hbk⟩ := h.listed hb ho
    by_cases hx : x = a
    · subst hx
      rw [hl] at hk
      cases hk
      exact ⟨l', update_self .., hp.mem_iff.2 hbk⟩
    · exact ⟨k, by rw [update_of_ne hx, hk], hbk⟩

/-- A new parent with no children. -/
theorem addParent (h : Linked kids up orphans) (ha : kids a = none) :
    Linked (Function.update kids a (some [])) up orphans := by
  have hget : ∀ {x k}, Function.update kids a (some []) x = some k →
      k = [] ∨ kids x = some k := by
    intro x k hk
    obtain ⟨rfl, ⟨⟩⟩ | ⟨hx, hk⟩ := update_cases hk
    · exact Or.inl rfl
    · exact Or.inr hk
  refine ⟨?_, ?_, ?_, ?_⟩
  · intro x k hk
    rcases hget hk with rfl | hk
    · exact nodup_nil
    · exact h.nodup hk
  · intro x k b hk hb
    rcases hget hk with rfl | hk
    · cases hb
    · exact h.down hk hb
  · intro x k b hk hb
    rcases hget hk with rfl | hk
    · cases hb
    · exact h.free hk hb
  · intro x b hb ho
    obtain ⟨k, hk, hbk⟩ := h.listed hb ho
    refine ⟨k, ?_, hbk⟩
    rw [update_of_ne, hk]
    rintro rfl
    rw [ha] at hk
    cases hk

/-- A child leaves its parent's list and becomes an orphan. -/
theorem detach (h : Linked kids up orphans) (hl : kids a = some l)
    (hp : l.Perm (b :: l')) :
    Linked (Function.update kids a (some l')) up (b :: orphans) := by
  have hnd : (b :: l').Nodup := hp.nodup_iff.1 (h.nodup hl)
  have hbl : b ∈ l := hp.mem_iff.2 mem_cons_self
  have hsub : ∀ {x}, x ∈ l' → x ∈ l := fun hx =>
    hp.mem_iff.2 (mem_cons_of_mem _ hx)
  refine ⟨?_, ?_, ?_, ?_⟩
  · intro x k hk
    obtain ⟨rfl, ⟨⟩⟩ | ⟨hx, hk⟩ := update_cases hk
    · exact (nodup_cons.1 hnd).2
    · exact h.nodup hk
  · intro x k c hk hc
    obtain ⟨rfl, ⟨⟩⟩ | ⟨hx, hk⟩ := update_cases hk
    · exact h.down hl (hsub hc)
    · exact h.down hk hc
  · intro x k c hk hc
    obtain ⟨rfl, ⟨⟩⟩ | ⟨hx, hk⟩ := update_cases hk
    · rintro (_ | ⟨_, hmem⟩)
      · exact (nodup_cons.1 hnd).1 hc
      · exact h.free hl (hsub hc) hmem
    · rintro (_ | ⟨_, hmem⟩)
      · exact hx (h.parent_unique hk hc hl hbl)
      · exact h.free hk hc hmem
  · intro x c hc ho
    have hcb : c ≠ b := fun e => ho (e ▸ mem_cons_self)
    obtain ⟨k, hk, hck⟩ :=
      h.listed hc fun hmem => ho (mem_cons_of_mem _ hmem)
    by_cases hx : x = a
    · subst hx
      rw [hl] at hk
      cases hk
      refine ⟨l', update_self .., ?_⟩
      exact ((mem_cons.1 (hp.mem_iff.1 hck))).resolve_left hcb
    · exact ⟨k, by rw [update_of_ne hx, hk], hck⟩

/-- An orphan joins a parent's list and names that parent. -/
theorem adopt [DecidableEq β] (h : Linked kids up (b :: orphans))
    (hb : b ∉ orphans) (hl : kids a = some l) (hp : l'.Perm (b :: l)) :
    Linked (Function.update kids a (some l'))
      (Function.update up b (some a)) orphans := by
  have hne : ∀ {x k c}, kids x = some k → c ∈ k → c ≠ b :=
    fun hk hc e => h.free hk hc (e ▸ mem_cons_self)
  refine ⟨?_, ?_, ?_, ?_⟩
  · intro x k hk
    obtain ⟨rfl, ⟨⟩⟩ | ⟨hx, hk⟩ := update_cases hk
    · refine hp.nodup_iff.2 (nodup_cons.2 ⟨?_, h.nodup hl⟩)
      exact fun hmem => hne hl hmem rfl
    · exact h.nodup hk
  · intro x k c hk hc
    obtain ⟨rfl, ⟨⟩⟩ | ⟨hx, hk⟩ := update_cases hk
    · rcases mem_cons.1 (hp.mem_iff.1 hc) with rfl | hc
      · exact update_self ..
      · rw [update_of_ne (hne hl hc)]
        exact h.down hl hc
    · rw [update_of_ne (hne hk hc)]
      exact h.down hk hc
  · intro x k c hk hc hmem
    obtain ⟨rfl, ⟨⟩⟩ | ⟨hx, hk⟩ := update_cases hk
    · rcases mem_cons.1 (hp.mem_iff.1 hc) with rfl | hc
      · exact hb hmem
      · exact h.free hl hc (mem_cons_of_mem _ hmem)
    · exact h.free hk hc (mem_cons_of_mem _ hmem)
  · intro x c hc ho
    obtain ⟨rfl, ⟨⟩⟩ | ⟨hcb, hc⟩ := update_cases hc
    · exact ⟨l', update_self .., hp.mem_iff.2 mem_cons_self⟩
    · have ho' : c ∉ b :: orphans := by
        simp [hcb, ho]
      obtain ⟨k, hk, hck⟩ := h.listed hc ho'
      by_cases hx : x = a
      · subst hx
        rw [hl] at hk
        cases hk
        exact ⟨l', update_self .., hp.mem_iff.2 (mem_cons_of_mem _ hck)⟩
      · exact ⟨k, by rw [update_of_ne hx, hk], hck⟩

variable (h : Linked kids up orphans)

include h

theorem dropParent (hl : kids a = some l) :
    Linked (Function.update kids a none) up (l ++ orphans) := by
  have hget : ∀ {x k}, Function.update kids a none x = some k →
      x ≠ a ∧ kids x = some k := by
    intro x k hk
    obtain ⟨-, ⟨⟩⟩ | hk := update_cases hk
    exact hk
  refine ⟨?_, ?_, ?_, ?_⟩
  · intro x k hk
    exact h.nodup (hget hk).2
  · intro x k c hk hc
    exact h.down (hget hk).2 hc
  · intro x k c hk hc hmem
    obtain ⟨hx, hk⟩ := hget hk
    rcases mem_append.1 hmem with hmem | hmem
    · exact hx (h.parent_unique hk hc hl hmem)
    · exact h.free hk hc hmem
  · intro x c hc ho
    rw [mem_append, not_or] at ho
    obtain ⟨k, hk, hck⟩ := h.listed hc ho.2
    refine ⟨k, ?_, hck⟩
    rw [update_of_ne, hk]
    rintro rfl
    rw [hl] at hk
    cases hk
    exact ho.1 hck

-- ==== whole edits

/-- A new child enters a parent's list. -/
theorem insert [DecidableEq β]
    (hb : up b = none) (hnew : b ∉ orphans) (hl : kids a = some l)
    (hp : l'.Perm (b :: l)) :
    Linked (Function.update kids a (some l'))
      (Function.update up b (some a)) orphans :=
  (h.mint hb).adopt hnew hl hp

/-- A listed child is deleted. -/
theorem remove [DecidableEq β] (hl : kids a = some l) (hp : l.Perm (b :: l')) :
    Linked (Function.update kids a (some l'))
      (Function.update up b none) orphans :=
  (h.detach hl hp).bury

/-- A new parent with a new only child. -/
theorem addFamily [DecidableEq β]
    (ha : kids a = none) (hb : up b = none) (hnew : b ∉ orphans) :
    Linked (Function.update kids a (some [b]))
      (Function.update up b (some a)) orphans := by
  have hchild := (h.addParent ha).insert hb hnew
    (update_self ..) (List.Perm.refl [b])
  rwa [update_idem] at hchild

omit h

end Lists

end Linked

end Tasty
