/-
What one call does to the entries, key by key: a put that is answered
leaves its own row under its key and a delete leaves none, and neither
touches another key.
-/
import Tasty.Memory.SameWrites

namespace Tasty.Memory

open Option

namespace MemoryStore

variable {layer : ValueText} {env : Env} {s : MemoryStore}
  {owner key : String} {scope : Scope}

/-- The row of a key, whether it has expired or not. -/
def rowAt (s : MemoryStore) (scope : Scope) (key : String) : Option Row :=
  Table.find Row.place (scope.asToken, key) s.memory

/-- A write in its transaction that is answered has done its statements. -/
theorem writeStep_eq_ok {α : Type}
    {op : Except MemoryError (α × Effect × List Row × List Row)} {a : α}
    (h : (writeStep env s op).2 = .ok a) :
    ∃ effect memory secret, op = .ok (a, effect, memory, secret)
      ∧ (writeStep env s op).1.memory = memory := by
  unfold writeStep at h ⊢
  cases hfault : env.fault with
  | some e =>
    rw [hfault] at h
    cases h
  | none =>
    rw [hfault] at h
    cases op with
    | error e => cases h
    | ok r =>
      obtain ⟨a', effect, memory, secret⟩ := r
      cases h
      exact ⟨effect, memory, secret, rfl, rfl⟩

variable {e : MemoryError}

/-- A write that is refused leaves the store as it was. -/
theorem writeStep_error {α : Type}
    {op : Except MemoryError (α × Effect × List Row × List Row)}
    (h : (writeStep env s op).2 = .error e) : (writeStep env s op).1 = s := by
  unfold writeStep at h ⊢
  cases hfault : env.fault with
  | some e => rfl
  | none =>
    rw [hfault] at h
    cases op with
    | error e => rfl
    | ok r => cases h

-- ==== the puts

variable {value : MemoryValue}

theorem putChecks_eq_ok {config : MemoryConfig} {bytes : List UInt8}
    (h : putChecks layer config owner key value = .ok bytes) :
    validateOwner owner = .ok () ∧ value.toBytes layer = .ok bytes := by
  unfold putChecks at h
  obtain ⟨_, howner, h⟩ := bind_ok h
  have h := then_ok h
  obtain ⟨b, hb, h⟩ := bind_ok h
  have h := then_ok h
  cases h
  refine ⟨howner, ?_⟩
  unfold serializeValue at hb
  split at hb
  · cases hb
    assumption
  · cases hb

/-- The row that a put leaves under its key. -/
structure PutRow (layer : ValueText) (owner key : String) (scope : Scope)
    (value : MemoryValue) (opts : PutOpts) (before : Option Row) (r : Row) :
    Prop where
  place : r.place = (scope.asToken, key)
  bytes : value.toBytes layer = .ok r.value
  contentType : r.contentType = value.contentType
  expiresAt : r.expiresAt = opts.expiresAt
  owner : r.owner = owner ∨ ∃ old, before = some old ∧ r.owner = old.owner

theorem find_writeRow {κ : Type} [DecidableEq κ] {place : Row → κ}
    {new : Row} {now : Int} {rows : List Row}
    (hplace : ∀ version old, place (Row.overwrite new version old) = place old)
    (k : κ) :
    let row := Table.find place (place new) rows
    let existing := row.filter fun r => !r.isExpired now
    Table.find place k
        (writeRow place new existing (row.any (Row.isExpired now)) rows).2
      = if k = place new then
          some (match existing with
            | some r => Row.overwrite new (r.version + 1) r
            | none => new)
        else Table.find place k rows := by
  intro row existing
  cases hrow : Table.find place (place new) rows with
  | none =>
    have hexisting : existing = none := by
      show Option.filter _ row = none
      rw [show row = none from hrow]
      rfl
    rw [hexisting, show row = none from hrow]
    show Table.find place k (rows ++ [new]) = _
    rw [Table.find_append]
    by_cases hk : k = place new
    · rw [hk, hrow, if_pos rfl]
      rfl
    · rw [if_neg (Ne.symm hk), if_neg hk, or_none]
  | some r =>
    have hrow' : row = some r := hrow
    by_cases hexp : r.isExpired now = true
    · have hexisting : existing = none := by
        show Option.filter _ row = none
        rw [hrow', filter_some, hexp]
        rfl
      have hany : row.any (Row.isExpired now) = true := by
        rw [hrow']
        exact hexp
      rw [hexisting, hany]
      show Table.find place k
        (Table.delete (fun r => place r = place new) rows ++ [new]) = _
      rw [Table.find_append]
      by_cases hk : k = place new
      · rw [hk, if_pos rfl, if_pos rfl, Table.find_eq_none.2]
        · rfl
        · intro x hx
          exact of_decide_eq_false (Table.mem_delete.1 hx).2
      · rw [if_neg (Ne.symm hk), if_neg hk, or_none, Table.find_delete_of_ne]
        intro x hx
        exact decide_eq_false fun heq => hk (hx.symm.trans heq)
    · have hexisting : existing = some r := by
        show Option.filter _ row = some r
        rw [hrow', filter_some, Bool.eq_false_iff.2 hexp]
        rfl
      rw [hexisting]
      show Table.find place k (Table.update (fun old => place old = place new)
        (Row.overwrite new (r.version + 1)) rows) = _
      rw [Table.find_update k rows fun old _ => hplace _ old]
      by_cases hk : k = place new
      · rw [hk, hrow, if_pos rfl, map_some,
          if_pos (decide_eq_true (Table.find_key hrow))]
      · rw [if_neg hk]
        cases hfind : Table.find place k rows with
        | none => rfl
        | some x =>
          rw [map_some, if_neg]
          intro heq
          exact hk ((Table.find_key hfind).symm.trans (of_decide_eq_true heq))

theorem put_rowAt {opts : PutOpts} {version : Nat}
    (h : (s.put layer env owner scope key value opts).2 = .ok version) :
    validateOwner owner = .ok ()
      ∧ ∃ r, PutRow layer owner key scope value opts (s.rowAt scope key) r
        ∧ ∀ k, Table.find Row.place k
            (s.put layer env owner scope key value opts).1.memory
          = if k = (scope.asToken, key) then some r
            else Table.find Row.place k s.memory := by
  unfold put at h ⊢
  cases hchecks : putChecks layer s.config owner key value with
  | error e =>
    rw [hchecks] at h
    cases h
  | ok bytes =>
    rw [hchecks] at h
    obtain ⟨howner, hbytes⟩ := putChecks_eq_ok hchecks
    obtain ⟨effect, memory, secret, hop, hmemory⟩ := writeStep_eq_ok h
    dsimp only at hmemory ⊢
    rw [hmemory]
    obtain ⟨w, hw, heq⟩ := map_eq_ok.1 hop
    unfold putRegularRows at hw
    dsimp only at hw
    have hw := then_ok (then_ok (then_ok hw))
    cases hw
    cases heq
    refine ⟨howner, _, ?_, find_writeRow fun _ _ => rfl⟩
    unfold rowAt
    rw [show (newRow env owner scope key value opts bytes).place
      = (scope.asToken, key) from rfl]
    cases hfind : Table.find Row.place (scope.asToken, key) s.memory with
    | none => exact ⟨rfl, hbytes, rfl, rfl, .inl rfl⟩
    | some r =>
      rw [filter_some]
      by_cases hexp : r.isExpired env.now = true
      · rw [hexp]
        exact ⟨rfl, hbytes, rfl, rfl, .inl rfl⟩
      · rw [Bool.eq_false_iff.2 hexp]
        have hplace : r.place = (scope.asToken, key) :=
          Table.find_key hfind
        exact ⟨hplace, hbytes, rfl, rfl, .inr ⟨r, rfl, rfl⟩⟩

/-- A put that is refused leaves the store as it was. -/
theorem put_error {opts : PutOpts}
    (h : (s.put layer env owner scope key value opts).2 = .error e) :
    (s.put layer env owner scope key value opts).1 = s := by
  unfold put at h ⊢
  cases hchecks : putChecks layer s.config owner key value with
  | error e => rfl
  | ok bytes =>
    rw [hchecks] at h
    exact writeStep_error h

-- ==== the deletes

theorem delete_rowAt {cas : Option Nat}
    (h : (s.delete env owner scope key cas).2 = .ok ()) (k : String × String) :
    Table.find Row.place k (s.delete env owner scope key cas).1.memory
      = if k = (scope.asToken, key) then none
        else Table.find Row.place k s.memory := by
  unfold delete at h ⊢
  cases hchecks : deleteChecks owner key with
  | error e =>
    rw [hchecks] at h
    cases h
  | ok _ =>
    rw [hchecks] at h
    obtain ⟨effect, memory, secret, hop, hmemory⟩ := writeStep_eq_ok h
    dsimp only at hmemory ⊢
    rw [hmemory]
    obtain ⟨w, hw, heq⟩ := map_eq_ok.1 hop
    obtain ⟨hw, -⟩ := deleteRegularRows_eq_ok hw
    cases heq
    rw [hw]
    by_cases hk : k = (scope.asToken, key)
    · rw [if_pos hk, Table.find_eq_none]
      intro r hr
      rw [hk]
      exact of_decide_eq_false (Table.mem_delete.1 hr).2
    · rw [if_neg hk]
      exact Table.find_delete_of_ne fun r hr =>
        decide_eq_false fun heq => hk (hr.symm.trans heq)

theorem delete_error {cas : Option Nat}
    (h : (s.delete env owner scope key cas).2 = .error e) :
    (s.delete env owner scope key cas).1 = s := by
  unfold delete at h ⊢
  cases hchecks : deleteChecks owner key with
  | error e => rfl
  | ok _ =>
    rw [hchecks] at h
    exact writeStep_error h

/-- The database and the checks of the names are all that a delete of a row
of one's own can fail on. -/
theorem delete_own {r : Row} (hfault : env.fault = none)
    (howner : validateOwner owner = .ok ()) (hkey : validateKey key = .ok ())
    (hrow : s.rowAt scope key = some r) (hr : r.owner = owner) :
    (s.delete env owner scope key none).2 = .ok () := by
  have hchecks : deleteChecks owner key = .ok () := by
    unfold deleteChecks
    rw [howner, hkey]
    rfl
  have hown : checkOwner owner (some r) = .ok () := by
    unfold checkOwner ownerCanModify
    dsimp only
    rw [hr, beq_self_eq_true, Bool.or_true, if_pos rfl]
  unfold rowAt at hrow
  unfold delete
  rw [hchecks]
  dsimp only
  unfold writeStep deleteRegularRows
  rw [hfault, hrow]
  dsimp only
  rw [hown]
  rfl

-- ==== the reads

variable {entry : Option MemoryEntry}

variable (h : s.get layer env scope key = .ok entry)

include h

theorem get_eq_ok :
    validateKey key = .ok () ∧ env.fault = none
      ∧ getRow layer false Row.place (scope.asToken, key) env.now s.memory
        = .ok entry := by
  unfold get at h
  obtain ⟨_, hkey, h⟩ := bind_ok h
  unfold readStep at h
  cases hfault : env.fault with
  | some e =>
    rw [hfault] at h
    cases h
  | none =>
    rw [hfault] at h
    exact ⟨hkey, rfl, h⟩

theorem get_of_none (hrow : s.rowAt scope key = none) : entry = none := by
  obtain ⟨-, -, h⟩ := get_eq_ok h
  unfold rowAt at hrow
  unfold getRow at h
  rw [hrow] at h
  cases h
  rfl

theorem get_of_some {r : Row} (hrow : s.rowAt scope key = some r)
    (hlive : r.isExpired env.now = false) :
    ∃ e, entry = some e ∧ r.entry layer false = .ok e := by
  obtain ⟨-, -, h⟩ := get_eq_ok h
  unfold rowAt at hrow
  unfold getRow at h
  rw [hrow] at h
  dsimp only at h
  rw [hlive] at h
  obtain ⟨e, he, rfl⟩ := map_eq_ok.1 h
  exact ⟨e, rfl, he⟩

omit h

theorem mem_listRows {p : String} {rows : List Row} {r : Row} :
    r ∈ listRows (.ofPrefix p) rows ↔ r ∈ rows ∧ likePrefix p r.key = true := by
  unfold listRows ListOpts.ofPrefix
  dsimp only [bind_none, getD_none]
  rw [List.drop_zero, List.mem_insertionSort, List.mem_filter]
  simp

theorem list_eq_ok {p : String} {entries : List MemoryEntry}
    (h : s.list layer env scope (.ofPrefix p) = .ok entries) :
    (∀ e ∈ entries, ∃ r ∈ s.memory, r.isExpired env.now = false
        ∧ r.scope = scope.asToken ∧ likePrefix p r.key = true
        ∧ r.entry layer false = .ok e)
      ∧ ∀ r ∈ s.memory, r.isExpired env.now = false →
        r.scope = scope.asToken → likePrefix p r.key = true →
          ∃ e ∈ entries, r.entry layer false = .ok e := by
  unfold list readStep at h
  cases hfault : env.fault with
  | some e =>
    rw [hfault] at h
    cases h
  | none =>
    rw [hfault] at h
    have hrow (r : Row) : r ∈ listRows (.ofPrefix p)
        ((live env.now s.memory).filter fun r => r.scope = scope.asToken)
        ↔ r ∈ s.memory ∧ r.isExpired env.now = false
          ∧ r.scope = scope.asToken ∧ likePrefix p r.key = true := by
      rw [mem_listRows, List.mem_filter, mem_live, decide_eq_true_eq,
        and_assoc, and_assoc]
    constructor
    · intro e he
      obtain ⟨r, hr, hentry⟩ := mem_of_mapM_eq_ok h he
      obtain ⟨hr, hlive, hscope, hprefix⟩ := (hrow r).1 hr
      exact ⟨r, hr, hlive, hscope, hprefix, hentry⟩
    · intro r hr hlive hscope hprefix
      exact forall₂_left (mapM_eq_ok.1 h)
        ((hrow r).2 ⟨hr, hlive, hscope, hprefix⟩)

end MemoryStore

end Tasty.Memory
