/-
One call on two stores that differ in expired rows only. The checks of a
write are told by the live rows, so both stores answer alike and their live
rows stay the same; only a delete looks at an expired row.
-/
import Tasty.Lib.Except
import Tasty.Memory.LiveRows

namespace Tasty.Memory

open List

open Table (Unique)

variable {κ : Type} [DecidableEq κ] {place : Row → κ} {now : Int}
  {rows rows' : List Row}

variable {used : Int} {quota : Nat} {secret secret' memory memory' : List Row}
  {token : String}

-- ==== the states

/-- No two rows have one key, and the counter holds their bytes. -/
structure MemoryStore.Faithful (s : MemoryStore) : Prop where
  unique : Unique Row.place s.memory
  uniqueSecret : Unique Row.secretPlace s.memorySecret
  counted : s.regularUsedBytes = usedBytes s.memory

/-- Two stores with the same live rows. -/
structure LiveSame (now : Int) (s s' : MemoryStore) : Prop where
  config : s.config = s'.config
  memory : live now s.memory = live now s'.memory
  memorySecret : live now s.memorySecret = live now s'.memorySecret

namespace LiveSame

variable {s s' s'' : MemoryStore}

theorem refl (now : Int) (s : MemoryStore) : LiveSame now s s :=
  ⟨rfl, rfl, rfl⟩

theorem symm (h : LiveSame now s s') : LiveSame now s' s :=
  ⟨h.config.symm, h.memory.symm, h.memorySecret.symm⟩

theorem trans (h : LiveSame now s s') (h' : LiveSame now s' s'') :
    LiveSame now s s'' :=
  ⟨h.config.trans h'.config, h.memory.trans h'.memory,
    h.memorySecret.trans h'.memorySecret⟩

theorem later {t : Int} (h : LiveSame now s s') (hle : now ≤ t) :
    LiveSame t s s' where
  config := h.config
  memory := by rw [← live_live hle, h.memory, live_live hle]
  memorySecret := by
    rw [← live_live hle, h.memorySecret, live_live hle]

end LiveSame

/-- What a write would make of two stores: one error, or one answer and the
same live rows. -/
def SameWrite {α : Type} (now : Int) :
    Except MemoryError (α × Effect × List Row × List Row) →
    Except MemoryError (α × Effect × List Row × List Row) → Prop
  | .ok (a, _, memory, memorySecret), .ok (a', _, memory', memorySecret') =>
    a = a' ∧ live now memory = live now memory'
      ∧ live now memorySecret = live now memorySecret'
  | .error e, .error e' => e = e'
  | _, _ => False

namespace MemoryStore

variable {α : Type} {env : Env} {s s' : MemoryStore}
  {op op' : Except MemoryError (α × Effect × List Row × List Row)}

theorem writeStep_same (hsame : LiveSame env.now s s')
    (h : SameWrite env.now op op') :
    (writeStep env s op).2 = (writeStep env s' op').2
      ∧ LiveSame env.now (writeStep env s op).1 (writeStep env s' op').1 := by
  unfold writeStep
  cases env.fault with
  | some e => exact ⟨rfl, hsame⟩
  | none =>
    cases op with
    | error e =>
      cases op' with
      | error e' =>
        obtain rfl : e = e' := h
        exact ⟨rfl, hsame⟩
      | ok r => exact h.elim
    | ok r =>
      cases op' with
      | error e' => exact h.elim
      | ok r' =>
        obtain ⟨ha, hmemory, hsecret⟩ := h
        refine ⟨?_, hsame.config, hmemory, hsecret⟩
        show Except.ok r.1 = Except.ok r'.1
        rw [ha]

theorem writeStep_quiet (h : ∀ a effect memory memorySecret,
      op = .ok (a, effect, memory, memorySecret) →
        live env.now memory = live env.now s.memory
          ∧ live env.now memorySecret = live env.now s.memorySecret) :
    LiveSame env.now (writeStep env s op).1 s := by
  unfold writeStep
  cases env.fault with
  | some e => exact .refl _ _
  | none =>
    cases op with
    | error e => exact .refl _ _
    | ok r =>
      obtain ⟨hmemory, hsecret⟩ := h r.1 r.2.1 r.2.2.1 r.2.2.2 rfl
      exact ⟨rfl, hmemory, hsecret⟩

-- ==== the checks

theorem asU64_of_nonneg {x : Int} (h : 0 ≤ x) : asU64 x = x.toNat :=
  if_neg (Int.not_lt.2 h)

/-- The quota of the regular entries counts the live rows of other keys and
the new value. -/
theorem checkRegularQuota_eq {new : Row}
    (h : Unique Row.place rows) (hused : used = usedBytes rows) :
    checkRegularQuota used quota now new rows
      = (let total := usedBytes ((live now rows).filter fun r =>
          !decide (r.place = new.place)) + new.value.length
        if quota < total.toNat then
          .error (.quotaExceeded .regular total.toNat quota)
        else .ok ()) := by
  have hsplit := usedBytes_split (fun r => r.place = new.place) rows
  have hexpired := usedBytes_split (Row.isExpired now)
    (rows.filter fun r => !decide (r.place = new.place))
  rw [usedBytes_place h] at hsplit
  rw [filter_filter, filter_filter] at hexpired
  have hlive : (live now rows).filter (fun r => !decide (r.place = new.place))
      = rows.filter fun r =>
        !r.isExpired now && !decide (r.place = new.place) := by
    unfold live
    rw [filter_filter]
    exact filter_congr fun r _ => Bool.and_comm _ _
  have hothers := usedBytes_nonneg ((live now rows).filter fun r =>
    !decide (r.place = new.place))
  have hgone := usedBytes_nonneg (rows.filter fun r =>
    r.isExpired now && !decide (r.place = new.place))
  rw [hlive] at hothers ⊢
  have hprojected : used - sizeAt Row.place new.place rows
      + new.value.length
        = usedBytes (rows.filter fun r =>
            r.isExpired now && !decide (r.place = new.place))
          + (usedBytes (rows.filter fun r =>
              !r.isExpired now && !decide (r.place = new.place))
            + new.value.length) := by
    omega
  have hcancel (a b : Int) : a + b - a = b := by omega
  unfold checkRegularQuota
  dsimp only
  rw [show ((Table.find Row.place new.place rows).map fun r =>
    (r.value.length : Int)).getD 0 = sizeAt Row.place new.place rows from rfl,
    hprojected, hcancel]
  generalize usedBytes (rows.filter fun r =>
    !r.isExpired now && !decide (r.place = new.place)) = others at hothers ⊢
  generalize usedBytes (rows.filter fun r =>
    r.isExpired now && !decide (r.place = new.place)) = gone at hgone ⊢
  rw [asU64_of_nonneg (by omega), asU64_of_nonneg (by omega)]
  by_cases hover : quota < (others + new.value.length).toNat
  · rw [if_pos (by omega), if_pos hover, if_pos hover,
      Int.max_eq_left (by omega)]
  · rw [if_neg hover, if_neg hover]
    split <;> rfl

theorem existing_same (h : Unique place rows) (h' : Unique place rows')
    (hsame : live now rows = live now rows') (k : κ) :
    ((Table.find place k rows).filter fun r => !r.isExpired now)
      = (Table.find place k rows').filter fun r => !r.isExpired now := by
  rw [← find_live h, ← find_live h', hsame]

variable {k : κ}

/-- Rows of a key under which no live one is found. -/
theorem expired_of_none (h : Unique place rows)
    (hnone : ((Table.find place k rows).filter fun r => !r.isExpired now)
      = none) {r : Row} (hr : r ∈ rows) (hk : place r = k) :
    r.isExpired now = true := by
  have hfind : Table.find place k rows = some r := h.find_eq_some.2 ⟨hr, hk⟩
  rw [hfind, Option.filter_some] at hnone
  by_contra hlive
  rw [Bool.eq_false_iff.2 hlive] at hnone
  cases hnone

theorem live_of_some (h : Unique place rows) {r₀ : Row}
    (hsome : ((Table.find place k rows).filter fun r => !r.isExpired now)
      = some r₀) {r : Row} (hr : r ∈ rows) (hk : place r = k) :
    r.isExpired now = false := by
  have hfind : Table.find place k rows = some r := h.find_eq_some.2 ⟨hr, hk⟩
  rw [hfind, Option.filter_some] at hsome
  by_contra hexp
  rw [Bool.not_eq_false] at hexp
  rw [hexp] at hsome
  cases hsome

-- ==== the row written

variable {new : Row} {existing : Option Row}

theorem writeRow_same (new : Row) (h : Unique place rows) (h' : Unique place rows')
    (hsame : live now rows = live now rows')
    (hexisting : ((Table.find place (place new) rows).filter fun r =>
      !r.isExpired now) = existing) :
    let written := writeRow place new existing
      ((Table.find place (place new) rows).any (Row.isExpired now)) rows
    let written' := writeRow place new existing
      ((Table.find place (place new) rows').any (Row.isExpired now)) rows'
    written.1 = written'.1 ∧ live now written.2 = live now written'.2 := by
  have hexisting' := existing_same h h' hsame (place new)
  rw [hexisting] at hexisting'
  cases existing with
  | some r =>
    refine ⟨rfl, ?_⟩
    show live now (Table.update _ _ rows) = live now (Table.update _ _ rows')
    rw [live_update rows fun r hr hk =>
        live_of_some h hexisting hr (of_decide_eq_true hk),
      live_update rows' fun r hr hk =>
        live_of_some h' hexisting'.symm hr (of_decide_eq_true hk), hsame]
  | none =>
    have hgone (rows : List Row) (h : Unique place rows) (b : Bool)
        (hnone : ((Table.find place (place new) rows).filter fun r =>
          !r.isExpired now) = none) :
        live now (if b then
            Table.delete (fun r => place r = place new) rows else rows)
          = live now rows := by
      cases b with
      | false => rfl
      | true => exact live_delete_expired fun r hr hk =>
        expired_of_none h hnone hr (of_decide_eq_true hk)
    refine ⟨rfl, ?_⟩
    show live now (_ ++ [new]) = live now (_ ++ [new])
    rw [live_append, live_append, hgone rows h _ hexisting,
      hgone rows' h' _ hexisting'.symm, hsame]

/-- The row that a write leaves is the only one with its key, and its bytes
take the place of the ones before. -/
theorem writeRow_keeps (new : Row) (h : Unique place rows)
    (hplace : ∀ version old, place (Row.overwrite new version old) = place old)
    (hexisting : ((Table.find place (place new) rows).filter fun r =>
      !r.isExpired now) = existing) :
    let written := writeRow place new existing
      ((Table.find place (place new) rows).any (Row.isExpired now)) rows
    Unique place written.2
      ∧ usedBytes written.2
        = usedBytes rows - sizeAt place (place new) rows
          + new.value.length := by
  cases existing with
  | some r =>
    have hfind := (Option.filter_eq_some_iff.1 hexisting).1
    exact ⟨h.update fun old _ _ => hplace _ old,
      usedBytes_update h hfind fun _ => rfl⟩
  | none =>
    have hnew (rest : List Row) (hU : Unique place rest)
        (hfree : ∀ r ∈ rest, place r ≠ place new) :
        Unique place (rest ++ [new]) :=
      hU.append (Table.clashes_eq_false.2 hfree)
    have hbytes (rest : List Row) :
        usedBytes (rest ++ [new]) = usedBytes rest + new.value.length := by
      rw [usedBytes_append]
      exact congrArg _ (Int.add_zero _)
    cases hfind : Table.find place (place new) rows with
    | none =>
      refine ⟨hnew rows h (Table.find_eq_none.1 hfind), ?_⟩
      show usedBytes (rows ++ [new]) = _
      rw [hbytes, sizeAt, hfind]
      exact congrArg (· + (new.value.length : Int)) (Int.sub_zero _).symm
    | some r =>
      rw [hfind, Option.filter_some] at hexisting
      have hexp : r.isExpired now = true := by
        by_contra hlive
        rw [Bool.eq_false_iff.2 hlive] at hexisting
        cases hexisting
      have hany : (some r).any (Row.isExpired now) = true := hexp
      dsimp only [writeRow]
      rw [hany, if_pos rfl]
      refine ⟨hnew _ (h.sublist (Table.delete_sublist _ _)) ?_, ?_⟩
      · intro r' hr'
        exact of_decide_eq_false (Table.mem_delete.1 hr').2
      · rw [hbytes, usedBytes_delete h]

-- ==== the puts

variable {cas : Option Nat}

theorem putRegularRows_same {used' : Int}
    (h : Unique Row.place rows) (h' : Unique Row.place rows')
    (hused : used = usedBytes rows) (hused' : used' = usedBytes rows')
    (hsame : live now rows = live now rows')
    (hsecret : live now secret = live now secret') :
    SameWrite now
      ((putRegularRows used quota now cas new rows).map
        fun (version, effect, memory) => (version, effect, memory, secret))
      ((putRegularRows used' quota now cas new rows').map
        fun (version, effect, memory) =>
          (version, effect, memory, secret')) := by
  have hexisting := existing_same h h' hsame new.place
  have hquota : checkRegularQuota used quota now new rows
      = checkRegularQuota used' quota now new rows' := by
    rw [checkRegularQuota_eq h hused, checkRegularQuota_eq h' hused', hsame]
  obtain ⟨hversion, hlive⟩ := writeRow_same new h h' hsame rfl
  unfold putRegularRows
  dsimp only
  rw [hquota, ← hexisting]
  cases checkRegularQuota used' quota now new rows' with
  | error e => rfl
  | ok _ =>
    cases checkVersion ((Table.find Row.place new.place rows).filter
        fun r => !r.isExpired now) cas with
    | error e => rfl
    | ok _ =>
      cases checkOwner new.owner ((Table.find Row.place new.place
          rows).filter fun r => !r.isExpired now) with
      | error e => rfl
      | ok _ => exact ⟨hversion, hlive, hsecret⟩

theorem putSecretRows_same
    (h : Unique Row.secretPlace rows) (h' : Unique Row.secretPlace rows')
    (hsame : live now rows = live now rows')
    (hmemory : live now memory = live now memory') :
    SameWrite now
      ((putSecretRows quota now cas new rows).map
        fun (version, effect, rows) => (version, effect, memory, rows))
      ((putSecretRows quota now cas new rows').map
        fun (version, effect, rows) => (version, effect, memory', rows)) := by
  have hexisting := existing_same h h' hsame new.secretPlace
  obtain ⟨hversion, hlive⟩ :=
    writeRow_same new h h' hsame rfl
  unfold putSecretRows
  dsimp only
  rw [← hexisting, show checkSecretQuota quota now new _ rows
    = checkSecretQuota quota now new _ rows' by
      unfold checkSecretQuota; rw [hsame]]
  cases checkSecretQuota quota now new ((Table.find Row.secretPlace
      new.secretPlace rows).filter fun r => !r.isExpired now) rows' with
  | error e => rfl
  | ok _ =>
    cases checkVersion ((Table.find Row.secretPlace new.secretPlace
        rows).filter fun r => !r.isExpired now) cas with
    | error e => rfl
    | ok _ => exact ⟨hversion, hmemory, hlive⟩

theorem put_same (layer : ValueText) (owner key : String) (scope : Scope)
    (value : MemoryValue) (opts : PutOpts) (hs : s.Faithful)
    (hs' : s'.Faithful) (hsame : LiveSame env.now s s') :
    (s.put layer env owner scope key value opts).2
        = (s'.put layer env owner scope key value opts).2
      ∧ LiveSame env.now (s.put layer env owner scope key value opts).1
        (s'.put layer env owner scope key value opts).1 := by
  unfold put
  rw [hsame.config]
  cases putChecks layer s'.config owner key value with
  | error e => exact ⟨rfl, hsame⟩
  | ok bytes =>
    exact writeStep_same hsame (putRegularRows_same hs.unique hs'.unique
      hs.counted hs'.counted hsame.memory hsame.memorySecret)

theorem putSecret_same (layer : ValueText) (owner key : String)
    (scope : Scope) (value : MemoryValue) (opts : PutOpts) (hs : s.Faithful)
    (hs' : s'.Faithful) (hsame : LiveSame env.now s s') :
    (s.putSecret layer env owner scope key value opts).2
        = (s'.putSecret layer env owner scope key value opts).2
      ∧ LiveSame env.now (s.putSecret layer env owner scope key value opts).1
        (s'.putSecret layer env owner scope key value opts).1 := by
  unfold putSecret
  rw [hsame.config]
  cases putChecks layer s'.config owner key value with
  | error e => exact ⟨rfl, hsame⟩
  | ok bytes =>
    exact writeStep_same hsame (putSecretRows_same hs.uniqueSecret
      hs'.uniqueSecret hsame.memorySecret hsame.memory)

-- ==== the deletes

/-- There is a row with this key that has expired. -/
def overExpired (place : Row → κ) (k : κ) (now : Int) (rows : List Row) :
    Bool :=
  (Table.find place k rows).any (Row.isExpired now)

theorem filter_find {b : Bool} (h : overExpired place k now rows = b) :
    ((Table.find place k rows).filter fun r => !r.isExpired now)
      = if b then none else Table.find place k rows := by
  unfold overExpired at h
  cases hfind : Table.find place k rows with
  | none => cases b <;> rfl
  | some r =>
    rw [hfind] at h
    rw [Option.filter_some, show r.isExpired now = b from h]
    cases b <;> rfl

variable {r : Unit × Effect × List Row}

theorem deleteRegularRows_eq_ok {owner key : String}
        (h : deleteRegularRows used owner token key cas rows = .ok r) :
    r.2.2 = Table.delete (fun r => r.place = (token, key)) rows
      ∧ r.2.1.regularUsed
        = some (max (used - sizeAt Row.place (token, key) rows) 0) := by
  unfold deleteRegularRows at h
  unfold sizeAt
  cases hfind : Table.find Row.place (token, key) rows with
  | none =>
    rw [hfind] at h
    cases h
  | some old =>
    rw [hfind] at h
    have h := then_ok (then_ok h)
    cases h
    exact ⟨rfl, rfl⟩

theorem deleteSecretRows_eq_ok {owner key : String}
        (h : deleteSecretRows owner token key cas rows = .ok r) :
    r.2.2 = Table.delete (fun r => r.secretPlace = (owner, token, key)) rows
      ∧ r.2.1.regularUsed = none := by
  unfold deleteSecretRows at h
  cases hfind : Table.find Row.secretPlace (owner, token, key) rows with
  | none =>
    rw [hfind] at h
    cases h
  | some old =>
    rw [hfind] at h
    have h := then_ok h
    cases h
    exact ⟨rfl, rfl⟩

theorem deleteRegularRows_same {used' : Int} {owner key : String}
    (hfind : Table.find Row.place (token, key) rows
      = Table.find Row.place (token, key) rows')
    (hsame : live now rows = live now rows')
    (hsecret : live now secret = live now secret') :
    SameWrite now
      ((deleteRegularRows used owner token key cas rows).map
        fun (u, effect, memory) => (u, effect, memory, secret))
      ((deleteRegularRows used' owner token key cas rows').map
        fun (u, effect, memory) => (u, effect, memory, secret')) := by
  unfold deleteRegularRows
  rw [hfind]
  cases Table.find Row.place (token, key) rows' with
  | none => rfl
  | some r =>
    dsimp only
    cases checkVersion (some r) cas with
    | error e => rfl
    | ok _ =>
      cases checkOwner owner (some r) with
      | error e => rfl
      | ok _ =>
        refine ⟨rfl, ?_, hsecret⟩
        rw [live_delete, live_delete, hsame]

theorem deleteSecretRows_same {owner key : String}
    (hfind : Table.find Row.secretPlace (owner, token, key) rows
      = Table.find Row.secretPlace (owner, token, key) rows')
    (hsame : live now rows = live now rows')
    (hmemory : live now memory = live now memory') :
    SameWrite now
      ((deleteSecretRows owner token key cas rows).map
        fun (u, effect, rows) => (u, effect, memory, rows))
      ((deleteSecretRows owner token key cas rows').map
        fun (u, effect, rows) => (u, effect, memory', rows)) := by
  unfold deleteSecretRows
  rw [hfind]
  cases Table.find Row.secretPlace (owner, token, key) rows' with
  | none => rfl
  | some r =>
    dsimp only
    cases checkVersion (some r) cas with
    | error e => rfl
    | ok _ =>
      refine ⟨rfl, hmemory, ?_⟩
      rw [live_delete, live_delete, hsame]

section Deletes

variable {owner key : String} {scope : Scope} {cas : Option Nat}

theorem delete_quiet (hs : s.Faithful)
    (hnone : ((Table.find Row.place (scope.asToken, key) s.memory).filter
      fun r => !r.isExpired env.now) = none) :
    LiveSame env.now (s.delete env owner scope key cas).1 s := by
  unfold delete
  cases deleteChecks owner key with
  | error e => exact .refl _ _
  | ok _ =>
    refine writeStep_quiet fun a effect memory secret hop => ?_
    obtain ⟨r, hr, heq⟩ := map_eq_ok.1 hop
    obtain ⟨hmemory, -⟩ := deleteRegularRows_eq_ok hr
    cases heq
    refine ⟨?_, rfl⟩
    rw [hmemory]
    exact live_delete_expired fun r' hr' hk =>
      expired_of_none hs.unique hnone hr' (of_decide_eq_true hk)

theorem deleteSecret_quiet (hs : s.Faithful)
    (hnone : ((Table.find Row.secretPlace (owner, scope.asToken, key)
      s.memorySecret).filter fun r => !r.isExpired env.now) = none) :
    LiveSame env.now (s.deleteSecret env owner scope key cas).1 s := by
  unfold deleteSecret
  cases deleteChecks owner key with
  | error e => exact .refl _ _
  | ok _ =>
    refine writeStep_quiet fun a effect memory secret hop => ?_
    obtain ⟨r, hr, heq⟩ := map_eq_ok.1 hop
    obtain ⟨hsecret, -⟩ := deleteSecretRows_eq_ok hr
    cases heq
    refine ⟨rfl, ?_⟩
    rw [hsecret]
    exact live_delete_expired fun r' hr' hk =>
      expired_of_none hs.uniqueSecret hnone hr' (of_decide_eq_true hk)

theorem delete_same (owner : String) (cas : Option Nat) (hs : s.Faithful) (hs' : s'.Faithful)
    (hsame : LiveSame env.now s s')
    (h : overExpired Row.place (scope.asToken, key) env.now s.memory = false)
    (h' : overExpired Row.place (scope.asToken, key) env.now s'.memory
      = false) :
    (s.delete env owner scope key cas).2
        = (s'.delete env owner scope key cas).2
      ∧ LiveSame env.now (s.delete env owner scope key cas).1
        (s'.delete env owner scope key cas).1 := by
  have hfind := existing_same hs.unique hs'.unique hsame.memory
    (scope.asToken, key)
  rw [filter_find h, filter_find h'] at hfind
  unfold delete
  cases deleteChecks owner key with
  | error e => exact ⟨rfl, hsame⟩
  | ok _ =>
    exact writeStep_same hsame
      (deleteRegularRows_same hfind hsame.memory hsame.memorySecret)

theorem deleteSecret_same (cas : Option Nat) (hs : s.Faithful) (hs' : s'.Faithful)
    (hsame : LiveSame env.now s s')
    (h : overExpired Row.secretPlace (owner, scope.asToken, key) env.now
      s.memorySecret = false)
    (h' : overExpired Row.secretPlace (owner, scope.asToken, key) env.now
      s'.memorySecret = false) :
    (s.deleteSecret env owner scope key cas).2
        = (s'.deleteSecret env owner scope key cas).2
      ∧ LiveSame env.now (s.deleteSecret env owner scope key cas).1
        (s'.deleteSecret env owner scope key cas).1 := by
  have hfind := existing_same hs.uniqueSecret hs'.uniqueSecret
    hsame.memorySecret (owner, scope.asToken, key)
  rw [filter_find h, filter_find h'] at hfind
  unfold deleteSecret
  cases deleteChecks owner key with
  | error e => exact ⟨rfl, hsame⟩
  | ok _ =>
    exact writeStep_same hsame
      (deleteSecretRows_same hfind hsame.memorySecret hsame.memory)

end Deletes

-- ==== what a write does

/-- A write puts a row that the quota allows, or deletes rows. -/
inductive Wrote (now : Int) (s : MemoryStore) : MemoryStore → Prop where
  | refl : Wrote now s s
  | put {new : Row} {changes : List MemoryChange}
      (hquota : checkRegularQuota s.regularUsedBytes
        s.config.regularQuotaTotalBytes now new s.memory = .ok ()) :
      Wrote now s { s with
        memory := (writeRow Row.place new
          ((Table.find Row.place new.place s.memory).filter fun r =>
            !r.isExpired now)
          ((Table.find Row.place new.place s.memory).any (Row.isExpired now))
          s.memory).2
        regularUsedBytes := s.regularUsedBytes
          - sizeAt Row.place new.place s.memory + new.value.length
        pendingChanges := changes }
  | putSecret {new : Row} {changes : List MemoryChange} :
      Wrote now s { s with
        memorySecret := (writeRow Row.secretPlace new
          ((Table.find Row.secretPlace new.secretPlace
            s.memorySecret).filter fun r => !r.isExpired now)
          ((Table.find Row.secretPlace new.secretPlace s.memorySecret).any
            (Row.isExpired now)) s.memorySecret).2
        pendingChanges := changes }
  | deleted {memory memorySecret : List Row} {used : Int}
      {changes : List MemoryChange} (hmemory : memory.Sublist s.memory)
      (hsecret : memorySecret.Sublist s.memorySecret)
      (hused : s.Faithful → used = usedBytes memory) :
      Wrote now s { s with
        memory, memorySecret
        regularUsedBytes := used
        pendingChanges := changes }

theorem Wrote.faithful (h : Wrote now s s') (hs : s.Faithful) :
    s'.Faithful := by
  cases h with
  | refl => exact hs
  | put _ =>
    obtain ⟨hunique, hbytes⟩ := writeRow_keeps _ hs.unique
      (fun _ _ => rfl) rfl
    exact ⟨hunique, hs.uniqueSecret, by rw [hs.counted]; exact hbytes.symm⟩
  | putSecret =>
    exact ⟨hs.unique, (writeRow_keeps _ hs.uniqueSecret (fun _ _ => rfl)
      rfl).1, hs.counted⟩
  | deleted hmemory hsecret hused =>
    exact ⟨hs.unique.sublist hmemory, hs.uniqueSecret.sublist hsecret, hused hs⟩

theorem writeStep_wrote (h : ∀ a effect memory memorySecret,
      op = .ok (a, effect, memory, memorySecret) →
        Wrote env.now s { s with
          memory, memorySecret
          regularUsedBytes := effect.regularUsed.getD s.regularUsedBytes
          pendingChanges := s.pendingChanges ++ effect.changes }) :
    Wrote env.now s (writeStep env s op).1 := by
  unfold writeStep
  cases env.fault with
  | some e => exact .refl
  | none =>
    cases op with
    | error e => exact .refl
    | ok r => exact h r.1 r.2.1 r.2.2.1 r.2.2.2 rfl

section Writes

variable {layer : ValueText} {owner key : String} {scope : Scope}
  {value : MemoryValue} {opts : PutOpts} {cas : Option Nat}

theorem put_wrote :
    Wrote env.now s (s.put layer env owner scope key value opts).1 := by
  unfold put
  cases putChecks layer s.config owner key value with
  | error e => exact .refl
  | ok bytes =>
    refine writeStep_wrote fun v effect memory secret h => ?_
    obtain ⟨r, hr, heq⟩ := map_eq_ok.1 h
    unfold putRegularRows at hr
    obtain ⟨_, hquota, hr⟩ := bind_ok hr
    have hr := then_ok (then_ok hr)
    cases hr
    cases heq
    exact .put hquota

theorem putSecret_wrote :
    Wrote env.now s (s.putSecret layer env owner scope key value opts).1 := by
  unfold putSecret
  cases putChecks layer s.config owner key value with
  | error e => exact .refl
  | ok bytes =>
    refine writeStep_wrote fun v effect memory secret h => ?_
    obtain ⟨r, hr, heq⟩ := map_eq_ok.1 h
    unfold putSecretRows at hr
    have hr := then_ok (then_ok hr)
    cases hr
    cases heq
    exact .putSecret

theorem delete_wrote :
    Wrote env.now s (s.delete env owner scope key cas).1 := by
  unfold delete
  cases deleteChecks owner key with
  | error e => exact .refl
  | ok _ =>
    refine writeStep_wrote fun a effect memory secret hop => ?_
    obtain ⟨r, hr, heq⟩ := map_eq_ok.1 hop
    obtain ⟨hmemory, hused⟩ := deleteRegularRows_eq_ok hr
    cases heq
    refine .deleted ?_ (.refl _) fun hs => ?_
    · rw [hmemory]
      exact Table.delete_sublist _ _
    · have hbytes := usedBytes_delete hs.unique (scope.asToken, key)
      have hnonneg := usedBytes_nonneg (Table.delete
        (fun r => r.place = (scope.asToken, key)) s.memory)
      rw [hused, hmemory, Option.getD_some, hs.counted, ← hbytes,
        Int.max_eq_left hnonneg]

theorem deleteSecret_wrote :
    Wrote env.now s (s.deleteSecret env owner scope key cas).1 := by
  unfold deleteSecret
  cases deleteChecks owner key with
  | error e => exact .refl
  | ok _ =>
    refine writeStep_wrote fun a effect memory secret hop => ?_
    obtain ⟨r, hr, heq⟩ := map_eq_ok.1 hop
    obtain ⟨hsecret, hused⟩ := deleteSecretRows_eq_ok hr
    cases heq
    refine .deleted (.refl _) ?_ fun hs => ?_
    · rw [hsecret]
      exact Table.delete_sublist _ _
    · rw [hused]
      exact hs.counted

theorem purged_wrote (p : Row → Bool) (a : α) (changes : List MemoryChange) :
    Wrote env.now s (writeStep env s (.ok (a,
      { regularUsed := some (usedBytes (Table.delete p s.memory)), changes },
      Table.delete p s.memory, Table.delete p s.memorySecret))).1 := by
  refine writeStep_wrote fun a effect memory secret hop => ?_
  cases hop
  exact .deleted (Table.delete_sublist _ _) (Table.delete_sublist _ _)
    fun _ => rfl

theorem pruned_wrote (p : Row → Bool) :
    Wrote env.now s (s.pruned env (Table.delete p s.memory)).1 := by
  refine writeStep_wrote fun a effect memory secret hop => ?_
  cases hop
  have hsub := Table.delete_sublist p s.memory
  refine .deleted hsub (.refl _) fun hs => ?_
  dsimp only
  by_cases hgone : 0 < s.memory.length - (Table.delete p s.memory).length
  · rw [if_pos hgone, Option.getD_some]
  · rw [if_neg hgone, Option.getD_none, hs.counted,
      hsub.eq_of_length_le (by omega)]

end Writes

-- ==== maintenance

theorem purgeExpired_quiet : LiveSame env.now (s.purgeExpired env).1 s := by
  refine writeStep_quiet fun a effect memory secret hop => ?_
  cases hop
  exact ⟨live_delete_expired fun _ _ hp => hp,
    live_delete_expired fun _ _ hp => hp⟩

/-- Deleting the same rows of both stores; the counts of them that are
answered may differ. -/
theorem writeStep_live {a a' : α} {effect effect' : Effect}
    (hsame : LiveSame env.now s s')
    (hmemory : live env.now memory = live env.now memory')
    (hsecret : live env.now secret = live env.now secret') :
    LiveSame env.now
      (writeStep env s (.ok (a, effect, memory, secret))).1
      (writeStep env s' (.ok (a', effect', memory', secret'))).1 := by
  unfold writeStep
  cases env.fault with
  | some e => exact hsame
  | none => exact ⟨hsame.config, hmemory, hsecret⟩

/-- No row with this prefix is an expired one. -/
def PrefixLive (now : Int) (p : String) (rows : List Row) : Prop :=
  ∀ r ∈ rows, likePrefix p r.key = true → r.isExpired now = false

theorem filter_prefix_live {p : String} (h : PrefixLive now p rows) :
    (live now rows).filter (fun r => likePrefix p r.key)
      = rows.filter fun r => likePrefix p r.key := by
  unfold live
  rw [filter_filter]
  refine filter_congr fun r hr => ?_
  cases hp : likePrefix p r.key with
  | false => rfl
  | true =>
    rw [h r hr hp]
    rfl

theorem prunePrefixKeepRecent_same (hsame : LiveSame env.now s s')
    {p : String} (keepRecent : Nat) (h : PrefixLive env.now p s.memory)
    (h' : PrefixLive env.now p s'.memory) :
    LiveSame env.now (s.prunePrefixKeepRecent env p keepRecent).1
      (s'.prunePrefixKeepRecent env p keepRecent).1 := by
  refine writeStep_live hsame ?_ hsame.memorySecret
  rw [live_delete, live_delete, ← filter_prefix_live h,
    ← filter_prefix_live h', hsame.memory]

end MemoryStore

end Tasty.Memory
