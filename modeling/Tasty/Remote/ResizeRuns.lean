/-
What a surface is owed from its latest size request on, over runs of calls:
a wait or a listed failure with exactly that size. It is kept as long as no
retry of the banner finds a size listed beside a waiting request for another
one, and the first retry that does breaks it.
-/
import Mathlib.Data.List.Induction
import Tasty.Remote.ResizeSync

namespace Tasty.Remote

open List

namespace ResizeSync

/-- The connection and what its calls so far tell about each surface. -/
structure World where
  sync : ResizeSync
  /-- The size of the latest request, until it is confirmed or its failure is
  dismissed. -/
  owed : UInt32 → Option GridSize
  /-- How often the latest request was sent again by itself. -/
  resends : UInt32 → Nat
  /-- The latest request was sent again, by itself or by the user. -/
  again : UInt32 → Bool

namespace World

/-- A connection with acknowledgements, before any call. -/
def connected : World where
  sync := forConnection true
  owed _ := none
  resends _ := 0
  again _ := false

/-- The surfaces a call sends requests for again. -/
def sentAgain (w : World) (op : SyncOp) (id : UInt32) : Nat :=
  ((w.sync.step op).2.filter fun r => r.surfaceId = id).length

def step (w : World) (op : SyncOp) : World :=
  let sync := (w.sync.step op).1
  match op with
  | .noteSent surfaceId size _ =>
    { sync
      owed := Function.update w.owed surfaceId (some size)
      resends := Function.update w.resends surfaceId 0
      again := Function.update w.again surfaceId false }
  | .takeDue _ _ =>
    { w with
      sync
      resends := fun id => w.resends id + w.sentAgain op id
      again := fun id => w.again id || decide (0 < w.sentAgain op id) }
  | .retryFailed _ =>
    { w with
      sync
      again := fun id => w.again id || decide (0 < w.sentAgain op id) }
  | .dismissFailed =>
    { w with
      sync
      owed := fun id =>
        if w.sync.pending[id]? = none ∧ w.sync.failed[id]?.isSome then none
        else w.owed id }
  | .onResize surfaceId size =>
    { w with
      sync
      owed := fun id =>
        if id = surfaceId ∧ w.owed id = some size then none else w.owed id }
  | .onRejected _ _ => { w with sync }

def run (w : World) (ops : List SyncOp) : World :=
  ops.foldl step w

/-- Surface `id` waits with `size`, or is listed with it and does not wait. -/
def WaitsOrFailed (s : ResizeSync) (id : UInt32) (size : GridSize) : Prop :=
  (∃ p : Pending, s.pending[id]? = some p ∧ p.target = size)
    ∨ s.pending[id]? = none ∧ s.failed[id]? = some size

/-- What a call keeps to, seen from before it. -/
structure Keeps (w : World) (op : SyncOp) : Prop where
  /-- What is owed is waited for or listed, with exactly its size. -/
  owed : ∀ id size, (w.step op).owed id = some size →
    WaitsOrFailed (w.step op).sync id size
  /-- A request is sent again by itself at most once. -/
  once : ∀ id, (w.step op).resends id ≤ 1
  /-- Only a request that was sent again fails, rejected or out of time. -/
  fails : ∀ id size, (w.step op).sync.failed[id]? = some size →
    (w.sync.failed[id]? ≠ some size
      ∨ w.sync.pending[id]? ≠ none ∧ (w.step op).sync.pending[id]? = none) →
    w.again id = true ∧ ∃ p : Pending, w.sync.pending[id]? = some p
      ∧ p.target = size ∧ p.attempt ≠ .first
      ∧ (op = .onRejected id size
        ∨ ∃ now sent, op = .takeDue now sent ∧ p.deadline ≤ now)
  /-- An answer for another size changes nothing. -/
  others : ∀ id size, op = .onResize id size ∨ op = .onRejected id size →
    w.owed id ≠ some size → (w.step op).sync = w.sync

/-- A retry finds no size listed beside a waiting request for another. -/
def Meets (w : World) : SyncOp → Prop
  | .retryFailed _ => ∀ (id : UInt32) (p : Pending) (size : GridSize),
      w.sync.pending[id]? = some p →
        w.sync.failed[id]? = some size → p.target = size
  | _ => True

-- ==== one surface's ledger

/-- What the connection holds of a surface agrees with what is owed to it. -/
structure Sound (v : Surface) (owed : Option GridSize) (resends : Nat)
    (again : Bool) : Prop where
  waits : ∀ p, v.pending = some p → owed = some p.target
  listed : v.pending = none → v.failed = owed
  fresh : ∀ p, v.pending = some p → p.attempt = .first → resends = 0
  later : ∀ p, v.pending = some p → p.attempt ≠ .first → again = true
  once : resends ≤ 1

variable {v : Surface} {owed : Option GridSize} {resends : Nat} {again : Bool}

variable {id : UInt32} {size : GridSize}

namespace Sound

theorem noteSent (size : GridSize) (now : Nat) :
    Sound (v.noteSent size now) (some size) 0 false where
  waits p hp := by
    cases hp
    rfl
  listed hp := by cases hp
  fresh _ _ _ := rfl
  later p hp hattempt := by
    cases hp
    exact absurd rfl hattempt
  once := Nat.zero_le 1

theorem takeDue (h : Sound v owed resends again) (id : UInt32)
    (now sent : Nat) :
    Sound (v.takeDue now sent) owed (resends + (v.again id now).length)
      (again || decide (0 < (v.again id now).length)) := by
  unfold Surface.takeDue Surface.again
  cases hp : v.pending with
  | none => simpa [hp] using h
  | some p =>
    by_cases hdue : p.deadline ≤ now
    · by_cases hfirst : p.attempt = .first
      · simp only [hdue, hfirst, not_true_eq_false, if_false, if_true, and_self,
          length_singleton, Nat.zero_lt_one, decide_true, Bool.or_true]
        have hzero := h.fresh p hp hfirst
        constructor
        · intro q hq
          cases hq
          exact h.waits p hp
        · intro hq
          cases hq
        · intro q hq hattempt
          cases hq
          cases hattempt
        · intro q hq _
          rfl
        · omega
      · simp only [hdue, hfirst, not_true_eq_false, if_false, and_false,
          length_nil, Nat.add_zero, Nat.lt_irrefl, decide_false, Bool.or_false]
        constructor
        · intro q hq
          cases hq
        · intro _
          exact (h.waits p hp).symm
        · intro q hq
          cases hq
        · intro q hq
          cases hq
        · exact h.once
    · simpa [hdue] using h

theorem retryFailed (h : Sound v owed resends again)
    (hmeets : ∀ p size, v.pending = some p → v.failed = some size →
      p.target = size) (now : Nat) (n : Nat) (hn : v.failed.isSome → 0 < n) :
    Sound (v.retryFailed now) owed resends (again || decide (0 < n)) := by
  unfold Surface.retryFailed
  cases hf : v.failed with
  | none =>
    exact
      { h with later := fun p hp ha => by rw [h.later p hp ha, Bool.true_or] }
  | some size =>
    have hsize : owed = some size := by
      cases hp : v.pending with
      | none => rw [← h.listed hp, hf]
      | some p => rw [h.waits p hp, hmeets p size hp hf]
    rw [hf] at hn
    constructor
    · intro q hq
      cases hq
      exact hsize
    · intro hq
      cases hq
    · intro q hq hattempt
      cases hq
      cases hattempt
    · intro q _ _
      rw [decide_eq_true (hn rfl), Bool.or_true]
    · exact h.once

theorem hidden_target (p : Pending) :
    (if p.attempt = .manual then { p with attempt := .autoRetry }
      else p).target = p.target := by
  split <;> rfl

theorem hidden_first (p : Pending) :
    (if p.attempt = .manual then { p with attempt := .autoRetry }
      else p).attempt = .first ↔ p.attempt = .first := by
  split
  · rename_i hmanual
    show Attempt.autoRetry = .first ↔ p.attempt = .first
    rw [hmanual]
    decide
  · rfl

variable (h : Sound v owed resends again)

include h

theorem dismissFailed :
    Sound v.dismissFailed
      (if v.pending = none ∧ v.failed.isSome then none else owed)
      resends again := by
  unfold Surface.dismissFailed
  cases hp : v.pending with
  | none =>
    have howed := h.listed hp
    constructor
    · intro q hq
      cases hq
    · intro _
      by_cases hf : v.failed.isSome
      · simp [hf]
      · rw [← howed]
        simp [Option.not_isSome_iff_eq_none.1 hf]
    · intro q hq
      cases hq
    · intro q hq
      cases hq
    · exact h.once
  | some p =>
    rw [if_neg (by simp)]
    constructor
    · intro q hq
      rw [← Option.some.inj hq, hidden_target]
      exact h.waits p hp
    · intro hq
      cases hq
    · intro q hq hattempt
      rw [← Option.some.inj hq, hidden_first] at hattempt
      exact h.fresh p hp hattempt
    · intro q hq hattempt
      rw [← Option.some.inj hq, ne_eq, hidden_first] at hattempt
      exact h.later p hp hattempt
    · exact h.once

theorem onResize (size : GridSize) :
    Sound (v.onResize size) (if owed = some size then none else owed)
      resends again := by
  have hnone : Sound ⟨none, none⟩ none resends again :=
    { waits := nofun, listed := fun _ => rfl, fresh := nofun, later := nofun
      once := h.once }
  unfold Surface.onResize
  cases hp : v.pending with
  | none =>
    have hlisted := h.listed hp
    by_cases howed : owed = some size
    · simpa [hlisted, howed] using hnone
    · simpa [hlisted, howed] using h
  | some p =>
    have howed := h.waits p hp
    by_cases ht : p.target = size
    · simpa [ht, howed] using hnone
    · simpa [ht, howed] using h

theorem onRejected (size : GridSize) :
    Sound (v.onRejected size) owed resends again := by
  unfold Surface.onRejected
  cases hp : v.pending with
  | none => exact h
  | some p =>
    have howed := h.waits p hp
    by_cases ht : p.target = size
    · by_cases hfirst : p.attempt = .first
      · dsimp only
        rw [if_neg (fun h => h ht), if_pos hfirst]
        constructor
        · intro q hq
          cases hq
          exact howed
        · intro hq
          cases hq
        · intro q _ _
          exact h.fresh p hp hfirst
        · intro q hq hattempt
          cases hq
          exact absurd hfirst hattempt
        · exact h.once
      · dsimp only
        rw [if_neg (fun h => h ht), if_neg hfirst]
        constructor
        · intro q hq
          cases hq
        · intro _
          exact howed.symm
        · intro q hq
          cases hq
        · intro q hq
          cases hq
        · exact h.once
    · simpa [ht] using h

/-- What a call newly lists, or lists and no longer waits for, waited as a
request that had been sent again. -/
theorem fails {op : SyncOp} {v' : Surface} (hv : v.step id op = v')
    (hfailed : v'.failed = some size)
    (hnew : v.failed ≠ some size ∨ v.pending ≠ none ∧ v'.pending = none) :
    again = true ∧ ∃ p, v.pending = some p ∧ p.target = size
      ∧ p.attempt ≠ .first
      ∧ (op = .onRejected id size
        ∨ ∃ now sent, op = .takeDue now sent ∧ p.deadline ≤ now) := by
  -- a call that leaves the surface alone makes nothing fail
  have hsame : v' ≠ v := by
    intro heq
    rw [heq] at hfailed hnew
    rcases hnew with hnew | ⟨hsome, hnone⟩
    · exact hnew hfailed
    · exact hsome hnone
  cases op with
  | noteSent surfaceId z now =>
    by_cases hs : surfaceId = id
    · rw [Surface.step, if_pos hs] at hv
      subst hv
      rcases hnew with hnew | ⟨-, hnone⟩
      · exact absurd hfailed hnew
      · cases hnone
    · rw [Surface.step, if_neg hs] at hv
      exact absurd hv.symm hsame
  | takeDue now sent =>
    rw [Surface.step, Surface.takeDue] at hv
    cases hp : v.pending with
    | none =>
      rw [hp] at hv
      exact absurd hv.symm hsame
    | some p =>
      rw [hp] at hv
      dsimp only at hv
      by_cases hdue : p.deadline ≤ now
      · rw [if_neg (fun h => h hdue)] at hv
        by_cases hfirst : p.attempt = .first
        · rw [if_pos hfirst] at hv
          subst hv
          rcases hnew with hnew | ⟨-, hnone⟩
          · exact absurd hfailed hnew
          · cases hnone
        · rw [if_neg hfirst] at hv
          subst hv
          exact ⟨h.later p hp hfirst, p, rfl, Option.some.inj hfailed,
            hfirst, .inr ⟨now, sent, rfl, hdue⟩⟩
      · rw [if_pos hdue] at hv
        exact absurd hv.symm hsame
  | retryFailed now =>
    rw [Surface.step, Surface.retryFailed] at hv
    cases hf : v.failed with
    | none =>
      rw [hf] at hv
      exact absurd hv.symm hsame
    | some z =>
      rw [hf] at hv
      subst hv
      cases hfailed
  | dismissFailed =>
    subst hv
    cases hfailed
  | onResize surfaceId z =>
    rw [Surface.step] at hv
    split at hv
    · unfold Surface.onResize at hv
      split at hv <;> split at hv
      · subst hv
        cases hfailed
      · exact absurd hv.symm hsame
      · subst hv
        cases hfailed
      · exact absurd hv.symm hsame
    · exact absurd hv.symm hsame
  | onRejected surfaceId z =>
    by_cases hs : surfaceId = id
    · rw [Surface.step, if_pos hs, Surface.onRejected] at hv
      cases hp : v.pending with
      | none =>
        rw [hp] at hv
        exact absurd hv.symm hsame
      | some p =>
        rw [hp] at hv
        dsimp only at hv
        by_cases ht : p.target = z
        · rw [if_neg (fun h => h ht)] at hv
          by_cases hfirst : p.attempt = .first
          · rw [if_pos hfirst] at hv
            subst hv
            rcases hnew with hnew | ⟨-, hnone⟩
            · exact absurd hfailed hnew
            · cases hnone
          · rw [if_neg hfirst] at hv
            subst hv
            have hsize := Option.some.inj hfailed
            refine ⟨h.later p hp hfirst, p, rfl, hsize, hfirst, .inl ?_⟩
            rw [hs, ← ht, hsize]
        · rw [if_pos ht] at hv
          exact absurd hv.symm hsame
    · rw [Surface.step, if_neg hs] at hv
      exact absurd hv.symm hsame

omit h

end Sound

-- ==== the runs

/-- What every connection whose retries meet the condition satisfies. -/
structure Inv (w : World) : Prop where
  acks : w.sync.acks = true
  sound : ∀ id, Sound (w.sync.surface id) (w.owed id) (w.resends id) (w.again id)

theorem inv_connected : Inv connected where
  acks := rfl
  sound id := by
    have hempty : connected.sync.surface id = ⟨none, none⟩ := by
      unfold connected forConnection surface
      rw [Std.ExtTreeMap.getElem?_empty, Std.ExtTreeMap.getElem?_empty]
    rw [hempty]
    exact
      { waits := nofun
        listed := fun _ => rfl
        fresh := nofun
        later := nofun
        once := Nat.zero_le 1 }

variable {op : SyncOp} {w : World}

theorem Inv.step (h : w.Inv) (hmeets : w.Meets op) : (w.step op).Inv := by
  obtain ⟨hacks, hsurface⟩ := surface_step h.acks op
  have hsync : (w.step op).sync = (w.sync.step op).1 := by
    cases op <;> rfl
  refine ⟨hsync ▸ hacks, fun id => ?_⟩
  rw [hsync, hsurface id]
  have hid := h.sound id
  cases op with
  | noteSent surfaceId size now =>
    by_cases hs : surfaceId = id
    · subst hs
      simpa [World.step, Surface.step] using Sound.noteSent size now
    · simpa [World.step, Surface.step, hs, Ne.symm hs] using hid
  | takeDue now sent =>
    have hagain : w.sentAgain (.takeDue now sent) id
        = ((w.sync.surface id).again id now).length := by
      rw [← resends_takeDue]
      rfl
    simpa [World.step, Surface.step, hagain]
      using hid.takeDue id now (sent id)
  | retryFailed now =>
    refine hid.retryFailed (hmeets id) now _ fun hsome => ?_
    show 0 < ((w.sync.retryFailed now).2.filter _).length
    rw [resends_retryFailed]
    obtain ⟨size, hsize⟩ := Option.isSome_iff_exists.1 hsome
    rw [hsize]
    exact Nat.zero_lt_one
  | dismissFailed => exact hid.dismissFailed
  | onResize surfaceId size =>
    by_cases hs : surfaceId = id
    · subst hs
      simpa [World.step, Surface.step] using hid.onResize size
    · simpa [World.step, Surface.step, hs, Ne.symm hs] using hid
  | onRejected surfaceId size =>
    by_cases hs : surfaceId = id
    · subst hs
      simpa [World.step, Surface.step] using hid.onRejected size
    · simpa [World.step, Surface.step, hs] using hid

theorem Inv.waitsOrFailed (h : w.Inv) (id : UInt32) (size : GridSize)
    (howed : w.owed id = some size) : WaitsOrFailed w.sync id size := by
  have hid := h.sound id
  cases hp : w.sync.pending[id]? with
  | none => exact .inr ⟨hp, (hid.listed hp).trans howed⟩
  | some p =>
    have htarget := (hid.waits p hp).symm.trans howed
    exact .inl ⟨p, hp, Option.some.inj htarget⟩

theorem Inv.once (h : w.Inv) (id : UInt32) : w.resends id ≤ 1 :=
  (h.sound id).once

theorem Inv.fails (h : w.Inv)
    (hfailed : (w.step op).sync.failed[id]? = some size)
    (hnew : w.sync.failed[id]? ≠ some size
      ∨ w.sync.pending[id]? ≠ none ∧ (w.step op).sync.pending[id]? = none) :
    w.again id = true ∧ ∃ p : Pending, w.sync.pending[id]? = some p
      ∧ p.target = size ∧ p.attempt ≠ .first
      ∧ (op = .onRejected id size
        ∨ ∃ now sent, op = .takeDue now sent ∧ p.deadline ≤ now) := by
  have hview := (surface_step h.acks op).2 id
  have hsync : (w.step op).sync = (w.sync.step op).1 := by
    cases op <;> rfl
  rw [hsync] at hfailed hnew
  exact (h.sound id).fails hview.symm hfailed hnew

theorem Inv.others (h : w.Inv)
    (hop : op = .onResize id size ∨ op = .onRejected id size)
    (howed : w.owed id ≠ some size) : (w.step op).sync = w.sync := by
  have hid := h.sound id
  rcases hop with rfl | rfl
  · show w.sync.onResize id size = w.sync
    unfold onResize
    cases hp : w.sync.pending[id]? with
    | none =>
      have hlisted : w.sync.failed[id]? ≠ some size := by
        rw [show w.sync.failed[id]? = w.owed id from hid.listed hp]
        exact howed
      simp [hlisted]
    | some p =>
      have htarget : p.target ≠ size := by
        rw [hid.waits p hp] at howed
        exact fun h => howed (congrArg some h)
      simp [htarget]
  · show w.sync.onRejected id size = w.sync
    unfold onRejected
    cases hp : w.sync.pending[id]? with
    | none => rfl
    | some p =>
      have htarget : p.target ≠ size := by
        rw [hid.waits p hp] at howed
        exact fun h => howed (congrArg some h)
      simp [htarget]

theorem Inv.keeps (h : w.Inv) (hmeets : w.Meets op) : w.Keeps op where
  owed := (h.step hmeets).waitsOrFailed
  once := (h.step hmeets).once
  fails _ _ := h.fails
  others _ _ := h.others

/-- A retry that finds another size listed than the one that waits leaves the
surface at the older one. -/
theorem Inv.meets_of_keeps (h : w.Inv) (hkeeps : w.Keeps op) : w.Meets op := by
  cases op with
  | retryFailed now =>
    intro id p size hp hfailed
    have howed : (w.step (.retryFailed now)).owed id = some p.target :=
      (h.sound id).waits p hp
    have hview := (surface_step h.acks (.retryFailed now)).2 id
    have hpending : (w.step (.retryFailed now)).sync.pending[id]?
        = some (waits now size .manual now) := by
      refine (congrArg Surface.pending hview).trans ?_
      show ((w.sync.surface id).retryFailed now).pending = _
      unfold Surface.retryFailed
      rw [show (w.sync.surface id).failed = some size from hfailed]
    rcases hkeeps.owed id p.target howed with ⟨q, hq, htarget⟩ | ⟨hnone, -⟩
    · rw [hpending] at hq
      rw [← htarget, ← Option.some.inj hq]
      rfl
    · rw [hpending] at hnone
      cases hnone
  | _ => trivial

theorem inv_run {ops : List SyncOp} :
    (∀ pre op post, ops = pre ++ op :: post → (connected.run pre).Meets op) →
    (connected.run ops).Inv := by
  induction ops using reverseRecOn with
  | nil => exact fun _ => inv_connected
  | append_singleton ops op ih =>
    intro hmeets
    have hrun : connected.run (ops ++ [op]) = (connected.run ops).step op := by
      unfold run
      rw [foldl_append]
      rfl
    rw [hrun]
    refine (ih fun pre op' post hpre => ?_).step (hmeets ops op [] rfl)
    refine hmeets pre op' (post ++ [op]) ?_
    rw [hpre, append_assoc, cons_append]

/-- Along every run, each call keeps to what is owed exactly when each retry
finds no size listed beside a waiting request for another one. -/
theorem requests_kept_exactly (ops : List SyncOp) :
    (∀ pre op post, ops = pre ++ op :: post → (connected.run pre).Keeps op)
      ↔ ∀ pre op post, ops = pre ++ op :: post →
        (connected.run pre).Meets op := by
  have hpre : ∀ {Q : List SyncOp → SyncOp → Prop} {pre : List SyncOp}
      {op : SyncOp} {post : List SyncOp}, ops = pre ++ op :: post →
      (∀ pre op post, ops = pre ++ op :: post → Q pre op) →
      ∀ pre' op' post', pre = pre' ++ op' :: post' → Q pre' op' := by
    intro Q pre op post hops hall pre' op' post' hpre
    refine hall pre' op' (post' ++ op :: post) ?_
    rw [hops, hpre, List.append_assoc, List.cons_append]
  constructor
  · intro hkeeps pre
    induction hn : pre.length using Nat.strongRecOn generalizing pre with
    | _ n ih =>
      intro op post hops
      have hinv : (connected.run pre).Inv := by
        refine inv_run fun pre' op' post' hpre => ?_
        refine ih pre'.length ?_ pre' rfl op' (post' ++ op :: post) ?_
        · rw [← hn, hpre, List.length_append, List.length_cons]
          omega
        · rw [hops, hpre, List.append_assoc, List.cons_append]
      exact hinv.meets_of_keeps (hkeeps pre op post hops)
  · intro hmeets pre op post hops
    have hinv : (connected.run pre).Inv := inv_run (hpre hops hmeets)
    exact hinv.keeps (hmeets pre op post hops)

/-- A size that failed stays listed when a new request is sent for its
surface. -/
def failedThenNew : List SyncOp :=
  [.noteSent 1 (80, 24) 0, .takeDue 5000000000 fun _ => 5000000000,
    .takeDue 10000000000 fun _ => 10000000000,
    .noteSent 1 (100, 30) 10000000000]

/-- The retry of the older failure takes the place of the newer request. -/
theorem retry_replaces_newer :
    ¬ (connected.run failedThenNew).Keeps (.retryFailed 10000000000) := by
  intro h
  have howed : ((connected.run failedThenNew).step
      (.retryFailed 10000000000)).owed 1 = some (100, 30) := by
    decide +kernel
  have hpending : ((connected.run failedThenNew).step
      (.retryFailed 10000000000)).sync.pending[(1 : UInt32)]?
      = some (waits 10000000000 (80, 24) .manual 10000000000) := by
    decide +kernel
  rcases h.owed 1 (100, 30) howed with ⟨p, hp, htarget⟩ | ⟨hnone, -⟩
  · rw [hpending] at hp
    rw [← Option.some.inj hp] at htarget
    revert htarget
    decide
  · rw [hpending] at hnone
    cases hnone

end World

end ResizeSync

end Tasty.Remote
