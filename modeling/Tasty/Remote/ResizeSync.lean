/-
The size requests for remote surfaces (`resize_sync.rs`): one request of a
surface waits for its answer; the first attempt is sent again once when its
time is over, and what fails after that is listed for the user to retry or
dismiss.

What the calls leave of a surface's request depends on that surface alone.
The machine of one surface says once what a call can do; the connection's
maps are held to it key by key.
-/
import Tasty.Lib.BTreeMap

namespace Tasty.Remote

open BTreeMap List

/-- A grid size, columns and rows. -/
abbrev GridSize := Nat × Nat

/-- In nanoseconds, as the instants. -/
def RESIZE_ACK_TIMEOUT : Nat := 5000000000

namespace ResizeSync

/-- Which attempt the request that waits is. -/
inductive Attempt where
  | first
  | autoRetry
  | manual
  deriving DecidableEq

structure Pending where
  started : Nat
  target : GridSize
  deadline : Nat
  attempt : Attempt
  /-- The first attempt was rejected; it still waits for its deadline. -/
  rejected : Bool
  deriving DecidableEq

/-- A request to be sent again. -/
structure Resend where
  started : Nat
  surfaceId : UInt32
  size : GridSize
  deriving DecidableEq

end ResizeSync

/-- The size requests of one connection, by remote surface. -/
structure ResizeSync where
  lastForwarded : BTreeMap UInt32 GridSize
  acks : Bool
  pending : BTreeMap UInt32 ResizeSync.Pending
  failed : BTreeMap UInt32 GridSize

namespace ResizeSync

def forConnection (acks : Bool) : ResizeSync where
  lastForwarded := ∅
  acks := acks
  pending := ∅
  failed := ∅

variable (s : ResizeSync)

def wait (surfaceId : UInt32) (target : GridSize) (attempt : Attempt)
    (now : Nat) : ResizeSync :=
  if !s.acks then s
  else
    let pending : Pending :=
      { started := now
        target
        deadline := now + RESIZE_ACK_TIMEOUT
        attempt
        rejected := false }
    { s with pending := s.pending.insert surfaceId pending }

def noteSent (surfaceId : UInt32) (size : GridSize) (now : Nat) : ResizeSync :=
  let s := { s with lastForwarded := s.lastForwarded.insert surfaceId size }
  s.wait surfaceId size .first now

def noteResent (resend : Resend) (now : Nat) : ResizeSync :=
  let s := { s with
    lastForwarded := s.lastForwarded.insert resend.surfaceId resend.size }
  let s := s.wait resend.surfaceId resend.size .autoRetry now
  match s.pending[resend.surfaceId]? with
  | some pending =>
    let pending := { pending with started := resend.started }
    { s with pending := s.pending.insert resend.surfaceId pending }
  | none => s

def onResize (surfaceId : UInt32) (size : GridSize) : ResizeSync :=
  let answered := match s.pending[surfaceId]? with
    | some p => decide (p.target = size)
    | none => decide (s.failed[surfaceId]? = some size)
  if answered then
    { s with
      pending := s.pending.erase surfaceId
      failed := s.failed.erase surfaceId }
  else s

def onRejected (surfaceId : UInt32) (size : GridSize) : ResizeSync :=
  match s.pending[surfaceId]? with
  | none => s
  | some p =>
    if p.target ≠ size then s
    else if p.attempt = .first then
      { s with
        pending := s.pending.insert surfaceId { p with rejected := true } }
    else
      { s with
        pending := s.pending.erase surfaceId
        failed := s.failed.insert surfaceId p.target }

/-- What becomes of one request whose time is over. The walk is in the order
of the surfaces, so that what is sent again is sorted as it stands. -/
def settleDue (state : ResizeSync × List Resend) (due : UInt32 × Pending) :
    ResizeSync × List Resend :=
  let (s, resend) := state
  let (surfaceId, p) := due
  let s := { s with pending := s.pending.erase surfaceId }
  if p.attempt = .first then
    ({ s with lastForwarded := s.lastForwarded.erase surfaceId },
      resend ++ [⟨p.started, surfaceId, p.target⟩])
  else ({ s with failed := s.failed.insert surfaceId p.target }, resend)

/-- The requests whose time is over, by surface. -/
def due (now : Nat) : List (UInt32 × Pending) :=
  s.pending.toList.filter fun e => e.2.deadline ≤ now

def takeDue (now : Nat) : ResizeSync × List Resend :=
  (s.due now).foldl settleDue (s, [])

/-- One request of the banner's retry. -/
def retry (now : Nat) (s : ResizeSync) (e : UInt32 × GridSize) : ResizeSync :=
  let s := { s with lastForwarded := s.lastForwarded.insert e.1 e.2 }
  s.wait e.1 e.2 .manual now

def retryFailed (now : Nat) : ResizeSync × List Resend :=
  let failed := s.failed.toList
  (failed.foldl (retry now) { s with failed := ∅ },
    failed.map fun e => ⟨now, e.1, e.2⟩)

def dismissFailed : ResizeSync :=
  { s with
    failed := ∅
    pending := s.pending.map fun _ p =>
      if p.attempt = .manual then { p with attempt := .autoRetry } else p }

end ResizeSync

-- ==== the calls

/-- A call on the state of a connection. Each request that `take_due` hands
out is sent and noted, at its own reading of the clock. -/
inductive SyncOp where
  | noteSent (surfaceId : UInt32) (size : GridSize) (now : Nat)
  | takeDue (now : Nat) (sent : UInt32 → Nat)
  | retryFailed (now : Nat)
  | dismissFailed
  | onResize (surfaceId : UInt32) (size : GridSize)
  | onRejected (surfaceId : UInt32) (size : GridSize)

/-- The state after a call, and the requests it sent again. -/
def ResizeSync.step (s : ResizeSync) : SyncOp → ResizeSync × List ResizeSync.Resend
  | .noteSent surfaceId size now => (s.noteSent surfaceId size now, [])
  | .takeDue now sent =>
    let (s, resend) := s.takeDue now
    (resend.foldl (fun s r => s.noteResent r (sent r.surfaceId)) s, resend)
  | .retryFailed now => s.retryFailed now
  | .dismissFailed => (s.dismissFailed, [])
  | .onResize surfaceId size => (s.onResize surfaceId size, [])
  | .onRejected surfaceId size => (s.onRejected surfaceId size, [])

namespace ResizeSync

/-- The request of one surface: what waits and what is listed. -/
structure Surface where
  pending : Option Pending
  failed : Option GridSize

/-- A request of `attempt` that was sent at `now`. -/
def waits (started : Nat) (target : GridSize) (attempt : Attempt)
    (now : Nat) : Pending where
  started := started
  target := target
  deadline := now + RESIZE_ACK_TIMEOUT
  attempt := attempt
  rejected := false

namespace Surface

def noteSent (s : Surface) (size : GridSize) (now : Nat) : Surface where
  pending := some (waits now size .first now)
  failed := s.failed

/-- A deadline passes; the first attempt is sent again at `sent`. -/
def takeDue (s : Surface) (now sent : Nat) : Surface :=
  match s.pending with
  | none => s
  | some p =>
    if ¬ p.deadline ≤ now then s
    else if p.attempt = .first then
      ⟨some (waits p.started p.target .autoRetry sent), s.failed⟩
    else ⟨none, some p.target⟩

/-- Whether a deadline sends the request again. -/
def Again (s : Surface) (now : Nat) : Prop :=
  ∃ p, s.pending = some p ∧ p.deadline ≤ now ∧ p.attempt = .first

def retryFailed (s : Surface) (now : Nat) : Surface :=
  match s.failed with
  | none => s
  | some size => ⟨some (waits now size .manual now), none⟩

def dismissFailed (s : Surface) : Surface where
  pending := s.pending.map fun p =>
    if p.attempt = .manual then { p with attempt := .autoRetry } else p
  failed := none

def onResize (s : Surface) (size : GridSize) : Surface :=
  match s.pending with
  | some p => if p.target = size then ⟨none, none⟩ else s
  | none => if s.failed = some size then ⟨none, none⟩ else s

def onRejected (s : Surface) (size : GridSize) : Surface :=
  match s.pending with
  | none => s
  | some p =>
    if p.target ≠ size then s
    else if p.attempt = .first then
      { s with pending := some { p with rejected := true } }
    else ⟨none, some p.target⟩

/-- What a call leaves of the request of surface `id`. -/
def step (s : Surface) (id : UInt32) : SyncOp → Surface
  | .noteSent surfaceId size now =>
    if surfaceId = id then s.noteSent size now else s
  | .takeDue now sent => s.takeDue now (sent id)
  | .retryFailed now => s.retryFailed now
  | .dismissFailed => s.dismissFailed
  | .onResize surfaceId size => if surfaceId = id then s.onResize size else s
  | .onRejected surfaceId size =>
    if surfaceId = id then s.onRejected size else s

end Surface

variable {s : ResizeSync}

/-- What the connection holds of surface `id`. -/
def surface (s : ResizeSync) (id : UInt32) : Surface where
  pending := s.pending[id]?
  failed := s.failed[id]?

-- ==== single requests

theorem wait_of_acks (h : s.acks = true) (surfaceId : UInt32)
    (target : GridSize) (attempt : Attempt) (now : Nat) :
    s.wait surfaceId target attempt now
      = { s with
          pending := s.pending.insert surfaceId
            (waits now target attempt now) } := by
  unfold wait
  rw [h]
  rfl

theorem noteResent_of_acks (h : s.acks = true) (r : Resend) (now : Nat) :
    s.noteResent r now
      = { s with
          lastForwarded := s.lastForwarded.insert r.surfaceId r.size
          pending := (s.pending.insert r.surfaceId
              (waits now r.size .autoRetry now)).insert r.surfaceId
            (waits r.started r.size .autoRetry now) } := by
  unfold noteResent
  dsimp only
  rw [wait_of_acks (by exact h)]
  dsimp only
  rw [get_insert, if_pos rfl]
  rfl

/-- What a resend leaves of its surface. -/
def noted (now : Nat) (v : Surface) (r : Resend) : Surface where
  pending := some (waits r.started r.size .autoRetry now)
  failed := v.failed

theorem surface_noteResent (h : s.acks = true) (r : Resend) (now : Nat)
    (id : UInt32) :
    (s.noteResent r now).surface id
      = if r.surfaceId = id then noted now (s.surface id) r
        else s.surface id := by
  rw [noteResent_of_acks h]
  unfold surface noted
  dsimp only
  rw [get_insert, get_insert]
  by_cases hid : r.surfaceId = id
  · rw [if_pos hid, if_pos hid]
  · rw [if_neg hid, if_neg hid, if_neg hid]

-- ==== take_due

/-- What is held of a surface, and what is to be sent again for it. -/
def dueView (id : UInt32) (state : ResizeSync × List Resend) :
    Surface × List Resend :=
  (state.1.surface id, state.2.filter fun r => r.surfaceId = id)

/-- `settleDue` at the surface itself. -/
def settled (v : Surface × List Resend) (due : UInt32 × Pending) :
    Surface × List Resend :=
  if due.2.attempt = .first then
    ({ v.1 with pending := none },
      v.2 ++ [⟨due.2.started, due.1, due.2.target⟩])
  else (⟨none, some due.2.target⟩, v.2)

theorem acks_settleDue (state : ResizeSync × List Resend)
    (due : UInt32 × Pending) : (settleDue state due).1.acks = state.1.acks := by
  unfold settleDue
  dsimp only
  split <;> rfl

theorem dueView_settleDue (id : UInt32) (state : ResizeSync × List Resend)
    (due : UInt32 × Pending) :
    dueView id (settleDue state due)
      = if due.1 = id then settled (dueView id state) due
        else dueView id state := by
  unfold settleDue dueView settled surface
  dsimp only
  by_cases hfirst : due.2.attempt = .first
  · rw [if_pos hfirst, if_pos hfirst]
    dsimp only
    rw [get_erase, filter_append]
    by_cases hid : due.1 = id
    · simp [hid]
    · simp [hid]
  · rw [if_neg hfirst, if_neg hfirst]
    dsimp only
    rw [get_erase, get_insert]
    by_cases hid : due.1 = id
    · simp [hid]
    · simp [hid]

variable (now : Nat)

theorem due_of_surface (id : UInt32) :
    ((s.due now).filter fun e => e.1 = id)
      = (((s.surface id).pending.filter fun p => p.deadline ≤ now).map
          fun p => (id, p)).toList := by
  unfold due surface
  rw [filter_filter]
  have hswap : (fun e : UInt32 × Pending =>
        decide (e.1 = id) && decide (e.2.deadline ≤ now))
      = fun e => decide (e.2.deadline ≤ now) && decide (e.1 = id) := by
    funext e
    exact Bool.and_comm _ _
  rw [hswap, ← filter_filter, toList_filter_key]
  dsimp only
  cases s.pending[id]? with
  | none => rfl
  | some p =>
    by_cases hp : p.deadline ≤ now
    · simp [Option.filter, hp]
    · simp only [Option.filter, hp, Option.map_some, Option.toList_some,
        filter_cons, decide_false, Bool.false_eq_true, if_false,
        filter_nil, Option.map_none, Option.toList_none]

/-- After the deadlines are settled: what is held of a surface, and the one
request, if any, that is to be sent again for it. -/
theorem dueView_takeDue (id : UInt32) :
    (s.takeDue now).1.acks = s.acks
      ∧ dueView id (s.takeDue now)
        = ((s.surface id).pending.filter fun p => p.deadline ≤ now).toList.foldl
            (fun v p => settled v (id, p)) (s.surface id, []) := by
  obtain ⟨hacks, hview⟩ := foldl_keyed
    (P := fun state => state.1.acks = s.acks) (g := dueView id)
    Prod.fst id settled
    (fun state e h => (acks_settleDue state e).trans h)
    (fun state e _ => dueView_settleDue id state e) (s.due now)
    (s := (s, [])) rfl
  refine ⟨hacks, hview.trans ?_⟩
  rw [due_of_surface]
  cases (s.surface id).pending.filter fun p => p.deadline ≤ now <;> rfl

/-- What is to be sent again for a surface. -/
def Surface.again (v : Surface) (id : UInt32) (now : Nat) : List Resend :=
  match v.pending with
  | none => []
  | some p =>
    if p.deadline ≤ now ∧ p.attempt = .first then
      [⟨p.started, id, p.target⟩]
    else []

theorem resends_takeDue (id : UInt32) :
    ((s.takeDue now).2.filter fun r => r.surfaceId = id)
      = (s.surface id).again id now := by
  have h := congrArg Prod.snd (dueView_takeDue (s := s) now id).2
  refine Eq.trans (show _ = (dueView id (s.takeDue now)).2 from rfl) (h.trans ?_)
  unfold Surface.again
  cases (s.surface id).pending with
  | none => rfl
  | some p =>
    by_cases hp : p.deadline ≤ now
    · by_cases hfirst : p.attempt = .first
      · simp [Option.filter, settled, hp, hfirst]
      · simp [Option.filter, settled, hp, hfirst]
    · simp [Option.filter, hp]

theorem step_takeDue (h : s.acks = true) (now : Nat) (sent : UInt32 → Nat) :
    (s.step (.takeDue now sent)).1.acks = true
      ∧ ∀ id, (s.step (.takeDue now sent)).1.surface id
        = (s.surface id).takeDue now (sent id) := by
  have hdue := fun id => dueView_takeDue (s := s) now id
  have hacks : (s.takeDue now).1.acks = true := (hdue 0).1.trans h
  have hnoted := fun id => foldl_keyed
    (f := fun s r => noteResent s r (sent r.surfaceId))
    (P := fun s => s.acks = true) (g := fun s => s.surface id)
    Resend.surfaceId id (noted (sent id))
    (fun s r h => by
      rw [noteResent_of_acks h]
      exact h)
    (fun s r h => by
      rw [surface_noteResent h]
      by_cases hid : r.surfaceId = id
      · rw [if_pos hid, if_pos hid, hid]
      · rw [if_neg hid, if_neg hid])
    (s.takeDue now).2 hacks
  refine ⟨(hnoted 0).1, fun id => (hnoted id).2.trans ?_⟩
  rw [resends_takeDue]
  have hview := congrArg Prod.fst (hdue id).2
  rw [show (s.takeDue now).1.surface id = (dueView id (s.takeDue now)).1 from rfl,
    hview]
  unfold Surface.again Surface.takeDue
  cases (s.surface id).pending with
  | none => rfl
  | some p =>
    by_cases hp : p.deadline ≤ now
    · by_cases hfirst : p.attempt = .first
      · simp [Option.filter, settled, noted, hp, hfirst]
      · simp [Option.filter, settled, hp, hfirst]
    · simp [Option.filter, hp]

-- ==== retry_failed

/-- `retry` at the surface itself. -/
def retried (now : Nat) (v : Surface) (e : UInt32 × GridSize) : Surface where
  pending := some (waits now e.2 .manual now)
  failed := v.failed

theorem retry_of_acks (h : s.acks = true) (now : Nat) (e : UInt32 × GridSize) :
    s.retry now e
      = { s with
          lastForwarded := s.lastForwarded.insert e.1 e.2
          pending := s.pending.insert e.1 (waits now e.2 .manual now) } := by
  unfold retry
  dsimp only
  rw [wait_of_acks (by exact h)]

theorem step_retryFailed (h : s.acks = true) (now : Nat) :
    (s.step (.retryFailed now)).1.acks = true
      ∧ ∀ id, (s.step (.retryFailed now)).1.surface id
        = (s.surface id).retryFailed now := by
  have hfold := fun id => foldl_keyed (f := retry now)
    (P := fun s => s.acks = true) (g := fun s => s.surface id)
    Prod.fst id (retried now)
    (fun s e h => by
      rw [retry_of_acks h]
      exact h)
    (fun s e h => by
      rw [retry_of_acks h]
      unfold surface retried
      dsimp only
      rw [get_insert]
      by_cases hid : e.1 = id
      · rw [if_pos hid, if_pos hid]
      · rw [if_neg hid, if_neg hid])
    s.failed.toList (s := { s with failed := ∅ }) h
  refine ⟨(hfold 0).1, fun id => (hfold id).2.trans ?_⟩
  rw [toList_filter_key]
  unfold surface Surface.retryFailed retried
  dsimp only
  cases s.failed[id]? with
  | none => simp
  | some size => simp

theorem resends_retryFailed (id : UInt32) :
    ((s.retryFailed now).2.filter fun r => r.surfaceId = id)
      = ((s.surface id).failed.map fun size => ⟨now, id, size⟩).toList := by
  unfold retryFailed
  dsimp only
  rw [filter_map]
  have hkey := toList_filter_key s.failed id
  rw [show ((fun r : Resend => decide (r.surfaceId = id)) ∘
      fun e : UInt32 × GridSize => (⟨now, e.1, e.2⟩ : Resend))
    = fun e => decide (e.1 = id) from rfl, hkey]
  unfold surface
  cases s.failed[id]? <;> rfl

-- ==== answers

theorem surface_onResize (surfaceId : UInt32) (size : GridSize) (id : UInt32) :
    (s.onResize surfaceId size).surface id
      = if surfaceId = id then (s.surface id).onResize size
        else s.surface id := by
  unfold onResize surface Surface.onResize
  dsimp only
  by_cases hid : surfaceId = id
  · subst hid
    rw [if_pos rfl]
    cases hp : s.pending[surfaceId]? with
    | none =>
      by_cases hf : s.failed[surfaceId]? = some size
      · simp [hf]
      · simp [hf, hp]
    | some p =>
      by_cases ht : p.target = size
      · simp [ht]
      · simp [ht, hp]
  · rw [if_neg hid]
    cases s.pending[surfaceId]? with
    | none =>
      by_cases hf : s.failed[surfaceId]? = some size
      · simp [hf, hid]
      · simp [hf]
    | some p =>
      by_cases ht : p.target = size
      · simp [ht, hid]
      · simp [ht]

theorem surface_onRejected (surfaceId : UInt32) (size : GridSize)
    (id : UInt32) :
    (s.onRejected surfaceId size).surface id
      = if surfaceId = id then (s.surface id).onRejected size
        else s.surface id := by
  unfold onRejected surface Surface.onRejected
  by_cases hid : surfaceId = id
  · subst hid
    rw [if_pos rfl]
    cases hp : s.pending[surfaceId]? with
    | none => simp [hp]
    | some p =>
      by_cases ht : p.target = size
      · by_cases hfirst : p.attempt = .first
        · simp [ht, hfirst]
        · simp [ht, hfirst]
      · simp [ht, hp]
  · rw [if_neg hid]
    cases s.pending[surfaceId]? with
    | none => rfl
    | some p =>
      by_cases ht : p.target = size
      · by_cases hfirst : p.attempt = .first
        · simp [ht, hfirst, hid]
        · simp [ht, hfirst, hid]
      · simp [ht]

-- ==== each call

/-- Every call leaves of a surface's request what the machine of one surface
says. -/
theorem surface_step (h : s.acks = true) (op : SyncOp) :
    (s.step op).1.acks = true
      ∧ ∀ id, (s.step op).1.surface id = (s.surface id).step id op := by
  cases op with
  | noteSent surfaceId size now =>
    show (s.noteSent surfaceId size now).acks = true
      ∧ ∀ id, (s.noteSent surfaceId size now).surface id = _
    unfold noteSent
    dsimp only
    rw [wait_of_acks (by exact h)]
    refine ⟨h, fun id => ?_⟩
    unfold surface
    dsimp only
    rw [get_insert]
    by_cases hid : surfaceId = id
    · simp [Surface.step, Surface.noteSent, hid]
    · simp [Surface.step, hid]
  | takeDue now sent => exact step_takeDue h now sent
  | retryFailed now => exact step_retryFailed h now
  | dismissFailed =>
    refine ⟨h, fun id => ?_⟩
    show (s.dismissFailed).surface id = _
    unfold dismissFailed surface
    simp [Surface.step, Surface.dismissFailed, Std.ExtTreeMap.getElem?_map]
  | onResize surfaceId size =>
    refine ⟨?_, fun id => ?_⟩
    · show (s.onResize surfaceId size).acks = true
      unfold onResize
      dsimp only
      split <;> split <;> exact h
    · show (s.onResize surfaceId size).surface id = _
      exact surface_onResize surfaceId size id
  | onRejected surfaceId size =>
    refine ⟨?_, fun id => ?_⟩
    · show (s.onRejected surfaceId size).acks = true
      unfold onRejected
      repeat' split
      all_goals exact h
    · show (s.onRejected surfaceId size).surface id = _
      exact surface_onRejected surfaceId size id

end ResizeSync

end Tasty.Remote
