/-
The queue between the thread that reads a remote connection and the
application that applies what arrived: `MirrorOutbox`, its three calls, and
what the application gets to see.

One lock covers the whole queue, so the calls are atomic; nothing that
holds the lock can panic, and the lock is never poisoned. The application
drains the queue, applies the events one by one, and hands the tail that it
could not apply yet back to the front, while the reader pushes on.
-/
import Mathlib.Algebra.BigOperators.Group.List.Basic
import Mathlib.Algebra.GroupWithZero.Nat
import Tasty.Lib.Lossy

namespace Tasty.Remote

open List

/-- `tasty_ipc::admission::QUEUED_BYTES_LIMIT`. -/
def QUEUED_BYTES_LIMIT : Nat := 64 * 1024 * 1024

/-- `usize::saturating_add`. -/
def saturatingAdd (a b : Nat) : Nat := min (a + b) (2 ^ 64 - 1)

/-- `MirrorEvent`: the loss marker, and all other variants as one. -/
inductive MirrorEvent (α : Type) where
  | arrived (content : α)
  | desynced (frames : Nat)
  deriving DecidableEq, Repr

/-- What a compiled program knows of its events: `size_of::<MirrorEvent>()`
and the heap bytes that each variant but the marker retains. -/
structure EventSizes (α : Type) where
  sizeOf : Nat
  heap : α → Nat
  small : sizeOf ≤ QUEUED_BYTES_LIMIT

variable {α : Type} (sizes : EventSizes α)

/-- `MirrorEvent::retained_bytes`. -/
def MirrorEvent.retainedBytes : MirrorEvent α → Nat
  | .arrived content => saturatingAdd sizes.sizeOf (sizes.heap content)
  | .desynced _ => saturatingAdd sizes.sizeOf 0

/-- `Pending`. -/
structure Pending (α : Type) where
  events : List (MirrorEvent α)
  bytes : Nat
  deriving DecidableEq, Repr

/-- `MirrorOutbox`: whether its epoch is active, and what is queued. -/
structure MirrorOutbox (α : Type) where
  active : Bool
  pending : Pending α
  deriving DecidableEq, Repr

namespace MirrorOutbox

/-- `MirrorOutbox::new`, under an active epoch. -/
def new : MirrorOutbox α := ⟨true, ⟨[], 0⟩⟩

/-- What an overflow leaves: one marker. -/
def collapsed (frames : Nat) : Pending α :=
  ⟨[.desynced frames], sizes.sizeOf⟩

/-- `MirrorOutbox::push`. -/
def push (outbox : MirrorOutbox α) (event : MirrorEvent α) :
    Bool × MirrorOutbox α :=
  if !outbox.active then (false, outbox)
  else
    let pending := outbox.pending
    let bytes := event.retainedBytes sizes
    if 1024 ≤ pending.events.length
        ∨ QUEUED_BYTES_LIMIT < saturatingAdd pending.bytes bytes then
      let frames := pending.events.length + 1
      (true, { outbox with pending := collapsed sizes frames })
    else
      (true, { outbox with
        pending := ⟨pending.events ++ [event], pending.bytes + bytes⟩ })

/-- The sum that `restore_front` takes over the events it is given. -/
def retainedSum (events : List (MirrorEvent α)) : Nat :=
  events.foldl (fun sum event => saturatingAdd sum
    (event.retainedBytes sizes)) 0

/-- `MirrorOutbox::restore_front`. -/
def restoreFront (outbox : MirrorOutbox α) (events : List (MirrorEvent α)) :
    MirrorOutbox α :=
  if !outbox.active then outbox
  else
    let pending := outbox.pending
    let bytes := retainedSum sizes events
    if 1024 < saturatingAdd events.length pending.events.length
        ∨ QUEUED_BYTES_LIMIT < saturatingAdd bytes pending.bytes then
      let frames := saturatingAdd events.length pending.events.length
      { outbox with pending := collapsed sizes frames }
    else
      { outbox with
        pending := ⟨events ++ pending.events, pending.bytes + bytes⟩ }

/-- `MirrorOutbox::drain`. -/
def drain (outbox : MirrorOutbox α) :
    List (MirrorEvent α) × MirrorOutbox α :=
  if !outbox.active then ([], { outbox with pending := ⟨[], 0⟩ })
  else (outbox.pending.events, { outbox with pending := ⟨[], 0⟩ })

end MirrorOutbox

/-- The queue in use: `pushed` is what arrived so far, `drained` what the
application took and did not hand back. -/
structure Mirror (α : Type) where
  outbox : MirrorOutbox α
  pushed : List (MirrorEvent α)
  drained : List (MirrorEvent α)

/-- A call on the queue. What is handed back is the end of what was taken:
the last `undelivered` events. -/
inductive Call (α : Type) where
  | push (event : MirrorEvent α)
  | drain
  | restoreFront (undelivered : Nat)

namespace Mirror

def new : Mirror α := ⟨.new, [], []⟩

/-- The end of what was taken, which was not delivered. -/
def tail (mirror : Mirror α) (undelivered : Nat) : List (MirrorEvent α) :=
  mirror.drained.drop (mirror.drained.length - undelivered)

/-- The start of what was taken, which stays delivered. -/
def delivered (mirror : Mirror α) (undelivered : Nat) :
    List (MirrorEvent α) :=
  mirror.drained.take (mirror.drained.length - undelivered)

def call (mirror : Mirror α) : Call α → Mirror α
  | .push event =>
    { mirror with
      outbox := (mirror.outbox.push sizes event).2
      pushed := mirror.pushed ++ [event] }
  | .drain =>
    { mirror with
      outbox := mirror.outbox.drain.2
      drained := mirror.drained ++ mirror.outbox.drain.1 }
  | .restoreFront undelivered =>
    { mirror with
      outbox := mirror.outbox.restoreFront sizes (mirror.tail undelivered)
      drained := mirror.delivered undelivered }

/-- The state after a sequence of calls. -/
def run (calls : List (Call α)) : Mirror α :=
  calls.foldl (call sizes) new

end Mirror

-- ==== bounds

/-- The loss markers. -/
def MirrorEvent.IsDesynced : MirrorEvent α → Prop
  | .arrived _ => False
  | .desynced _ => True

/-- The sizes of some events, added up without a limit. -/
def bytesOf (events : List (MirrorEvent α)) : Nat :=
  (events.map fun event => event.retainedBytes sizes).sum

/-- The limits of the queue, and its byte count. -/
structure Pending.Bounded (pending : Pending α) : Prop where
  count : pending.events.length ≤ 1024
  bytes : pending.bytes = bytesOf sizes pending.events
  limit : pending.bytes ≤ QUEUED_BYTES_LIMIT

theorem saturatingAdd_le {a b : Nat}
    (h : ¬ QUEUED_BYTES_LIMIT < saturatingAdd a b) :
    saturatingAdd a b = a + b ∧ a + b ≤ QUEUED_BYTES_LIMIT := by
  unfold saturatingAdd QUEUED_BYTES_LIMIT at *
  omega

theorem saturatingAdd_count {a b : Nat}
    (h : ¬ 1024 < saturatingAdd a b) : a + b ≤ 1024 := by
  unfold saturatingAdd at h
  omega

@[simp] theorem bytesOf_nil :
    bytesOf sizes ([] : List (MirrorEvent α)) = 0 := rfl

@[simp] theorem bytesOf_append (xs ys : List (MirrorEvent α)) :
    bytesOf sizes (xs ++ ys) = bytesOf sizes xs + bytesOf sizes ys := by
  simp [bytesOf]

@[simp] theorem bytesOf_singleton (event : MirrorEvent α) :
    bytesOf sizes [event] = event.retainedBytes sizes := by
  simp [bytesOf]

theorem retainedSum_eq (events : List (MirrorEvent α)) :
    MirrorOutbox.retainedSum sizes events
      = min (bytesOf sizes events) (2 ^ 64 - 1) := by
  have hfold : ∀ start, events.foldl (fun sum event => saturatingAdd sum
        (event.retainedBytes sizes)) (min start (2 ^ 64 - 1))
      = min (start + bytesOf sizes events) (2 ^ 64 - 1) := by
    induction events with
    | nil => intro start; simp
    | cons event events ih =>
      intro start
      have hadd : saturatingAdd (min start (2 ^ 64 - 1))
            (event.retainedBytes sizes)
          = min (start + event.retainedBytes sizes) (2 ^ 64 - 1) := by
        unfold saturatingAdd
        omega
      rw [foldl_cons, hadd, ih, ← singleton_append,
        bytesOf_append, bytesOf_singleton, Nat.add_assoc]
  simpa [MirrorOutbox.retainedSum] using hfold 0

theorem collapsed_bounded (frames : Nat) :
    (MirrorOutbox.collapsed sizes frames).Bounded sizes where
  count := by simp [MirrorOutbox.collapsed]
  bytes := by
    have := sizes.small
    unfold QUEUED_BYTES_LIMIT at this
    simp only [MirrorOutbox.collapsed, bytesOf_singleton,
      MirrorEvent.retainedBytes, saturatingAdd]
    omega
  limit := sizes.small

-- ==== the calls

variable {outbox : MirrorOutbox α}

/-- What `push` leaves queued: everything, or one marker for everything. -/
theorem push_spec (event : MirrorEvent α) (ha : outbox.active = true)
    (hb : outbox.pending.Bounded sizes) :
    (outbox.push sizes event).2.active = true
      ∧ (outbox.push sizes event).2.pending.Bounded sizes
      ∧ ((outbox.push sizes event).2.pending.events
          = outbox.pending.events ++ [event]
        ∨ ∃ frames, (outbox.push sizes event).2.pending.events
          = [.desynced frames]) := by
  unfold MirrorOutbox.push
  rw [ha]
  simp only [Bool.not_true, Bool.false_eq_true, if_false]
  split
  · exact ⟨rfl, collapsed_bounded sizes _, .inr ⟨_, rfl⟩⟩
  · next hfull =>
    rw [not_or] at hfull
    obtain ⟨-, hlimit⟩ := saturatingAdd_le hfull.2
    refine ⟨rfl, ⟨?_, ?_, hlimit⟩, .inl rfl⟩
    · have := hfull.1
      simp only [length_append, length_singleton]
      omega
    · simp only [bytesOf_append, bytesOf_singleton, hb.bytes]

/-- What `restore_front` leaves queued: what is handed back before what
arrived since, or one marker for both. -/
theorem restoreFront_spec (events : List (MirrorEvent α))
    (ha : outbox.active = true) (hb : outbox.pending.Bounded sizes) :
    (outbox.restoreFront sizes events).active = true
      ∧ (outbox.restoreFront sizes events).pending.Bounded sizes
      ∧ ((outbox.restoreFront sizes events).pending.events
          = events ++ outbox.pending.events
        ∨ events ++ outbox.pending.events ≠ []
          ∧ ∃ frames, (outbox.restoreFront sizes events).pending.events
            = [.desynced frames]) := by
  unfold MirrorOutbox.restoreFront
  rw [ha]
  simp only [Bool.not_true, Bool.false_eq_true, if_false]
  split
  · next hfull =>
    refine ⟨rfl, collapsed_bounded sizes _, .inr ⟨?_, _, rfl⟩⟩
    -- nothing to keep is within every limit
    intro hnil
    obtain ⟨rfl, hq⟩ := append_eq_nil_iff.mp hnil
    rw [hb.bytes, hq] at hfull
    simp [saturatingAdd, MirrorOutbox.retainedSum] at hfull
  · next hfull =>
    rw [not_or] at hfull
    have hcount := saturatingAdd_count hfull.1
    obtain ⟨hexact, hlimit⟩ := saturatingAdd_le hfull.2
    have hsum := retainedSum_eq sizes events
    refine ⟨rfl, ⟨?_, ?_, ?_⟩, .inl rfl⟩
    · rw [length_append]
      exact hcount
    · have hsmall : MirrorOutbox.retainedSum sizes events
          = bytesOf sizes events := by
        unfold QUEUED_BYTES_LIMIT at hlimit
        omega
      rw [bytesOf_append, ← hb.bytes, hsmall, Nat.add_comm]
    · rw [Nat.add_comm]
      exact hlimit

theorem drain_spec (ha : outbox.active = true) :
    outbox.drain = (outbox.pending.events, ⟨true, ⟨[], 0⟩⟩) := by
  unfold MirrorOutbox.drain
  rw [ha]
  simp

-- ==== the run

/-- The state of the queue between two calls: what was taken and what is
queued account for everything that arrived. -/
structure Mirror.Sound (mirror : Mirror α) : Prop where
  active : mirror.outbox.active = true
  bounded : mirror.outbox.pending.Bounded sizes
  account : Accounts MirrorEvent.IsDesynced mirror.pushed
    (mirror.drained ++ mirror.outbox.pending.events)

theorem Mirror.sound_new : (Mirror.new : Mirror α).Sound sizes where
  active := rfl
  bounded := ⟨Nat.zero_le _, rfl, Nat.zero_le _⟩
  account := .nil

@[simp] theorem Mirror.delivered_append_tail (mirror : Mirror α)
    (undelivered : Nat) : mirror.delivered undelivered
      ++ mirror.tail undelivered = mirror.drained :=
  take_append_drop _ _

theorem Mirror.Sound.call {mirror : Mirror α} (h : mirror.Sound sizes)
    (c : Call α) : (mirror.call sizes c).Sound sizes := by
  cases c with
  | push event =>
    obtain ⟨ha, hb, hq⟩ := push_spec sizes event h.active h.bounded
    refine ⟨ha, hb, ?_⟩
    have hacc := h.account.snoc event
    rw [append_assoc] at hacc
    show Accounts _ (mirror.pushed ++ [event]) (mirror.drained
      ++ (mirror.outbox.push sizes event).2.pending.events)
    obtain hq | ⟨frames, hq⟩ := hq
    · rw [hq]
      exact hacc
    · rw [hq]
      exact hacc.merge (by simp) trivial
  | drain =>
    have hacc := h.account
    refine ⟨?_, ?_, ?_⟩
    · simp [Mirror.call, drain_spec h.active]
    · simp only [Mirror.call, drain_spec h.active]
      exact (sound_new sizes).bounded
    · simpa [Mirror.call, drain_spec h.active] using hacc
  | restoreFront undelivered =>
    obtain ⟨ha, hb, hq⟩ := restoreFront_spec sizes
      (mirror.tail undelivered) h.active h.bounded
    refine ⟨ha, hb, ?_⟩
    have hacc := h.account
    rw [← mirror.delivered_append_tail undelivered, append_assoc]
      at hacc
    show Accounts _ mirror.pushed (mirror.delivered undelivered
      ++ (mirror.outbox.restoreFront sizes
        (mirror.tail undelivered)).pending.events)
    obtain hq | ⟨hne, frames, hq⟩ := hq
    · rw [hq]
      exact hacc
    · rw [hq]
      exact hacc.merge hne trivial

theorem Mirror.run_sound (calls : List (Call α)) :
    (Mirror.run sizes calls).Sound sizes := by
  have hfold : ∀ mirror : Mirror α, mirror.Sound sizes
      → (calls.foldl (Mirror.call sizes) mirror).Sound sizes := by
    induction calls with
    | nil => exact fun _ h => h
    | cons c calls ih => exact fun _ h => ih _ (h.call sizes c)
  exact hfold _ (sound_new sizes)

/-- What is handed back stands before everything that arrived since, by
itself or under a marker for both. -/
def Mirror.RestoresInFront (mirror : Mirror α) (undelivered : Nat) : Prop :=
  (mirror.call sizes (.restoreFront undelivered)).outbox.pending.events
      = mirror.tail undelivered ++ mirror.outbox.pending.events
    ∨ ∃ frames, (mirror.call sizes
        (.restoreFront undelivered)).outbox.pending.events
      = [.desynced frames]

/-- After any calls in any order: everything that arrived was taken or is
queued at its place, once, or lies in a stretch that a marker stands for at
that place; what is handed back goes before what arrived since; the queue
is within its limits and its byte count is exact. -/
theorem Mirror.nothing_lost_silently (calls : List (Call α)) :
    Accounts MirrorEvent.IsDesynced (run sizes calls).pushed
        ((run sizes calls).drained ++ (run sizes calls).outbox.pending.events)
      ∧ (∀ undelivered, (run sizes calls).RestoresInFront sizes undelivered)
      ∧ (run sizes calls).outbox.pending.Bounded sizes := by
  have h := run_sound sizes calls
  refine ⟨h.account, fun undelivered => ?_, h.bounded⟩
  obtain ⟨-, -, hq | ⟨-, hq⟩⟩ := restoreFront_spec sizes
    ((run sizes calls).tail undelivered) h.active h.bounded
  · exact .inl hq
  · exact .inr hq

end Tasty.Remote
