/-
Where the loss notices of a registration stand.

Whatever the threads do, the notices and `pending_loss` together count the
frames that were dropped, and `queued` counts what is queued, so it never
underflows. A notice stands before every frame that was pushed after its
gap as long as the receiver takes no frame between the two attempts of one
push (`disturbs`): the first fails, the room is made, and the second
succeeds.
-/
import Tasty.Ipc.StreamHub

namespace Tasty.Ipc.StreamHub

open Notices List

variable {α : Type} {s : State α}

-- ==== statement

/-- What the receiver gets, in this order, if it goes on. -/
def State.sequence (s : State α) : List (Seen α) := s.received ++ s.queue

/-- Every gap is marked. -/
structure Marked (s : State α) : Prop where
  /-- who takes the lock finds every dropped frame told or pending -/
  counted : ∀ sink, s.holder = .nobody → s.sink = some sink →
    told s.sequence + sink.pendingLoss = lost s.fates
  /-- a frame that was pushed to a client that had declared comes after the
  notices of exactly the frames that were dropped before it -/
  ordered : ∀ before x after, s.sequence = before ++ .frame x :: after →
    ∃ past strict later, s.fates = past ++ .sent x strict :: later
      ∧ frames before = sent past
      ∧ (strict = true → told before = lost past)
  queued : 0 ≤ s.queued

/-- The lock is held by a push whose attempt to put in the owed notice has
failed, and whose frame is not in yet. -/
def State.unnoticed (s : State α) : Bool :=
  s.sink.any owes && match s.holder with
    | .noticeRefused (.push _) | .frame _ | .frameCounted _ => true
    | _ => false

/-- Whether an action lets the frame of a push in where its notice was not:
the receiver takes a frame off the queue between the two attempts, or the
bytes of the notice alone are too many to be charged. -/
def State.disturbs (s : State α) : Action α → Bool
  | .recv => s.unnoticed
  | .advance false => s.holder matches .notice (.push _) && s.room
  | _ => false

/-- No action of the run does. -/
def Undisturbed : State α → List (Action α) → Prop
  | _, [] => True
  | s, action :: rest =>
    s.disturbs action = false ∧ Undisturbed (s.step action) rest

-- ==== invariant

/-- The steps under the lock that have counted a frame not yet in. -/
def Holder.counting : Holder α → Nat
  | .noticeCounted _ | .noticeRefused _ | .frameCounted _
  | .frameRefused _ => 1
  | _ => 0

/-- A frame in hand is still counted. -/
def Reader.counting : Reader → Nat
  | .taken => 1
  | _ => 0

/-- What the sink has pending, once the notice that is in is booked. -/
def State.owed (s : State α) (sink : StreamSink) : Nat :=
  match s.holder with
  | .noticeSent _ => 0
  | _ => sink.pendingLoss

/-- What comes after the notice that is put in. -/
def Holder.next : Holder α → Option (Next α)
  | .notice next | .noticeCounted next | .noticeRefused next
  | .noticeSent next => some next
  | _ => none

theorem Holder.eq_nobody {holder : Holder α} (h : holder.free = true) :
    holder = .nobody := by
  cases holder with
  | nobody => rfl
  | _ => cases h

/-- What holds between any two steps of the threads. -/
structure Inv (s : State α) : Prop where
  tells : ∃ n, Tells s.fates s.sequence n
    ∧ ∀ sink, s.sink = some sink → n = s.owed sink
  full : s.unnoticed = true → s.room = false
  queued : s.queued
    = s.queue.length + s.holder.counting + s.reader.counting
  took : s.holder.next = some .took → s.reader = .repaying

-- ==== one step of each

theorem Inv.register : Inv (register : State α) where
  tells := ⟨0, .start, fun sink hs => by cases hs; rfl⟩
  full := fun h => by cases h
  queued := rfl
  took := fun h => by cases h

theorem Inv.tells_same {s' : State α} (h : Inv s)
    (hfates : s'.fates = s.fates) (hseq : s'.sequence = s.sequence)
    (hsink : ∀ sink', s'.sink = some sink' →
      ∃ sink, s.sink = some sink ∧ s'.owed sink' = s.owed sink) :
    ∃ n, Tells s'.fates s'.sequence n
      ∧ ∀ sink, s'.sink = some sink → n = s'.owed sink := by
  obtain ⟨n, htells, howed⟩ := h.tells
  refine ⟨n, by rwa [hfates, hseq], fun sink' hs => ?_⟩
  obtain ⟨sink, hsome, heq⟩ := hsink sink' hs
  rw [heq]
  exact howed sink hsome

theorem Inv.push {x : α} {admission : Admission} (h : Inv s)
    (hfree : s.holder = .nobody) : Inv (s.push x admission) := by
  have hcount := h.queued
  rw [hfree] at hcount
  have hsame : ∀ holder : Holder α, (∀ next, holder ≠ .noticeSent next) →
      ∀ sink, ({ s with holder } : State α).owed sink = s.owed sink := by
    intro holder hsent sink
    unfold State.owed
    rw [hfree]
    cases holder with
    | noticeSent next => exact absurd rfl (hsent next)
    | _ => rfl
  unfold State.push
  split
  · exact ⟨h.tells, h.full, h.queued, h.took⟩
  · exact ⟨h.tells, h.full, h.queued, h.took⟩
  · exact ⟨h.tells, h.full, h.queued, h.took⟩
  next sink hsink =>
  split
  · refine ⟨h.tells_same rfl rfl fun sink hs => ⟨sink, hs, ?_⟩,
      fun hu => ?_, hcount, fun ht => by cases ht⟩
    · exact hsame _ (by simp) sink
    · simp [State.unnoticed] at hu
  · next howes =>
    refine ⟨h.tells_same rfl rfl fun sink hs => ⟨sink, hs, ?_⟩,
      fun hu => ?_, hcount, fun ht => by cases ht⟩
    · exact hsame _ (by simp) sink
    · simp [State.unnoticed, hsink] at hu
      exact absurd hu howes

variable {next : Next α}

/-- The lock is given back, or the push goes on with its frame. -/
theorem Inv.proceed (htells : ∃ n, Tells s.fates s.sequence n
      ∧ ∀ sink, s.sink = some sink → n = sink.pendingLoss)
    (hqueued : s.queued = s.queue.length + s.reader.counting)
    (htook : next = .took → s.reader = .repaying)
    (hfull : ∀ x, next = .push x → s.sink.any owes = true →
      s.room = false) : Inv (s.proceed next) := by
  cases next with
  | push x =>
    refine ⟨htells, fun hu => ?_, hqueued, fun ht => by cases ht⟩
    exact hfull x rfl (Bool.and_eq_true_iff.mp hu).1
  | repaid =>
    refine ⟨htells, fun hu => ?_, hqueued, fun ht => by cases ht⟩
    simp [State.proceed, State.unnoticed] at hu
  | took =>
    refine ⟨htells, fun hu => ?_, ?_, fun ht => by cases ht⟩
    · simp [State.proceed, State.unnoticed] at hu
    · rw [htook rfl] at hqueued
      exact hqueued

variable (h : Inv s)

include h

theorem Inv.repay (hfree : s.holder = .nobody)
    (htook : next = .took → s.reader = .repaying)
    (hpush : ∀ x, next ≠ .push x) : Inv (s.repay next) := by
  have hcount := h.queued
  rw [hfree] at hcount
  have htells : ∃ n, Tells s.fates s.sequence n
      ∧ ∀ sink, s.sink = some sink → n = sink.pendingLoss := by
    obtain ⟨n, htells, howed⟩ := h.tells
    refine ⟨n, htells, fun sink hs => ?_⟩
    rw [howed sink hs, State.owed, hfree]
  have hproceed : Inv (s.proceed next) :=
    .proceed htells hcount htook fun x hx => absurd hx (hpush x)
  unfold State.repay
  split
  · exact hproceed
  split
  · refine ⟨htells, fun hu => ?_, hcount, fun ht => ?_⟩
    · simp [State.unnoticed] at hu
    · exact htook (Option.some.inj ht)
  · exact hproceed

theorem Inv.declare (hfree : s.holder = .nobody) : Inv s.declare := by
  unfold State.declare
  split
  · exact h
  next sink hsink =>
  refine ⟨h.tells_same rfl rfl fun sink' hs => ⟨sink, hsink, ?_⟩,
    fun hu => ?_, h.queued, h.took⟩
  · cases hs
    simp [State.owed, State.syncOwed, hfree]
  · simp [State.unnoticed, State.syncOwed, hfree] at hu

theorem Inv.recv (hreader : s.reader = .waiting)
    (hquiet : s.unnoticed = false) : Inv s.recv := by
  have hcount := h.queued
  rw [hreader] at hcount
  unfold State.recv
  split
  · exact h
  next f rest hqueue =>
  refine ⟨h.tells_same rfl ?_ fun sink hs => ⟨sink, hs, rfl⟩,
    fun hu => ?_, ?_, fun ht => ?_⟩
  · simp [State.sequence, hqueue]
  · rw [show s.unnoticed = true from hu] at hquiet
    cases hquiet
  · rw [hqueue] at hcount
    simp only [length_cons, Reader.counting] at hcount ⊢
    omega
  · cases hreader.symm.trans (h.took ht)

theorem Inv.read : Inv s.read := by
  have hcount := h.queued
  have hnotook : s.reader ≠ .repaying → s.holder.next ≠ some .took :=
    fun hr ht => hr (h.took ht)
  unfold State.read
  split
  · exact h
  · exact h
  · next hreader =>
    refine ⟨h.tells_same rfl rfl fun sink hs => ⟨sink, hs, rfl⟩, h.full, ?_,
      fun ht => absurd ht (hnotook (by simp [hreader]))⟩
    rw [hreader] at hcount
    simp only [Reader.counting] at hcount ⊢
    omega
  · next hreader =>
    refine ⟨h.tells_same rfl rfl fun sink hs => ⟨sink, hs, rfl⟩, h.full, ?_,
      fun ht => absurd ht (hnotook (by simp [hreader]))⟩
    rw [hreader] at hcount
    dsimp only
    split <;> exact hcount
  · next hreader =>
    split
    · next hfree =>
      have hasked : Inv { s with reader := Reader.repaying } := by
        refine ⟨h.tells_same rfl rfl fun sink hs => ⟨sink, hs, rfl⟩, h.full,
          ?_, fun _ => rfl⟩
        rw [hreader] at hcount
        exact hcount
      exact hasked.repay (Holder.eq_nobody hfree) (fun _ => rfl) (by simp)
    · exact h

variable {sink : StreamSink}

variable (hsink : s.sink = some sink)

include hsink

/-- The end of a push that found the queue full. -/
theorem Inv.lose (hlost : s.holder = .frameLost) : Inv (s.lose sink) := by
  have hcount := h.queued
  rw [hlost] at hcount
  obtain ⟨n, htells, howed⟩ := h.tells
  have hn : n = sink.pendingLoss := by
    rw [howed sink hsink, State.owed, hlost]
  unfold State.lose
  dsimp only
  split
  · refine ⟨⟨n + 1, htells.lost, fun _ hs => ?_⟩, fun hu => ?_, hcount,
      fun ht => ?_⟩
    · cases hs
    · cases hu
    · cases ht
  · refine ⟨⟨n + 1, htells.lost, fun sink' hs => ?_⟩, fun hu => ?_, hcount,
      fun ht => by cases ht⟩
    · cases hs
      rw [hn]
      rfl
    · simp [State.unnoticed] at hu

/-- The frame of a push is let in: nothing was owed then, or the queue was
full. -/
theorem Inv.enqueueFrame {x : α}
    (hframe : s.holder = .frameCounted x) (hroom : s.room = true) :
    Inv { s with
      queue := s.queue ++ [.frame x]
      sink := some { sink with lag := 0 }
      fates := s.fates ++ [.sent x sink.lossNotify]
      holder := .nobody
      result := some .sent } := by
  have hcount := h.queued
  rw [hframe] at hcount
  obtain ⟨n, htells, howed⟩ := h.tells
  have hn : n = sink.pendingLoss := by
    rw [howed sink hsink, State.owed, hframe]
  have hpaid : sink.lossNotify = true → n = 0 := by
    intro hdeclared
    have hquiet : s.unnoticed ≠ true := fun hu => by
      rw [h.full hu] at hroom
      cases hroom
    simpa [State.unnoticed, hsink, hframe, owes, hdeclared, hn] using hquiet
  have htells' := htells.sent x sink.lossNotify hpaid
  refine ⟨⟨n, ?_, fun sink' hs => ?_⟩, fun hu => ?_, ?_, fun ht => by cases ht⟩
  · unfold State.sequence
    rw [← append_assoc]
    exact htells'
  · cases hs
    exact hn
  · simp [State.unnoticed] at hu
  · simp only [Holder.counting, length_append, length_singleton]
      at hcount ⊢
    omega

theorem Inv.enqueueNotice (hnotice : s.holder = .noticeCounted next) :
    Inv { s with
      queue := s.queue ++ [.notice sink.pendingLoss]
      holder := .noticeSent next } := by
  have hcount := h.queued
  have htook := h.took
  rw [hnotice] at hcount htook
  obtain ⟨n, htells, howed⟩ := h.tells
  have hn : n = sink.pendingLoss := by
    rw [howed sink hsink, State.owed, hnotice]
  refine ⟨⟨0, ?_, fun sink' hs => rfl⟩, fun hu => ?_, ?_, fun ht => ?_⟩
  · unfold State.sequence
    rw [← append_assoc, ← hn]
    exact htells.notice
  · simp [State.unnoticed] at hu
  · simp only [Holder.counting, length_append, length_singleton]
      at hcount ⊢
    omega
  · exact htook ht

/-- The next step under the lock. -/
theorem Inv.advance {charged : Bool}
    (hquiet : s.disturbs (.advance charged) = false) :
    Inv (s.advance sink charged) := by
  have hcount := h.queued
  have htook := h.took
  have hfull := h.full
  have hsome : ∀ sink', s.sink = some sink' → sink' = sink := by
    intro sink' hs
    rw [hsink] at hs
    exact (Option.some.inj hs).symm
  -- what is owed while no notice waits to be booked
  have htells : (∀ next, s.holder ≠ .noticeSent next) →
      ∃ n, Tells s.fates s.sequence n
        ∧ ∀ sink, s.sink = some sink → n = sink.pendingLoss := by
    intro hsent
    obtain ⟨n, htells, howed⟩ := h.tells
    refine ⟨n, htells, fun sink hs => ?_⟩
    rw [howed sink hs, State.owed]
    split
    · next next hh => exact absurd hh (hsent next)
    · rfl
  unfold State.advance
  split
  · exact h
  · next next hh =>
    rw [hh] at hcount htook
    have htells := htells (by simp [hh])
    split
    · refine ⟨htells, fun hu => ?_, ?_, htook⟩
      · simp [State.unnoticed] at hu
      · simp only [Holder.counting] at hcount ⊢
        omega
    · next hcharged =>
      refine .proceed htells hcount (fun hn => ?_) fun x hn howes => ?_
      · exact htook (congrArg some hn)
      · subst hn
        rw [Bool.not_eq_true] at hcharged
        subst hcharged
        simpa [State.disturbs, hh] using hquiet
  · next next hh =>
    split
    · exact h.enqueueNotice hsink hh
    · next hroom =>
      rw [hh] at hcount htook
      refine ⟨htells (by simp [hh]), fun _ => ?_, hcount, htook⟩
      exact Bool.eq_false_iff.mpr hroom
  · next next hh =>
    rw [hh] at hcount htook
    refine .proceed (htells (by simp [hh])) ?_ (fun hn => ?_)
      fun x hn howes => ?_
    · simp only [Holder.counting] at hcount ⊢
      omega
    · exact htook (congrArg some hn)
    · subst hn
      refine hfull ?_
      simpa [State.unnoticed, hh] using howes
  · next next hh =>
    obtain ⟨n, htells, howed⟩ := h.tells
    have hn : n = 0 := by rw [howed sink hsink, State.owed, hh]
    rw [hh] at hcount htook
    refine .proceed ⟨0, hn ▸ htells, fun sink' hs => ?_⟩ hcount
      (fun hn => htook (congrArg some hn)) fun x _ howes => ?_
    · cases hs
      rfl
    · simp [State.syncOwed, owes] at howes
  · next x hh =>
    rw [hh] at hcount
    refine ⟨htells (by simp [hh]), fun hu => ?_, ?_, fun ht => by cases ht⟩
    · refine hfull ?_
      simpa [State.unnoticed, hh] using hu
    · simp only [Holder.counting] at hcount ⊢
      omega
  · next x hh =>
    split
    · next hroom => exact h.enqueueFrame hsink hh hroom
    · rw [hh] at hcount
      refine ⟨htells (by simp [hh]), fun hu => ?_, hcount,
        fun ht => by cases ht⟩
      simp [State.unnoticed] at hu
  · next full hh =>
    rw [hh] at hcount
    have hback : s.queued - 1
        = (s.queue.length : Int) + (0 : Nat) + s.reader.counting := by
      simp only [Holder.counting] at hcount
      omega
    obtain ⟨n, hn, howed⟩ := htells (by simp [hh])
    split
    · refine ⟨⟨n, hn, howed⟩, fun hu => ?_, hback, fun ht => by cases ht⟩
      simp [State.unnoticed] at hu
    · refine ⟨⟨n, hn, fun _ hs => by cases hs⟩, fun hu => ?_, hback,
        fun ht => by cases ht⟩
      simp [State.unnoticed] at hu
  · next hh => exact h.lose hsink hh

omit hsink

-- ==== runs

theorem Inv.step {action : Action α}
    (hquiet : s.disturbs action = false) : Inv (s.step action) := by
  cases action with
  | push x admission =>
    show Inv (if _ then _ else _)
    split
    · next hfree => exact h.push (Holder.eq_nobody hfree)
    · exact h
  | declare =>
    show Inv (if _ then _ else _)
    split
    · next hfree => exact h.declare (Holder.eq_nobody hfree)
    · exact h
  | pump =>
    show Inv (if _ then _ else _)
    split
    · next hfree =>
      exact h.repay (Holder.eq_nobody hfree) (by simp) (by simp)
    · exact h
  | unregister =>
    show Inv (if _ then _ else _)
    split
    · obtain ⟨n, htells, -⟩ := h.tells
      exact ⟨⟨n, htells, fun _ hs => by cases hs⟩, (fun hu => by cases hu),
        h.queued, h.took⟩
    · exact h
  | advance charged =>
    simp only [State.step]
    split
    · exact h
    · next sink hsink => exact h.advance hsink hquiet
  | recv =>
    show Inv (if _ then _ else _)
    split
    · next hr => exact h.recv hr.2 hquiet
    · exact h
  | read => exact h.read
  | hangUp =>
    show Inv (if _ then _ else _)
    split
    · exact ⟨h.tells, fun _ => rfl, h.queued, h.took⟩
    · exact h

theorem Inv.run {actions : List (Action α)}
    (hquiet : Undisturbed s actions) : Inv (s.run actions) := by
  induction actions generalizing s with
  | nil => exact h
  | cons action rest ih => exact ih (h.step hquiet.1) hquiet.2

theorem Inv.marked : Marked s := by
  obtain ⟨n, htells, howed⟩ := h.tells
  refine ⟨fun sink hfree hsink => ?_, fun before x after hs => ?_, ?_⟩
  · rw [← htells.counted, howed sink hsink, State.owed, hfree]
  · obtain ⟨past, strict, later, m, hfates, hpast, hpaid⟩ :=
      htells.before hs
    refine ⟨past, strict, later, hfates, hpast.kept, fun hstrict => ?_⟩
    rw [← hpast.counted, hpaid hstrict]
    rfl
  · rw [h.queued]
    omega

omit h

/-- In every run in which nothing comes between the two attempts of a push,
every gap is marked at its place. -/
theorem gaps_are_marked (actions : List (Action α))
    (hquiet : Undisturbed register actions) :
    Marked (register.run actions) :=
  (Inv.register.run hquiet).marked

-- ==== two runs

/-- A push that is not disturbed, as long as there is room. -/
def send (x : Nat) : List (Action Nat) :=
  [.push x .admitted, .advance true, .advance true]

/-- The client declares, and then as many frames are pushed. -/
def fill (n : Nat) : List (Action Nat) :=
  .declare :: (List.replicate n (send 0)).flatten

/-- The registration after that, before anything is taken. -/
def filled (n : Nat) : State Nat where
  queue := List.replicate n (.frame 0)
  connected := true
  sink := some ⟨0, true, 0⟩
  owesNotice := false
  queued := n
  holder := .nobody
  reader := .waiting
  received := []
  fates := List.replicate n (.sent 0 true)
  result := if n = 0 then none else some .sent

theorem filled_send {n : Nat} (h : n < SINK_CAP) :
    (filled n).run (send 0) = filled (n + 1) := by
  simp [filled, send, State.run, State.step, State.push, State.advance,
    State.room, Holder.free, owes, h, replicate_succ']

theorem run_fill {n : Nat} (h : n ≤ SINK_CAP) :
    register.run (fill n) = filled n := by
  induction n with
  | zero => rfl
  | succ n ih =>
    have hsplit : fill (n + 1) = fill n ++ send 0 := by
      simp [fill, replicate_succ']
    rw [hsplit, State.run, foldl_append]
    show (State.run _ (fill n)).run (send 0) = _
    rw [ih (Nat.le_of_succ_le h), filled_send h]

/-- A push that finds the queue full. -/
def overflow (x : Nat) : List (Action Nat) :=
  [.push x .admitted, .advance true, .advance true, .advance true, .advance true]

/-- The registration with one frame lost. -/
def gap : State Nat :=
  { filled SINK_CAP with
    sink := some ⟨1, true, 1⟩
    owesNotice := true
    fates := List.replicate SINK_CAP (.sent 0 true) ++ [.lost]
    result := some .dropped }

theorem filled_overflow : (filled SINK_CAP).run (overflow 0) = gap := by
  simp [filled, gap, overflow, State.run, State.step, State.push, State.advance,
    State.room, State.lose, State.syncOwed, Holder.free, owes, LAG_LIMIT]

/-- A push after the gap cannot put the notice in. -/
def refused (x : Nat) : List (Action Nat) :=
  [.push x .admitted, .advance true, .advance true, .advance true]

/-- The registration with a frame taken off the queue. -/
def room : State Nat :=
  { gap with
    queue := List.replicate (SINK_CAP - 1) (.frame 0)
    reader := .taken
    received := [.frame 0] }

/-- Then the frame of the push goes in. -/
def raced : State Nat :=
  { room with
    queue := List.replicate (SINK_CAP - 1) (.frame 0) ++ [.frame 1]
    sink := some ⟨0, true, 1⟩
    queued := SINK_CAP + 1
    fates := List.replicate SINK_CAP (.sent 0 true)
      ++ [.lost, .sent 1 true]
    result := some .sent }

theorem gap_refused (x : Nat) :
    gap.run (refused x) = { gap with holder := .frame x } := by
  simp [filled, gap, refused, State.run, State.step, State.push,
    State.advance, State.room, State.proceed, Holder.free, owes]

theorem room_frame :
    State.run { room with holder := .frame 1 } [.advance true, .advance true]
      = raced := by
  have hlt : SINK_CAP - 1 < SINK_CAP := by decide
  simp [filled, gap, room, raced, State.run, State.step, State.advance,
    State.room, hlt]

/-- The receiver takes a frame between the two attempts of a push. -/
def race : List (Action Nat) :=
  fill SINK_CAP ++ overflow 0 ++ refused 1 ++ [.recv]
    ++ [.advance true, .advance true]

theorem run_race : register.run race = raced := by
  unfold race State.run
  rw [foldl_append, foldl_append, foldl_append, foldl_append]
  show ((((State.run _ (fill SINK_CAP)).run (overflow 0)).run
    (refused 1)).run [.recv]).run [.advance true, .advance true] = raced
  rw [run_fill (Nat.le_refl _), filled_overflow, gap_refused, ← room_frame]
  rfl

theorem told_frames (n : Nat) (x : α) :
    told (List.replicate n (.frame x)) = 0 := by
  induction n with
  | zero => rfl
  | succ n ih => exact ih

/-- A frame that was pushed after the gap overtakes the notice: it is
received before any notice is. -/
theorem frame_overtakes_notice :
    ¬ ∀ actions : List (Action Nat), Marked (register.run actions) := by
  intro hall
  have hmarked := hall race
  rw [run_race] at hmarked
  obtain ⟨past, strict, later, hfates, -, htold⟩ :=
    hmarked.ordered (.frame 0 :: List.replicate (SINK_CAP - 1) (.frame 0)) 1
      [] rfl
  have hsplit : (List.replicate SINK_CAP (.sent 0 true) ++ [.lost])
      ++ [.sent 1 true] = past ++ .sent 1 strict :: later := by
    rw [← hfates, List.append_assoc]
    rfl
  -- no other push was of this frame
  obtain rfl | ⟨later, last, rfl⟩ := List.eq_nil_or_concat later
  · obtain ⟨hpast, hlast⟩ := List.append_inj' hsplit rfl
    cases hlast
    have hone := htold rfl
    rw [← hpast, lost_append] at hone
    exact absurd hone (by simp [told, told_frames, lost])
  · rw [List.concat_eq_append, ← List.cons_append,
      ← List.append_assoc] at hsplit
    obtain ⟨hpast, -⟩ := List.append_inj' hsplit rfl
    have hmem : (.sent 1 strict : Fate Nat)
        ∈ List.replicate SINK_CAP (.sent 0 true) ++ [.lost] := by
      rw [hpast]
      exact List.mem_append_right _ (.head _)
    simp [List.mem_replicate] at hmem

/-- Of these no action disturbs, wherever it comes. -/
def Action.tame : Action α → Bool
  | .recv | .advance false => false
  | _ => true

theorem undisturbed_of_tame {actions : List (Action α)}
    (h : ∀ action ∈ actions, action.tame = true) : Undisturbed s actions := by
  induction actions generalizing s with
  | nil => trivial
  | cons action rest ih =>
    refine ⟨?_, ih fun action ha => h action (.tail _ ha)⟩
    have htame := h action (.head _)
    cases action with
    | advance charged =>
      cases charged with
      | true => rfl
      | false => cases htame
    | recv => cases htame
    | _ => rfl

theorem Undisturbed.append {first last : List (Action α)}
    (h : Undisturbed s first) (h' : Undisturbed (s.run first) last) :
    Undisturbed s (first ++ last) := by
  induction first generalizing s with
  | nil => exact h'
  | cons action rest ih => exact ⟨h.1, ih h.2 h'⟩

/-- The receiver takes a frame before the next push, and puts the notice in
where it belongs; then the push comes. -/
def repaired : List (Action Nat) :=
  fill SINK_CAP ++ overflow 0 ++ [.recv]
    ++ ([.read, .read, .read, .advance true, .advance true, .advance true]
      ++ overflow 1)

theorem undisturbed_repaired : Undisturbed register repaired := by
  have hrun : register.run (fill SINK_CAP ++ overflow 0) = gap := by
    rw [State.run, foldl_append]
    show (State.run _ (fill SINK_CAP)).run (overflow 0) = gap
    rw [run_fill (Nat.le_refl _), filled_overflow]
  refine .append (.append (.append ?_ ?_) ⟨?_, trivial⟩) ?_
  · apply undisturbed_of_tame
    simp only [fill, send, mem_cons, mem_flatten, mem_replicate]
    rintro action (rfl | ⟨_, ⟨-, rfl⟩, hmem⟩)
    · rfl
    · simp only [mem_cons, not_mem_nil, or_false] at hmem
      obtain rfl | rfl | rfl := hmem <;> rfl
  · exact undisturbed_of_tame (by simp [overflow, Action.tame])
  · rw [hrun]
    rfl
  · exact undisturbed_of_tame (by simp [overflow, Action.tame])

theorem gap_is_marked : Marked (register.run repaired) :=
  gaps_are_marked repaired undisturbed_repaired

end Tasty.Ipc.StreamHub
