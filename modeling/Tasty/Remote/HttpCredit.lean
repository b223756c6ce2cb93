/-
What one message, and one action of the client, does to an attempt: its
credit is settled in whole or not at all, its offset moves by what a chunk
brings, and a state that needs a head has one.

Every handler of a message is shown to be a `Settles` once; the failing of
an invalid message comes behind it (`Settles.fail`).
-/
import Tasty.Remote.HttpClient

namespace Tasty.Remote.Http

open Attempt

-- ==== one attempt

/-- What holds of an attempt between two actions. -/
structure Attempt.Good (a : Attempt) : Prop where
  /-- a state that shows or receives a body has a head -/
  head : a.state = .ready ∨ a.state = .sizeNotice ∨ a.state = .receiving →
    a.head.isSome = true
  /-- a credit is out while a body is received, or was declined -/
  holder : a.credit.isSome = true → a.state = .ready
    ∨ a.state = .sizeNotice ∨ a.state = .receiving ∨ a.state = .skipped
  /-- a credit was given for the response of a head -/
  credited : a.credit.isSome = true → a.head.isSome = true
  /-- a credit reserves what it allows; the probe at the end nothing -/
  reserved : ∀ c, a.credit = some c → c.reserved = c.max ∨ c.reserved = 0
  /-- more than the automatic bytes are the user's to allow -/
  automatic : a.allowed = true ∨ a.offset ≤ AUTO_BYTES

/-- What the handling of a message does to its attempt and to the counts. -/
structure Settles (a : Attempt) (o : Outcome) : Prop where
  id : o.attempt.id = a.id
  allowed : o.attempt.allowed = a.allowed
  offset : o.attempt.offset = a.offset + o.taken
  credit : o.attempt.credit = a.credit ∧ o.refund = 0
    ∨ o.attempt.credit = none ∧ o.refund = a.outstanding
  taken : o.taken ≤ o.refund
  good : o.attempt.Good

variable {a : Attempt} {o : Outcome}

theorem Attempt.outstanding_of_none (h : a.credit = none) :
    a.outstanding = 0 := by
  simp [Attempt.outstanding, h]

/-- What is refunded and what stays reserved is what was reserved. -/
theorem Settles.conserves (h : Settles a o) :
    o.attempt.outstanding + o.refund = a.outstanding := by
  obtain ⟨hc, hr⟩ | ⟨hc, hr⟩ := h.credit
  · rw [hr, Nat.add_zero, Attempt.outstanding, hc]
    rfl
  · rw [hr, outstanding_of_none hc, Nat.zero_add]

variable {a' : Attempt}

/-- An attempt that only gets other fields. -/
theorem Settles.keep {a : Attempt} {valid : Bool} (hid : a'.id = a.id)
    (hallowed : a'.allowed = a.allowed) (hoffset : a'.offset = a.offset)
    (hcredit : a'.credit = a.credit) (hgood : a'.Good) :
    Settles a (.keep a' valid) where
  id := hid
  allowed := hallowed
  offset := hoffset
  credit := .inl ⟨hcredit, rfl⟩
  taken := Nat.le_refl 0
  good := hgood

theorem Settles.refl (h : a.Good) (valid : Bool) : Settles a (.keep a valid) :=
  .keep rfl rfl rfl rfl h

theorem Settles.settled {valid : Bool} (h : a.Good) (hid : a'.id = a.id)
    (hallowed : a'.allowed = a.allowed) (hoffset : a'.offset = a.offset)
    (hcredit : a'.credit = none)
    (hhead : a'.state = .ready ∨ a'.state = .sizeNotice
      ∨ a'.state = .receiving → a'.head.isSome = true) :
    Settles a ⟨a', a.outstanding, 0, valid⟩ where
  id := hid
  allowed := hallowed
  offset := hoffset
  credit := .inr ⟨hcredit, rfl⟩
  taken := Nat.zero_le _
  good := {
    head := hhead
    holder := fun hs => by rw [hcredit] at hs; cases hs
    credited := fun hs => by rw [hcredit] at hs; cases hs
    reserved := fun c hc => by rw [hcredit] at hc; cases hc
    automatic := by rw [hallowed, hoffset]; exact h.automatic }

theorem keep_settle (a : Attempt) (valid : Bool) :
    (Outcome.keep a valid).settle
      = ⟨{ a with credit := none }, a.outstanding, 0, valid⟩ := by
  simp [Outcome.settle, Outcome.keep]

/-- An invalid message fails the attempt after all. -/
theorem Settles.fail (h : Settles a o) : Settles a o.fail where
  id := h.id
  allowed := h.allowed
  offset := h.offset
  credit := by
    right
    refine ⟨rfl, ?_⟩
    show o.refund + o.attempt.outstanding = a.outstanding
    have := h.conserves
    omega
  taken := Nat.le_trans h.taken (Nat.le_add_right _ _)
  good := {
    head := fun hs => by
      have hs : ReceiveState.failed = .ready ∨ ReceiveState.failed
        = .sizeNotice ∨ ReceiveState.failed = .receiving := hs
      simp at hs
    holder := fun hs => by cases hs
    credited := fun hs => by cases hs
    reserved := fun c hc => by cases hc
    automatic := h.good.automatic }

theorem Attempt.Good.of_uncredited (hcredit : a'.credit = none)
    (hstate : a'.state = .ready ∨ a'.state = .sizeNotice
      ∨ a'.state = .receiving → a'.head.isSome = true)
    (hauto : a'.allowed = true ∨ a'.offset ≤ AUTO_BYTES) : a'.Good where
  head := hstate
  holder := fun hs => by rw [hcredit] at hs; cases hs
  credited := fun hs => by rw [hcredit] at hs; cases hs
  reserved := fun c hc => by rw [hcredit] at hc; cases hc
  automatic := hauto

theorem Attempt.Good.credit_none (h : a.Good)
    (hs : ¬ (a.state = .ready ∨ a.state = .sizeNotice
      ∨ a.state = .receiving ∨ a.state = .skipped)) : a.credit = none := by
  cases hc : a.credit with
  | none => rfl
  | some c => exact absurd (h.holder (by rw [hc]; rfl)) hs

-- ==== messages

theorem uploadReady_settles (h : a.Good) (offset maxBytes : Nat) :
    Settles a (a.uploadReady offset maxBytes) := by
  unfold Attempt.uploadReady
  split
  · exact .refl h false
  · split
    · exact .refl h false
    · split
      · exact .refl h false
      · exact .keep rfl rfl rfl rfl
          ⟨h.head, h.holder, h.credited, h.reserved, h.automatic⟩

theorem headReceived_settles (g : Grants) (limits : ClientLimits)
    (h : a.Good) (head : ResponseHead) :
    Settles a (a.headReceived g limits head) := by
  unfold headReceived
  split
  · split
    · exact .refl h false
    · exact .keep rfl rfl rfl rfl
        ⟨h.head, h.holder, h.credited, h.reserved, h.automatic⟩
  · split
    · exact .refl h false
    · next hstate =>
      split
      · exact .refl h false
      · split
        · exact .refl h false
        · have hw : a.state = .waitingHead := by
            simp only [ne_eq, Bool.or_eq_true, decide_eq_true_eq] at hstate
            exact Decidable.byContradiction fun hne => hstate (.inl hne)
          have hnone := h.credit_none (by rw [hw]; simp)
          exact .keep rfl rfl rfl rfl
            (.of_uncredited hnone (fun _ => rfl) h.automatic)

theorem dropSkipped_settles (h : Settles a o) :
    Settles a { o with attempt := o.attempt.dropSkipped } := by
  unfold dropSkipped
  split
  · next hskip =>
    refine ⟨h.id, h.allowed, h.offset, h.credit, h.taken, ?_⟩
    refine .of_uncredited hskip.2 (fun hs => ?_) h.good.automatic
    have hs : o.attempt.state = .ready ∨ o.attempt.state = .sizeNotice
      ∨ o.attempt.state = .receiving := hs
    simp [hskip.1] at hs
  · exact h

theorem awaitUser_settles (h : Settles a o)
    (hhead : o.attempt.state ≠ .skipped → o.attempt.head.isSome = true) :
    Settles a { o with attempt := o.attempt.awaitUser } := by
  unfold awaitUser
  split
  · next hs =>
    exact ⟨h.id, h.allowed, h.offset, h.credit, h.taken,
      ⟨fun _ => hhead hs.1, fun _ => .inr (.inl rfl), h.good.credited,
        h.good.reserved, h.good.automatic⟩⟩
  · exact h

theorem noticed_settles (h : Settles a o)
    (hhead : o.attempt.head.isSome = true) : Settles a (Attempt.noticed o) := by
  refine awaitUser_settles (dropSkipped_settles h) fun hs => ?_
  dsimp only at hs ⊢
  unfold dropSkipped at hs ⊢
  split
  · next hskip =>
    rw [if_pos hskip] at hs
    exact absurd hskip.1 hs
  · exact hhead

theorem allowance_settles (h : a.Good) (encodedAtLeast : Nat)
    (knownLength : Option Nat) :
    Settles a (a.allowance encodedAtLeast knownLength) := by
  unfold Attempt.allowance
  split
  · exact .refl h false
  · next hstate =>
    cases hhead : a.head with
    | none => exact .refl h false
    | some head =>
      dsimp only
      split
      · exact .refl h false
      · split
        · split
          · exact .refl h false
          · -- the credit for the probe is settled
            rw [keep_settle]
            apply noticed_settles
            · refine .settled h rfl rfl rfl rfl fun _ => ?_
              show a.head.isSome = true
              rw [hhead]
              rfl
            · show a.head.isSome = true
              rw [hhead]
              rfl
        · apply noticed_settles (.refl h true)
          show a.head.isSome = true
          rw [hhead]
          rfl

/-- A chunk that is taken: it continues the response, within the credit. -/
structure Taken (w : Wire) (a : Attempt) (offset : Nat) (dataB64 : String)
    (o : Outcome) : Prop where
  offset : offset = a.offset
  bytes : ∃ bytes c, w.decodeChunk dataB64 = some bytes
    ∧ a.credit = some c ∧ 0 < bytes.length ∧ bytes.length ≤ c.max
    ∧ o.taken = bytes.length
  credit : o.attempt.credit = none

theorem chunkReceived_settles (w : Wire) (g : Grants)
    (limits : ClientLimits) (h : a.Good) (offset : Nat) (dataB64 : String) :
    Settles a (a.chunkReceived w g limits offset dataB64)
      ∧ ((a.chunkReceived w g limits offset dataB64).valid = true →
        Taken w a offset dataB64
          (a.chunkReceived w g limits offset dataB64)) := by
  have hkeep : Settles a (.keep a false)
      ∧ ((Outcome.keep a false).valid = true →
        Taken w a offset dataB64 (.keep a false)) :=
    ⟨.refl h false, nofun⟩
  unfold chunkReceived
  split
  · exact hkeep
  · split
    · next c bytes head hcredit hscratch hdecode hhead =>
      dsimp only
      split
      · exact hkeep
      · split
        · exact hkeep
        · next hbounds =>
          split
          · exact hkeep
          · simp only [Bool.or_eq_true, List.isEmpty_iff, decide_eq_true_eq,
              bne_iff_ne, beq_iff_eq, Bool.and_eq_true, Bool.not_eq_true',
              not_or, not_and] at hbounds
            obtain ⟨⟨⟨⟨⟨⟨⟨hne, hmax⟩, hoffset⟩, hzero⟩, -⟩, -⟩, -⟩, hauto⟩ :=
              hbounds
            have hoff : offset = a.offset := Decidable.not_not.mp hoffset
            have hres := h.reserved c hcredit
            have hout : a.outstanding = c.reserved := by
              simp [Attempt.outstanding, hcredit]
            have hpos : 0 < bytes.length := List.length_pos_iff.mpr hne
            have hgood : ∀ a' : Attempt, a'.credit = none →
                a'.allowed = a.allowed →
                a'.offset = offset + bytes.length →
                (a'.state = .ready ∨ a'.state = .sizeNotice
                  ∨ a'.state = .receiving → a'.head.isSome = true) →
                a'.Good := by
              intro a' hc ha ho hs
              refine .of_uncredited hc hs ?_
              rw [ha, ho]
              cases hal : a.allowed with
              | true => exact .inl rfl
              | false =>
                have := hauto hal
                exact .inr (by omega)
            have hrefund : bytes.length ≤ a.outstanding := by
              rw [hout]
              omega
            rw [keep_settle]
            dsimp only
            refine ⟨⟨?_, ?_, ?_, .inr ⟨?_, rfl⟩, hrefund, ?_⟩,
              fun _ => ⟨hoff, ⟨bytes, c, hdecode, hcredit, hpos, by omega,
                rfl⟩, ?_⟩⟩
            · split <;> rfl
            · split <;> rfl
            · rw [← hoff]
              split <;> rfl
            · split <;> rfl
            · split
              · refine hgood _ rfl rfl rfl fun _ => ?_
                show a.head.isSome = true
                rw [hhead]
                rfl
              · next hskip =>
                refine hgood _ rfl rfl rfl fun hs => ?_
                have hs : a.state = .ready ∨ a.state = .sizeNotice
                  ∨ a.state = .receiving := hs
                rw [Decidable.not_not.mp hskip] at hs
                simp at hs
            · split <;> rfl
    · exact hkeep

theorem completeReceived_settles (g : Grants) (limits : ClientLimits)
    (h : a.Good) (encoded decoded : BodyIdentity) :
    Settles a (a.completeReceived g limits encoded decoded) := by
  unfold completeReceived
  split
  · next hreuse =>
    split
    · exact .refl h false
    · have hnone := h.credit_none (by rw [hreuse]; simp)
      refine .keep rfl rfl rfl rfl (.of_uncredited hnone ?_ h.automatic)
      intro hs
      simp at hs
  · split
    · next hskip =>
      rw [keep_settle]
      refine .settled h rfl rfl rfl rfl fun hs => ?_
      have hs : a.state = .ready ∨ a.state = .sizeNotice
        ∨ a.state = .receiving := hs
      rw [hskip] at hs
      simp at hs
    · split
      · exact .refl h false
      · split
        · exact .refl h false
        · split
          · exact .refl h false
          · split
            · exact .refl h false
            · split
              · exact .keep rfl rfl rfl rfl
                  ⟨h.head, h.holder, h.credited, h.reserved, h.automatic⟩
              · rw [keep_settle]
                dsimp only
                split
                · exact .settled h rfl rfl rfl rfl h.head
                · refine .settled h rfl rfl rfl rfl fun hs => ?_
                  simp at hs

theorem cancelled_settles (h : a.Good) (id : TransferId) (n : Nat)
    (response : Option ResponseId) (w : Wire) (g : Grants)
    (limits : ClientLimits) :
    Settles a (a.apply w g limits (.cancelled id n response)) := by
  unfold Attempt.apply
  rw [keep_settle]
  refine .settled h rfl rfl rfl rfl fun hs => ?_
  dsimp only at hs
  split at hs <;> simp at hs

theorem apply_settles (w : Wire) (g : Grants) (limits : ClientLimits)
    (h : a.Good) (reply : HttpReply) :
    Settles a (a.apply w g limits reply) := by
  cases reply with
  | failure => exact (Settles.refl h true).fail
  | cancelled id n response =>
    exact cancelled_settles h id n response w g limits
  | uploadReady => exact uploadReady_settles h _ _
  | head => exact headReceived_settles g limits h _
  | allowanceRequired => exact allowance_settles h _ _
  | chunk => exact (chunkReceived_settles w g limits h _ _).1
  | complete => exact completeReceived_settles g limits h _ _
  | commandRejected => exact .refl h true

theorem chunkReceived_taken (a : Attempt) (w : Wire) (g : Grants)
    (limits : ClientLimits) (offset : Nat) (dataB64 : String) :
    (a.chunkReceived w g limits offset dataB64).taken = 0
      ∨ (a.chunkReceived w g limits offset dataB64).valid = true := by
  unfold chunkReceived
  dsimp only
  repeat' split
  all_goals first | exact .inl rfl | exact .inr rfl

theorem apply_taken (w : Wire) (g : Grants) (limits : ClientLimits)
    (reply : HttpReply) (h : (a.apply w g limits reply).taken ≠ 0) :
    (∃ response offset dataB64, reply = .chunk response offset dataB64)
      ∧ (a.apply w g limits reply).valid = true := by
  cases reply with
  | chunk response offset dataB64 =>
    exact ⟨⟨response, offset, dataB64, rfl⟩,
      (chunkReceived_taken a w g limits offset dataB64).resolve_left h⟩
  | uploadReady id generation offset maxBytes =>
    refine absurd ?_ h
    show (a.uploadReady offset maxBytes).taken = 0
    unfold Attempt.uploadReady
    repeat' split
    all_goals rfl
  | head head =>
    refine absurd ?_ h
    show (a.headReceived g limits head).taken = 0
    unfold headReceived
    repeat' split
    all_goals rfl
  | allowanceRequired response encodedAtLeast knownLength =>
    refine absurd ?_ h
    show (a.allowance encodedAtLeast knownLength).taken = 0
    unfold Attempt.allowance
    repeat' split
    all_goals rfl
  | complete response encoded decoded =>
    refine absurd ?_ h
    show (a.completeReceived g limits encoded decoded).taken = 0
    unfold completeReceived
    repeat' split
    all_goals rfl
  | failure => exact absurd rfl h
  | commandRejected => exact absurd rfl h
  | cancelled => exact absurd rfl h

/-- The head is as it was, or dropped. -/
def HeadKept (a : Attempt) (o : Outcome) : Prop :=
  o.attempt.head = a.head ∨ o.attempt.head = none

theorem uploadReady_head (a : Attempt) (offset maxBytes : Nat) :
    HeadKept a (a.uploadReady offset maxBytes) := by
  unfold HeadKept Attempt.uploadReady
  repeat' split
  all_goals exact .inl rfl

theorem noticed_head (h : o.attempt.head = a.head) :
    HeadKept a (Attempt.noticed o) := by
  unfold HeadKept Attempt.noticed awaitUser dropSkipped
  dsimp only
  repeat' split
  all_goals first | exact .inl h | exact .inr rfl

theorem allowance_head (a : Attempt) (encodedAtLeast : Nat)
    (knownLength : Option Nat) :
    HeadKept a (a.allowance encodedAtLeast knownLength) := by
  have hkeep : HeadKept a (.keep a false) := .inl rfl
  unfold Attempt.allowance
  split
  · exact hkeep
  · split
    · exact hkeep
    · split
      · exact hkeep
      · split
        · split
          · exact hkeep
          · exact noticed_head rfl
        · exact noticed_head rfl

theorem chunkReceived_head (a : Attempt) (w : Wire) (g : Grants)
    (limits : ClientLimits) (offset : Nat) (dataB64 : String) :
    HeadKept a (a.chunkReceived w g limits offset dataB64) := by
  unfold HeadKept chunkReceived
  dsimp only
  repeat' split
  all_goals first | exact .inl rfl | exact .inr rfl

theorem completeReceived_head (a : Attempt) (g : Grants)
    (limits : ClientLimits) (encoded decoded : BodyIdentity) :
    HeadKept a (a.completeReceived g limits encoded decoded) := by
  unfold HeadKept completeReceived
  dsimp only
  repeat' split
  all_goals first | exact .inl rfl | exact .inr rfl

theorem headReceived_head (a : Attempt) (g : Grants)
    (limits : ClientLimits) (head : ResponseHead) :
    HeadKept a (a.headReceived g limits head)
      ∨ (a.headReceived g limits head).attempt.head = some head := by
  unfold HeadKept headReceived
  dsimp only
  repeat' split
  all_goals first | exact .inl (.inl rfl) | exact .inr rfl

/-- A head comes with its message only. -/
theorem apply_head (a : Attempt) (w : Wire) (g : Grants)
    (limits : ClientLimits) (reply : HttpReply) :
    HeadKept a (a.apply w g limits reply) ∨ ∃ head, reply = .head head
      ∧ (a.apply w g limits reply).attempt.head = some head := by
  cases reply with
  | head head =>
    exact (headReceived_head a g limits head).imp_right
      fun h => ⟨head, rfl, h⟩
  | failure => exact .inl (.inr rfl)
  | cancelled => exact .inl (.inr rfl)
  | commandRejected => exact .inl (.inl rfl)
  | uploadReady => exact .inl (uploadReady_head a _ _)
  | allowanceRequired => exact .inl (allowance_head a _ _)
  | chunk => exact .inl (chunkReceived_head a w g limits _ _)
  | complete => exact .inl (completeReceived_head a g limits _ _)

/-- What one message does to the attempt that it finds: it settles, and what
it takes is a chunk of its response. -/
structure Received (w : Wire) (a : Attempt) (reply : HttpReply)
    (o : Outcome) : Prop where
  settles : Settles a o
  live : a.terminal = false
  chunk : o.taken ≠ 0 → ∃ response offset dataB64,
    reply = .chunk response offset dataB64 ∧ a.response = some response
      ∧ Taken w a offset dataB64 o
  head : HeadKept a o
    ∨ ∃ head, reply = .head head ∧ o.attempt.head = some head

theorem receive_received {w : Wire} {g : Grants} {limits : ClientLimits}
    {key : DocumentKey} {reply : HttpReply} (h : a.Good)
    (ho : a.receive w g limits key reply = some o) : Received w a reply o := by
  have hfailed : a.terminal = false →
      Received w a reply (Outcome.keep a true).fail :=
    fun hlive => ⟨(Settles.refl h true).fail, hlive,
      fun ht => absurd rfl ht, .inl (.inr rfl)⟩
  unfold Attempt.receive at ho
  split at ho
  · cases ho
  split at ho
  · cases ho
  next hlive =>
  replace hlive : a.terminal = false := Bool.eq_false_iff.mpr hlive
  split at ho
  · cases ho
  next hresponse =>
  split at ho
  · cases ho
  split at ho
  · cases ho
    exact hfailed hlive
  split at ho
  · cases ho
  split at ho
  · split at ho
    · cases ho
      exact hfailed hlive
    · cases ho
  · next hcommand =>
    have hs := apply_settles w g limits h reply
    dsimp only at ho
    split at ho
    · next hvalid =>
      cases ho
      refine ⟨hs, hlive, fun ht => ?_, apply_head a w g limits reply⟩
      obtain ⟨⟨response, offset, dataB64, rfl⟩, -⟩ :=
        apply_taken w g limits reply ht
      have htaken :=
        (chunkReceived_settles w g limits h offset dataB64).2 hvalid
      refine ⟨response, offset, dataB64, rfl, ?_, htaken⟩
      obtain ⟨bytes, c, -, hcredit, -⟩ := htaken.bytes
      obtain ⟨head, hhead⟩ :=
        Option.isSome_iff_exists.mp (h.credited (by rw [hcredit]; rfl))
      simpa [Attempt.response, HttpReply.response, hhead] using hresponse
    · next hvalid =>
      cases ho
      refine ⟨hs.fail, hlive, fun ht => ?_, .inl (.inr rfl)⟩
      exact absurd (apply_taken w g limits reply ht).2 hvalid

end Tasty.Remote.Http
