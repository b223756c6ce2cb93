/-
What the lock sections of the approval store do, and what holds between them:
a waiter is listed while its record is pending and has the outcome in its
channel afterwards, and each change was given to one call.
-/
import Tasty.Approval.Store

namespace Tasty.Approval

open BTreeMap List Function

-- ==== records

/-- The entry that a terminal state was reached with. -/
def ApprovalState.Ends : ApprovalState → HistoryEntry → Prop
  | .pending, _ => False
  | .responded choice responder comment time, entry =>
    entry = ⟨time, "responded", some choice, some responder, comment⟩
  | .timedOut defaultChoice time, entry =>
    entry = ⟨time, "timed_out", defaultChoice, some .system, none⟩
  | .cancelled time, entry => entry = ⟨time, "cancelled", none, none, none⟩

/-- The history is the creation, and the end where there is one. -/
def ApprovalRecord.Sound (record : ApprovalRecord) : Prop :=
  let created : HistoryEntry :=
    ⟨record.request.createdAt, "created", none, none, none⟩
  (record.state = .pending ∧ record.history = [created])
    ∨ ∃ entry, record.state.Ends entry ∧ record.history = [created, entry]

/-- The kind of change that leads to a state. -/
def ApprovalState.kind : ApprovalState → ChangeKind
  | .pending => .created
  | .responded .. => .responded
  | .timedOut .. => .timedOut
  | .cancelled .. => .cancelled

variable {state : ApprovalState}

theorem terminalToOutcome_eq_none :
    terminalToOutcome state = none ↔ state = .pending := by
  cases state <;> simp [terminalToOutcome]

theorem isTerminal_eq_false : state.isTerminal = false ↔ state = .pending := by
  cases state <;> simp [ApprovalState.isTerminal]

theorem ends_responded (choice : String) (responder : Responder)
    (comment : Option String) (time : Nat) :
    (ApprovalState.responded choice responder comment time).Ends
      ⟨time, "responded", some choice, some responder, comment⟩ := rfl

theorem ends_timedOut (defaultChoice : Option String) (time : Nat) :
    (ApprovalState.timedOut defaultChoice time).Ends
      ⟨time, "timed_out", defaultChoice, some .system, none⟩ := rfl

theorem ends_cancelled (time : Nat) :
    (ApprovalState.cancelled time).Ends ⟨time, "cancelled", none, none, none⟩ :=
  rfl

variable {entry : HistoryEntry}

theorem ApprovalState.Ends.ne_pending
    (h : state.Ends entry) : state ≠ .pending := by
  intro hpending
  subst hpending
  exact h

-- ==== lock sections

/-- What a lock section that closes a record does. -/
structure Closes (g : Inner) (id : ApprovalId) (g' : Inner)
    (sent : List (Nat × WaitOutcome)) (change : StateChange) : Prop where
  decided : ∃ record state entry outcome, g.records[id]? = some record
    ∧ record.state = .pending ∧ state.Ends entry
    ∧ terminalToOutcome state = some outcome
    ∧ change = ⟨{ record with state, history := record.history ++ [entry] },
        state.kind⟩
    ∧ g' = ⟨g.records.insert id change.record, g.waiters.erase id⟩
    ∧ sent = (g.waiters[id]?.getD []).map fun tx => (tx, outcome)

namespace Inner

variable {g : Inner} {id : ApprovalId}

theorem close_closes {record : ApprovalRecord}
    (hrecord : g.records[id]? = some record)
    (hpending : record.state = .pending)
    (hends : state.Ends entry) {outcome : WaitOutcome}
    (houtcome : terminalToOutcome state = some outcome) :
    Closes g id (g.close id record state entry outcome).2.1
      (g.close id record state entry outcome).2.2
      ⟨(g.close id record state entry outcome).1, state.kind⟩ :=
  ⟨record, state, entry, outcome, hrecord, hpending, hends, houtcome, rfl, rfl,
    rfl⟩

theorem respond_cases (g : Inner) (id : ApprovalId) (choice : String) (responder : Responder)
    (comment : Option String) (now : Nat) :
    (∃ g' sent change,
        g.respond id choice responder comment now = (.ok change, g', sent)
        ∧ Closes g id g' sent change)
      ∨ ∃ e, g.respond id choice responder comment now = (.error e, g, []) := by
  unfold respond
  cases hrecord : g.records[id]? with
  | none => exact .inr ⟨_, rfl⟩
  | some record =>
    dsimp only
    split
    · exact .inr ⟨_, rfl⟩
    split
    · exact .inr ⟨_, rfl⟩
    split
    · exact .inr ⟨_, rfl⟩
    split
    · exact .inr ⟨_, rfl⟩
    · rename_i hstate _ _ _
      rw [Bool.not_eq_true, isTerminal_eq_false] at hstate
      exact .inl ⟨_, _, _, rfl, close_closes hrecord hstate
        (ends_responded choice responder comment now) rfl⟩

theorem cancel_cases (g : Inner) (id : ApprovalId) (now : Nat) :
    (∃ g' sent change, g.cancel id now = (.ok change, g', sent)
        ∧ Closes g id g' sent change)
      ∨ ∃ e, g.cancel id now = (.error e, g, []) := by
  unfold cancel
  cases hrecord : g.records[id]? with
  | none => exact .inr ⟨_, rfl⟩
  | some record =>
    dsimp only
    split
    · exact .inr ⟨_, rfl⟩
    · rename_i hstate
      rw [Bool.not_eq_true, isTerminal_eq_false] at hstate
      exact .inl ⟨_, _, _, rfl,
        close_closes hrecord hstate (ends_cancelled now) rfl⟩

/-- A wait whose time is over finds the decision, or makes it. -/
theorem expire_cases {record : ApprovalRecord}
    (hrecord : g.records[id]? = some record) (now : Nat) :
    (∃ g' sent change outcome,
        g.expire id now = (⟨outcome, some change⟩, g', sent)
        ∧ Closes g id g' sent change
        ∧ terminalToOutcome change.record.state = some outcome)
      ∨ ∃ outcome, terminalToOutcome record.state = some outcome
        ∧ g.expire id now = (⟨outcome, none⟩, g, []) := by
  unfold expire
  rw [hrecord]
  dsimp only
  cases houtcome : terminalToOutcome record.state with
  | some outcome => exact .inr ⟨outcome, rfl, rfl⟩
  | none =>
    have hpending := terminalToOutcome_eq_none.1 houtcome
    exact .inl ⟨_, _, _, _, rfl,
      close_closes hrecord hpending (ends_timedOut _ now) rfl, rfl⟩

theorem request_cases (request : ApprovalRequest) (now : Nat) :
    (∃ record, g.records[record.request.id]? = none ∧ record = .new record.request
        ∧ g.request request now = (.ok ⟨record, .created⟩,
          { g with records := g.records.insert record.request.id record }))
      ∨ ∃ e, g.request request now = (.error e, g) := by
  unfold Inner.request
  split
  · exact .inr ⟨_, rfl⟩
  dsimp only
  split
  · exact .inr ⟨_, rfl⟩
  split
  · exact .inr ⟨_, rfl⟩
  · rename_i hnew
    refine .inl ⟨.new (completed request now), ?_, rfl, rfl⟩
    rw [Std.ExtTreeMap.contains_eq_isSome_getElem?, Bool.not_eq_true,
      Option.isSome_eq_false_iff, Option.isNone_iff_eq_none] at hnew
    exact hnew

end Inner

variable {id : ApprovalId} {sent : List (Nat × WaitOutcome)}

theorem Closes.record {g g' : Inner} {change : StateChange}
    (h : Closes g id g' sent change) : g'.records[id]? = some change.record := by
  obtain ⟨record, state, entry, outcome, -, -, -, -, -, rfl, -⟩ := h.decided
  exact (get_insert _ _ _ _).trans (if_pos rfl)

-- ==== the invariant

/-- The change that a call was given. -/
def Call.change : Call → Option StateChange
  | .changed (.ok change) => some change
  | .awaited _ (.ok a) => a.change
  | _ => none

namespace World

/-- What is known of a call by where it stands. -/
def Stands (w : World) : Call → Prop
  | .waiting id rx _ => ∃ record, w.inner.records[id]? = some record
      ∧ ((record.state = .pending ∧ w.queues rx = none
          ∧ ∃ waiters, w.inner.waiters[id]? = some waiters ∧ rx ∈ waiters)
        ∨ ∃ outcome, terminalToOutcome record.state = some outcome
          ∧ w.queues rx = some outcome)
  | .late id => ∃ record, w.inner.records[id]? = some record
  | .awaited id (.ok a) => ∃ record, w.inner.records[id]? = some record
      ∧ terminalToOutcome record.state = some a.outcome
  | .awaited id (.error e) => e = .notFound id
  | _ => True

/-- A change tells of the record as it was made, or as it is since. -/
def Told (w : World) (change : StateChange) : Prop :=
  ∃ record, w.inner.records[change.record.request.id]? = some record
    ∧ (change.kind = .created ∧ change.record = .new record.request
      ∨ change.kind ≠ .created ∧ change.record = record
        ∧ change.kind = record.state.kind)

/-- Call `c` was given a change of `id` of which `P` holds. -/
def Gets (calls : Nat → Call) (id : ApprovalId) (P : ChangeKind → Prop)
    (c : Nat) : Prop :=
  ∃ change, (calls c).change = some change ∧ change.record.request.id = id
    ∧ P change.kind

/-- What holds whatever the order of the steps. -/
structure Inv (w : World) : Prop where
  keyed : ∀ (id : ApprovalId) (record : ApprovalRecord),
    w.inner.records[id]? = some record → record.request.id = id
  sound : ∀ (id : ApprovalId) (record : ApprovalRecord),
    w.inner.records[id]? = some record → record.Sound
  waits : ∀ (id : ApprovalId) (waiters : List Nat),
    w.inner.waiters[id]? = some waiters →
    (∃ record, w.inner.records[id]? = some record ∧ record.state = .pending)
      ∧ ∀ rx ∈ waiters, rx < w.channels ∧ w.queues rx = none
  apart : ∀ (id id' : ApprovalId) (waiters waiters' : List Nat) (rx : Nat),
    w.inner.waiters[id]? = some waiters →
    w.inner.waiters[id']? = some waiters' → rx ∈ waiters → rx ∈ waiters' →
    id = id'
  fresh : ∀ rx, w.channels ≤ rx → w.queues rx = none
  stands : ∀ c, w.Stands (w.calls c)
  told : ∀ c change, (w.calls c).change = some change → w.Told change
  created : ∀ (id : ApprovalId) (record : ApprovalRecord),
    w.inner.records[id]? = some record → ∃! c, Gets w.calls id (· = .created) c
  decided : ∀ (id : ApprovalId) (record : ApprovalRecord),
    w.inner.records[id]? = some record → record.state ≠ .pending →
    ∃! c, Gets w.calls id (· ≠ .created) c

variable {w : World} {c : Nat} {standing : Call}

-- ==== single changes

variable {calls : Nat → Call}

theorem forall_after {P : Call → Prop} (hc : P standing)
    (h : ∀ c', P (calls c')) (c' : Nat) :
    P (Function.update calls c standing c') :=
  (forall_update_iff calls fun _ => P).2 ⟨hc, fun c' _ => h c'⟩ c'

/-- The change that a call was given is told of. -/
def Tells (w : World) (call : Call) : Prop :=
  ∀ change, call.change = some change → w.Told change

theorem tells_of_none (h : standing.change = none) : w.Tells standing := by
  intro change hchange
  rw [h] at hchange
  cases hchange

variable {P : ChangeKind → Prop}

theorem gets_update_other (hbefore : (calls c).change = none)
    (hafter : ∀ change, standing.change = some change →
      change.record.request.id = id → ¬ P change.kind) (c' : Nat) :
    Gets (Function.update calls c standing) id P c' ↔ Gets calls id P c' := by
  unfold Gets
  by_cases hc : c' = c
  · subst hc
    rw [update_self, hbefore]
    constructor
    · intro h
      obtain ⟨change, hchange, hid, hP⟩ := h
      exact absurd hP (hafter change hchange hid)
    · intro h
      obtain ⟨change, hchange, -⟩ := h
      cases hchange
  · rw [update_of_ne hc]

theorem gets_update_self (change : StateChange)
    (hchange : standing.change = some change)
    (hid : change.record.request.id = id) (hP : P change.kind)
    (hnone : ∀ c', ¬ Gets calls id P c') :
    ∃! c', Gets (Function.update calls c standing) id P c' := by
  refine ⟨c, ⟨change, ?_, hid, hP⟩, fun c' hc' => ?_⟩
  · rw [update_self]
    exact hchange
  · by_contra hne
    obtain ⟨other, hother, hrest⟩ := hc'
    rw [update_of_ne hne] at hother
    exact hnone c' ⟨other, hother, hrest⟩

theorem existsUnique_gets_update
    (hbefore : (calls c).change = none) (h : ∃! c', Gets calls id P c')
    (hafter : ∀ change, standing.change = some change →
      change.record.request.id = id → ¬ P change.kind) :
    ∃! c', Gets (Function.update calls c standing) id P c' :=
  (existsUnique_congr fun c' => gets_update_other hbefore hafter c').2 h

theorem existsUnique_gets_quiet
    (hbefore : (calls c).change = none) (hafter : standing.change = none)
    (h : ∃! c', Gets calls id P c') :
    ∃! c', Gets (Function.update calls c standing) id P c' := by
  refine existsUnique_gets_update hbefore h fun change hchange => ?_
  rw [hafter] at hchange
  cases hchange

/-- What is known of a call but for a wait only needs the records to stay and
to keep their decisions. -/
theorem Stands.kept {w' : World} {call : Call} (h : w.Stands call)
    (hrecords : ∀ (id : ApprovalId) (record : ApprovalRecord),
      w.inner.records[id]? = some record →
      ∃ record', w'.inner.records[id]? = some record'
        ∧ ∀ outcome, terminalToOutcome record.state = some outcome →
          terminalToOutcome record'.state = some outcome)
    (hwaiting : ∀ id rx timeout, w.Stands (.waiting id rx timeout) →
      w'.Stands (.waiting id rx timeout)) : w'.Stands call := by
  cases call with
  | idle => trivial
  | waiting id rx timeout => exact hwaiting id rx timeout h
  | late id =>
    obtain ⟨record, hrecord⟩ := h
    obtain ⟨record', hrecord', -⟩ := hrecords id record hrecord
    exact ⟨record', hrecord'⟩
  | changed answer => trivial
  | awaited id answer =>
    cases answer with
    | error e => exact h
    | ok a =>
      obtain ⟨record, hrecord, houtcome⟩ := h
      obtain ⟨record', hrecord', hkept⟩ := hrecords id record hrecord
      exact ⟨record', hrecord', hkept a.outcome houtcome⟩

theorem mem_getD_nil {found : Option (List Nat)} {rx : Nat}
    (h : rx ∈ found.getD []) : ∃ waiters, found = some waiters ∧ rx ∈ waiters := by
  cases found with
  | none => cases h
  | some waiters => exact ⟨waiters, rfl, h⟩

theorem Inv.quiet (h : w.Inv) (hbefore : (w.calls c).change = none)
    (hafter : standing.change = none) (hstands : w.Stands standing) :
    (w.after c w.inner [] standing).Inv where
  keyed := h.keyed
  sound := h.sound
  waits := h.waits
  apart := h.apart
  fresh := h.fresh
  stands := forall_after hstands fun c' => h.stands c'
  told := forall_after (P := w.Tells) (tells_of_none hafter) h.told
  created id record hrecord :=
    existsUnique_gets_quiet hbefore hafter (h.created id record hrecord)
  decided id record hrecord hstate :=
    existsUnique_gets_quiet hbefore hafter (h.decided id record hrecord hstate)

theorem Inv.create (h : w.Inv) (hbefore : (w.calls c).change = none)
    {record : ApprovalRecord}
    (hnew : w.inner.records[record.request.id]? = none)
    (hrecord : record = .new record.request) :
    (w.after c { w.inner with
        records := w.inner.records.insert record.request.id record } []
      (.changed (.ok ⟨record, .created⟩))).Inv := by
  have hold : ∀ {id : ApprovalId} {old : ApprovalRecord},
      w.inner.records[id]? = some old →
      (w.inner.records.insert record.request.id record)[id]? = some old := by
    intro id old hid
    rw [get_insert, if_neg fun heq => by rw [heq, hid] at hnew; cases hnew]
    exact hid
  have hpending : record.state = .pending := by
    rw [hrecord]
    rfl
  -- nobody was told of the id before
  have hnone : ∀ (P : ChangeKind → Prop) c',
      ¬ Gets w.calls record.request.id P c' := by
    intro P c' hgets
    obtain ⟨change, hchange, hid, -⟩ := hgets
    obtain ⟨old, hold, -⟩ := h.told c' change hchange
    rw [hid, hnew] at hold
    cases hold
  constructor
  · intro id other hother
    obtain ⟨hid, rfl⟩ | ⟨-, hother⟩ := of_get_insert hother
    · exact hid
    · exact h.keyed id other hother
  · intro id other hother
    obtain ⟨-, rfl⟩ | ⟨-, hother⟩ := of_get_insert hother
    · refine .inl ⟨hpending, ?_⟩
      rw [hrecord]
      rfl
    · exact h.sound id other hother
  · intro id waiters hwaiters
    obtain ⟨⟨old, hid, hstate⟩, hqueues⟩ := h.waits id waiters hwaiters
    exact ⟨⟨old, hold hid, hstate⟩, hqueues⟩
  · exact h.apart
  · exact h.fresh
  · refine forall_after trivial fun c' => ?_
    refine (h.stands c').kept
      (fun id old hid => ⟨old, hold hid, fun _ houtcome => houtcome⟩) ?_
    intro id rx timeout hstands
    obtain ⟨old, hid, hrest⟩ := hstands
    exact ⟨old, hold hid, hrest⟩
  · refine forall_after (P := World.Tells _) (fun change hchange => ?_)
      fun c' change hchange => ?_
    · cases hchange
      exact ⟨record, (get_insert _ _ _ _).trans (if_pos rfl),
        .inl ⟨rfl, hrecord⟩⟩
    · obtain ⟨old, hid, hrest⟩ := h.told c' change hchange
      exact ⟨old, hold hid, hrest⟩
  · intro id other hother
    obtain ⟨hid, -⟩ | ⟨hid, hother⟩ := of_get_insert hother
    · exact gets_update_self ⟨record, .created⟩ rfl hid rfl
        (hid ▸ hnone _)
    · refine existsUnique_gets_update hbefore (h.created id other hother) ?_
      intro change hchange hsame
      cases hchange
      exact absurd hsame hid
  · intro id other hother hstate
    obtain ⟨-, rfl⟩ | ⟨hid, hother⟩ := of_get_insert hother
    · exact absurd hpending hstate
    · refine existsUnique_gets_update hbefore
        (h.decided id other hother hstate) ?_
      intro change hchange hsame
      cases hchange
      exact absurd hsame hid

theorem Inv.register (h : w.Inv) (hbefore : (w.calls c).change = none)
    {record : ApprovalRecord} (hrecord : w.inner.records[id]? = some record)
    (hpending : record.state = .pending) (timeout : Option Nat) :
    World.Inv
      { w.after c
          { w.inner with
            waiters := w.inner.waiters.insert id
              (w.inner.waiters[id]?.getD [] ++ [w.channels]) } []
          (.waiting id w.channels timeout) with
        channels := w.channels + 1 } := by
  have hqueue := h.fresh w.channels (Nat.le_refl _)
  -- who waits for the id already, and the new channel
  have hmem : ∀ {id' : ApprovalId} {waiters : List Nat} {rx : Nat},
      (w.inner.waiters.insert id
        (w.inner.waiters[id]?.getD [] ++ [w.channels]))[id']? = some waiters →
      rx ∈ waiters → (id' = id ∧ rx = w.channels)
        ∨ ∃ old, w.inner.waiters[id']? = some old ∧ rx ∈ old := by
    intro id' waiters rx hwaiters hrx
    obtain ⟨rfl, rfl⟩ | ⟨-, hwaiters⟩ := of_get_insert hwaiters
    · rcases mem_append.1 hrx with hrx | hrx
      · exact .inr (mem_getD_nil hrx)
      · exact .inl ⟨rfl, mem_singleton.1 hrx⟩
    · exact .inr ⟨waiters, hwaiters, hrx⟩
  constructor
  · exact h.keyed
  · exact h.sound
  · intro id' waiters hwaiters
    constructor
    · obtain ⟨rfl, -⟩ | ⟨-, hwaiters⟩ := of_get_insert hwaiters
      · exact ⟨record, hrecord, hpending⟩
      · exact (h.waits id' waiters hwaiters).1
    · intro rx hrx
      rcases hmem hwaiters hrx with ⟨-, rfl⟩ | ⟨old, hold, hrx⟩
      · exact ⟨Nat.lt_succ_self _, hqueue⟩
      · obtain ⟨hlt, hnone⟩ := (h.waits id' old hold).2 rx hrx
        exact ⟨Nat.lt_succ_of_lt hlt, hnone⟩
  · intro id₁ id₂ waiters₁ waiters₂ rx h₁ h₂ hrx₁ hrx₂
    rcases hmem h₁ hrx₁ with ⟨hid₁, hnew₁⟩ | ⟨old₁, hold₁, hrx₁⟩
    · rcases hmem h₂ hrx₂ with ⟨hid₂, -⟩ | ⟨old₂, hold₂, hrx₂⟩
      · rw [hid₁, hid₂]
      · have hlt := ((h.waits id₂ old₂ hold₂).2 rx hrx₂).1
        omega
    · rcases hmem h₂ hrx₂ with ⟨-, hnew₂⟩ | ⟨old₂, hold₂, hrx₂⟩
      · have hlt := ((h.waits id₁ old₁ hold₁).2 rx hrx₁).1
        omega
      · exact h.apart id₁ id₂ old₁ old₂ rx hold₁ hold₂ hrx₁ hrx₂
  · intro rx hrx
    exact h.fresh rx (Nat.le_of_succ_le hrx)
  · refine forall_after ?_ fun c' => ?_
    · exact ⟨record, hrecord, .inl ⟨hpending, hqueue, _,
        (get_insert _ _ _ _).trans (if_pos rfl),
        mem_append_right _ mem_cons_self⟩⟩
    · refine (h.stands c').kept
        (fun id old hid => ⟨old, hid, fun _ houtcome => houtcome⟩) ?_
      intro id' rx timeout' hstands
      obtain ⟨old, hid, hrest⟩ := hstands
      refine ⟨old, hid, ?_⟩
      rcases hrest with ⟨hstate, hnone, waiters, hwaiters, hrx⟩ | hdone
      · refine .inl ⟨hstate, hnone, ?_⟩
        by_cases hsame : id = id'
        · subst hsame
          refine ⟨_, (get_insert _ _ _ _).trans (if_pos rfl), ?_⟩
          rw [hwaiters]
          exact mem_append_left _ hrx
        · exact ⟨waiters, (get_insert _ _ _ _).trans
            ((if_neg hsame).trans hwaiters), hrx⟩
      · exact .inr hdone
  · exact forall_after (P := w.Tells) (tells_of_none rfl) h.told
  · intro id' other hother
    exact existsUnique_gets_quiet hbefore rfl (h.created id' other hother)
  · intro id' other hother hstate
    exact existsUnique_gets_quiet hbefore rfl
      (h.decided id' other hother hstate)

/-- Each empty channel among those notified gets the message. -/
theorem foldl_notify (outcome : WaitOutcome) (waiters : List Nat)
    (queues : Nat → Option WaitOutcome) (rx : Nat) :
    ((waiters.map fun tx => (tx, outcome)).foldl notify queues) rx
      = if rx ∈ waiters ∧ queues rx = none then some outcome
        else queues rx := by
  induction waiters generalizing queues with
  | nil => simp
  | cons tx waiters ih =>
    rw [map_cons, foldl_cons, ih]
    unfold notify
    dsimp only
    by_cases hempty : queues tx = none
    · rw [if_pos hempty]
      by_cases hrx : rx = tx
      · subst hrx
        simp [hempty]
      · simp [hrx]
    · rw [if_neg hempty]
      by_cases hrx : rx = tx
      · subst hrx
        simp [hempty]
      · simp [hrx]

theorem Inv.close (h : w.Inv) (hbefore : (w.calls c).change = none) {g' : Inner}
    {change : StateChange} (hcloses : Closes w.inner id g' sent change)
    (hchange : standing.change = some change)
    (hstanding : (w.after c g' sent standing).Stands standing) :
    (w.after c g' sent standing).Inv := by
  obtain ⟨record, state, entry, outcome, hrecord, hpending, hends, houtcome,
    rfl, rfl, rfl⟩ := hcloses.decided
  have hgetRecord : ∀ id' : ApprovalId, (w.inner.records.insert id
      { record with state, history := record.history ++ [entry] })[id']?
        = if id = id' then
            some { record with state, history := record.history ++ [entry] }
          else w.inner.records[id']? := fun id' => get_insert _ _ id' _
  have hgetWaiters : ∀ id' : ApprovalId, (w.inner.waiters.erase id)[id']?
      = if id = id' then none else w.inner.waiters[id']? :=
    fun id' => get_erase _ _ id'
  have hkey : record.request.id = id := h.keyed id record hrecord
  have hkind : state.kind ≠ .created := by
    have hstate := hends.ne_pending
    cases state <;> simp_all [ApprovalState.kind]
  have hqueue := foldl_notify outcome (w.inner.waiters[id]?.getD []) w.queues
  have hapart : ∀ {id' : ApprovalId} {waiters : List Nat} {rx : Nat},
      id ≠ id' → w.inner.waiters[id']? = some waiters → rx ∈ waiters →
      rx ∉ w.inner.waiters[id]?.getD [] := by
    intro id' waiters rx hid hwaiters hrx hamong
    obtain ⟨others, hothers, hrx'⟩ := mem_getD_nil hamong
    exact hid (h.apart id id' others waiters rx hothers hwaiters hrx' hrx)
  -- so far nobody was told of a decision
  have hundecided : ∀ c', ¬ Gets w.calls id (· ≠ .created) c' := by
    intro c' hgets
    obtain ⟨told, htold, hid, hdecides⟩ := hgets
    obtain ⟨old, hold, hrest⟩ := h.told c' told htold
    rw [hid, hrecord] at hold
    cases hold
    rcases hrest with ⟨hcreated, -⟩ | ⟨-, -, hsame⟩
    · exact hdecides hcreated
    · rw [hpending] at hsame
      exact hdecides hsame
  constructor
  · intro id' other hother
    obtain ⟨hid, rfl⟩ | ⟨-, hother⟩ := of_get_insert hother
    · exact hkey.trans hid
    · exact h.keyed id' other hother
  · intro id' other hother
    obtain ⟨-, rfl⟩ | ⟨-, hother⟩ := of_get_insert hother
    · rcases h.sound id record hrecord with ⟨-, hhistory⟩ | ⟨_, hended, -⟩
      · refine .inr ⟨entry, hends, ?_⟩
        dsimp only
        rw [hhistory]
        rfl
      · exact absurd hpending hended.ne_pending
    · exact h.sound id' other hother
  · intro id' waiters hwaiters
    have hwaiters := (hgetWaiters id').symm.trans hwaiters
    split at hwaiters
    · cases hwaiters
    · rename_i hid
      obtain ⟨⟨old, hold, hstate⟩, hqueues⟩ := h.waits id' waiters hwaiters
      refine ⟨⟨old, (hgetRecord id').trans ((if_neg hid).trans hold), hstate⟩,
        fun rx hrx => ?_⟩
      obtain ⟨hlt, hnone⟩ := hqueues rx hrx
      refine ⟨hlt, (hqueue rx).trans ?_⟩
      rw [if_neg fun hboth => hapart hid hwaiters hrx hboth.1, hnone]
  · intro id₁ id₂ waiters₁ waiters₂ rx h₁ h₂ hrx₁ hrx₂
    have h₁ := (hgetWaiters id₁).symm.trans h₁
    have h₂ := (hgetWaiters id₂).symm.trans h₂
    split at h₁
    · cases h₁
    split at h₂
    · cases h₂
    exact h.apart id₁ id₂ waiters₁ waiters₂ rx h₁ h₂ hrx₁ hrx₂
  · intro rx hrx
    refine (hqueue rx).trans ?_
    rw [if_neg, h.fresh rx hrx]
    intro hboth
    obtain ⟨waiters, hwaiters, hmem⟩ := mem_getD_nil hboth.1
    exact absurd ((h.waits id waiters hwaiters).2 rx hmem).1 (Nat.not_lt.2 hrx)
  · refine forall_after hstanding fun c' => ?_
    · refine (h.stands c').kept ?_ ?_
      · intro id' old hold
        by_cases hid : id = id'
        · subst hid
          refine ⟨_, (hgetRecord id).trans (if_pos rfl), fun o ho => ?_⟩
          rw [hrecord] at hold
          cases hold
          rw [hpending] at ho
          cases ho
        · exact ⟨old, (hgetRecord id').trans ((if_neg hid).trans hold),
            fun _ ho => ho⟩
      · intro id' rx timeout hstands
        obtain ⟨old, hold, hrest⟩ := hstands
        by_cases hid : id = id'
        · -- the waiters of the record get its outcome
          subst hid
          rw [hrecord] at hold
          cases hold
          refine ⟨_, (hgetRecord id).trans (if_pos rfl),
            .inr ⟨outcome, houtcome, (hqueue rx).trans ?_⟩⟩
          rcases hrest with ⟨-, hnone, waiters, hwaiters, hrx⟩ | ⟨o, ho, -⟩
          · rw [hwaiters]
            exact if_pos ⟨hrx, hnone⟩
          · rw [hpending] at ho
            cases ho
        · refine ⟨old, (hgetRecord id').trans ((if_neg hid).trans hold), ?_⟩
          rcases hrest with ⟨hstate, hnone, waiters, hwaiters, hrx⟩
            | ⟨o, ho, hsome⟩
          · refine .inl ⟨hstate, (hqueue rx).trans ?_, waiters,
              (hgetWaiters id').trans ((if_neg hid).trans hwaiters), hrx⟩
            rw [if_neg fun hboth => hapart hid hwaiters hrx hboth.1, hnone]
          · refine .inr ⟨o, ho, (hqueue rx).trans ?_⟩
            rw [if_neg, hsome]
            intro hboth
            rw [hsome] at hboth
            cases hboth.2
  · refine forall_after (P := World.Tells _) (fun told htold => ?_)
      fun c' told htold => ?_
    · rw [hchange] at htold
      cases htold
      exact ⟨_, (hgetRecord _).trans (if_pos hkey.symm), .inr ⟨hkind, rfl, rfl⟩⟩
    · obtain ⟨old, hold, hrest⟩ := h.told c' told htold
      by_cases hid : id = told.record.request.id
      · rw [← hid, hrecord] at hold
        cases hold
        refine ⟨_, (hgetRecord _).trans (if_pos hid), ?_⟩
        rcases hrest with ⟨hcreated, hsame⟩ | ⟨hdecides, -, -⟩
        · exact .inl ⟨hcreated, hsame⟩
        · exact absurd ⟨told, htold, hid.symm, hdecides⟩ (hundecided c')
      · exact ⟨old, (hgetRecord _).trans ((if_neg hid).trans hold), hrest⟩
  · intro id' other hother
    have hcreated : ∃! c, Gets w.calls id' (· = .created) c := by
      obtain ⟨rfl, -⟩ | ⟨-, hother⟩ := of_get_insert hother
      · exact h.created id record hrecord
      · exact h.created id' other hother
    refine existsUnique_gets_update hbefore hcreated fun told htold _ => ?_
    rw [hchange] at htold
    cases htold
    exact hkind
  · intro id' other hother hstate
    obtain ⟨hid, -⟩ | ⟨hid, hother⟩ := of_get_insert hother
    · exact gets_update_self _ hchange (hkey.trans hid) hkind (hid ▸ hundecided)
    · refine existsUnique_gets_update hbefore
        (h.decided id' other hother hstate) fun told htold hsame => ?_
      rw [hchange] at htold
      cases htold
      exact absurd (hkey.symm.trans hsame) hid

end World

end Tasty.Approval
