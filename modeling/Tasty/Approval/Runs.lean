/-
Over every interleaving of requests, responses, cancellations and waits: a
record is decided once, whoever waits for it is told that decision, and one
caller is given each change.
-/
import Tasty.Approval.Changes

namespace Tasty.Approval

open Function

variable {w' : World} {id : ApprovalId} {record : ApprovalRecord}

namespace World

variable {w : World} {c : Nat}

-- ==== steps

/-- What a step of call `c` can do: it moves on and nothing else changes, it
adds a record, it goes among the waiters, or it closes a record. -/
inductive Moves (w : World) (c : Nat) : World → Prop where
  | quiet {standing : Call} (hafter : standing.change = none)
      (hstands : w.Stands standing)
      (hunknown : ∀ id e, standing = .awaited id (.error e) →
        w.inner.records[id]? = none) :
      Moves w c (w.after c w.inner [] standing)
  | create {record : ApprovalRecord}
      (hnew : w.inner.records[record.request.id]? = none)
      (hrecord : record = .new record.request) :
      Moves w c (w.after c
        { w.inner with
          records := w.inner.records.insert record.request.id record } []
        (.changed (.ok ⟨record, .created⟩)))
  | register {id : ApprovalId} {record : ApprovalRecord}
      (hrecord : w.inner.records[id]? = some record)
      (hpending : record.state = .pending) (timeout : Option Nat) :
      Moves w c
        { w.after c
            { w.inner with
              waiters := w.inner.waiters.insert id
                (w.inner.waiters[id]?.getD [] ++ [w.channels]) } []
            (.waiting id w.channels timeout) with
          channels := w.channels + 1 }
  | close {id : ApprovalId} {g' : Inner} {sent : List (Nat × WaitOutcome)}
      {change : StateChange} {standing : Call}
      (hcloses : Closes w.inner id g' sent change)
      (hchange : standing.change = some change)
      (hstanding : (w.after c g' sent standing).Stands standing) :
      Moves w c (w.after c g' sent standing)

variable {event : Event}

theorem Inv.stands_of (h : w.Inv) {call : Call} (hcall : w.calls c = call) :
    w.Stands call :=
  hcall ▸ h.stands c

theorem Inv.step_cases (h : w.Inv) (hstep : w.step event = some w') :
    ∃ c, (w.calls c).change = none ∧ Moves w c w' := by
  cases event with
  | request c request now =>
    dsimp only [step] at hstep
    split at hstep
    case h_2 => cases hstep
    rename_i hcall
    refine ⟨c, by rw [hcall]; rfl, ?_⟩
    rcases Inner.request_cases (g := w.inner) request now with
      ⟨record, hnew, hrecord, heq⟩ | ⟨e, heq⟩
    · rw [heq] at hstep
      cases hstep
      exact .create hnew hrecord
    · rw [heq] at hstep
      cases hstep
      exact .quiet rfl trivial nofun
  | respond c id choice responder comment now =>
    dsimp only [step] at hstep
    split at hstep
    case h_2 => cases hstep
    rename_i hcall
    refine ⟨c, by rw [hcall]; rfl, ?_⟩
    rcases Inner.respond_cases w.inner id choice responder comment now
      with ⟨g', sent, change, heq, hcloses⟩ | ⟨e, heq⟩
    · rw [heq] at hstep
      cases hstep
      exact .close hcloses rfl trivial
    · rw [heq] at hstep
      cases hstep
      exact .quiet rfl trivial nofun
  | cancel c id now =>
    dsimp only [step] at hstep
    split at hstep
    case h_2 => cases hstep
    rename_i hcall
    refine ⟨c, by rw [hcall]; rfl, ?_⟩
    rcases Inner.cancel_cases w.inner id now with
      ⟨g', sent, change, heq, hcloses⟩ | ⟨e, heq⟩
    · rw [heq] at hstep
      cases hstep
      exact .close hcloses rfl trivial
    · rw [heq] at hstep
      cases hstep
      exact .quiet rfl trivial nofun
  | await c id timeout =>
    dsimp only [step] at hstep
    split at hstep
    case h_2 => cases hstep
    rename_i hcall
    refine ⟨c, by rw [hcall]; rfl, ?_⟩
    unfold Inner.register at hstep
    cases hrecord : w.inner.records[id]? with
    | none =>
      rw [hrecord] at hstep
      cases hstep
      refine .quiet rfl rfl fun id' e heq => ?_
      cases heq
      exact hrecord
    | some record =>
      rw [hrecord] at hstep
      dsimp only at hstep
      cases houtcome : terminalToOutcome record.state with
      | some outcome =>
        rw [houtcome] at hstep
        cases hstep
        exact .quiet rfl ⟨record, hrecord, houtcome⟩ nofun
      | none =>
        rw [houtcome] at hstep
        cases hstep
        exact .register hrecord (terminalToOutcome_eq_none.1 houtcome)
          timeout
  | receive c =>
    dsimp only [step] at hstep
    split at hstep
    case h_2 => cases hstep
    rename_i id rx timeout hcall
    obtain ⟨outcome, hqueue, rfl⟩ := Option.map_eq_some_iff.1 hstep
    refine ⟨c, by rw [hcall]; rfl, .quiet rfl ?_ nofun⟩
    obtain ⟨record, hrecord, ⟨-, hnone, -⟩ | ⟨o, ho, hsome⟩⟩ := h.stands_of hcall
    · rw [hnone] at hqueue
      cases hqueue
    · rw [hsome] at hqueue
      cases hqueue
      exact ⟨record, hrecord, ho⟩
  | disconnect c =>
    dsimp only [step] at hstep
    split at hstep
    case h_2 => cases hstep
    rename_i id rx timeout hcall
    split at hstep
    · -- a sender stays with the waiters until it has sent
      rename_i hlost
      obtain ⟨record, hrecord, ⟨-, -, waiters, hwaiters, hrx⟩ | ⟨o, -, hsome⟩⟩ :=
        h.stands_of hcall
      · refine absurd ((BTreeMap.anyValue_iff _ _).2
          ⟨id, waiters, hwaiters, ?_⟩) hlost.2
        exact List.contains_iff_mem.2 hrx
      · rw [hsome] at hlost
        cases hlost.1
    · cases hstep
  | timeout c =>
    dsimp only [step] at hstep
    split at hstep
    case h_2 => cases hstep
    rename_i id rx ms hcall
    refine ⟨c, by rw [hcall]; rfl, ?_⟩
    obtain ⟨record, hrecord, -⟩ := h.stands_of hcall
    cases hstep
    exact .quiet rfl ⟨record, hrecord⟩ nofun
  | expire c now =>
    dsimp only [step] at hstep
    split at hstep
    case h_2 => cases hstep
    rename_i id hcall
    refine ⟨c, by rw [hcall]; rfl, ?_⟩
    obtain ⟨record, hrecord⟩ := h.stands_of hcall
    rcases Inner.expire_cases hrecord now with
      ⟨g', sent, change, outcome, heq, hcloses, houtcome⟩
      | ⟨outcome, houtcome, heq⟩
    · rw [heq] at hstep
      cases hstep
      exact .close hcloses rfl ⟨change.record, hcloses.record, houtcome⟩
    · rw [heq] at hstep
      cases hstep
      exact .quiet rfl ⟨record, hrecord, houtcome⟩ nofun

theorem Inv.move (h : w.Inv) (hbefore : (w.calls c).change = none)
    (hmoves : Moves w c w') : w'.Inv := by
  cases hmoves with
  | quiet hafter hstands _ => exact h.quiet hbefore hafter hstands
  | create hnew hrecord => exact h.create hbefore hnew hrecord
  | register hrecord hpending timeout =>
    exact h.register hbefore hrecord hpending timeout
  | close hcloses hchange hstanding =>
    exact h.close hbefore hcloses hchange hstanding

-- ==== runs

theorem inv_new : new.Inv := by
  have hrecords : ∀ {P : ApprovalId → ApprovalRecord → Prop} (id : ApprovalId)
      (record : ApprovalRecord), new.inner.records[id]? = some record →
      P id record := by
    intro P id record hrecord
    have hempty : new.inner.records[id]? = none := Std.ExtTreeMap.getElem?_empty
    rw [hempty] at hrecord
    cases hrecord
  have hwaiters : ∀ {P : ApprovalId → List Nat → Prop} (id : ApprovalId)
      (waiters : List Nat), new.inner.waiters[id]? = some waiters →
      P id waiters := by
    intro P id waiters hwaiting
    have hempty : new.inner.waiters[id]? = none := Std.ExtTreeMap.getElem?_empty
    rw [hempty] at hwaiting
    cases hwaiting
  exact
    { keyed := hrecords
      sound := hrecords
      waits := hwaiters
      apart := fun id id' waiters waiters' rx h _ _ _ =>
        hwaiters (P := fun _ _ => id = id') id waiters h
      fresh := fun _ _ => rfl
      stands := fun _ => trivial
      told := nofun
      created := hrecords
      decided := hrecords }

theorem Inv.step (h : w.Inv) {w' : World} (hstep : w.step event = some w') : w'.Inv := by
  obtain ⟨c, hbefore, hmoves⟩ := h.step_cases hstep
  exact h.move hbefore hmoves

theorem Inv.run {events : List Event} {w w' : World} (h : w.Inv)
    (hrun : w.run events = some w') : w'.Inv := by
  induction events generalizing w with
  | nil =>
    cases hrun
    exact h
  | cons event events ih =>
    obtain ⟨next, hstep, hrest⟩ := Option.bind_eq_some_iff.1 hrun
    exact ih (h.step hstep) hrest

/-- Every record stays as it is, or was pending and is decided. -/
def Later (w w' : World) : Prop :=
  ∀ (id : ApprovalId) (record : ApprovalRecord),
    w.inner.records[id]? = some record →
    ∃ record', w'.inner.records[id]? = some record'
      ∧ (record' = record
        ∨ record.state = .pending ∧ record'.state ≠ .pending
          ∧ record'.request = record.request)

theorem Later.refl (w : World) : w.Later w :=
  fun _ record hrecord => ⟨record, hrecord, .inl rfl⟩

theorem Later.trans {w₁ w₂ w₃ : World} (h₁ : w₁.Later w₂) (h₂ : w₂.Later w₃) :
    w₁.Later w₃ := by
  intro id record hrecord
  obtain ⟨record', hrecord', hsame | ⟨hpending, hdecided, hrequest⟩⟩ :=
    h₁ id record hrecord
  · rw [hsame] at hrecord'
    exact h₂ id record hrecord'
  · obtain ⟨record'', hrecord'', hsame | ⟨hpending', -, -⟩⟩ :=
      h₂ id record' hrecord'
    · exact ⟨record'', hrecord'', .inr ⟨hpending, hsame ▸ hdecided,
        hsame ▸ hrequest⟩⟩
    · exact absurd hpending' hdecided

theorem later_of_moves (hmoves : Moves w c w') : w.Later w' := by
  cases hmoves with
  | quiet => exact Later.refl w
  | @create record hnew hrecord =>
    intro id old hold
    refine ⟨old, (BTreeMap.get_insert _ _ _ _).trans ?_, .inl rfl⟩
    rw [if_neg fun heq => by rw [heq, hold] at hnew; cases hnew]
    exact hold
  | register => exact Later.refl w
  | @close id g' sent change standing hcloses hchange hstanding =>
    obtain ⟨record, state, entry, outcome, hrecord, hpending, hends, -, rfl,
      rfl, rfl⟩ := hcloses.decided
    intro id' old hold
    by_cases hid : id = id'
    · subst hid
      rw [hrecord] at hold
      cases hold
      exact ⟨_, (BTreeMap.get_insert _ _ _ _).trans (if_pos rfl),
        .inr ⟨hpending, hends.ne_pending, rfl⟩⟩
    · exact ⟨old, (BTreeMap.get_insert _ _ _ _).trans ((if_neg hid).trans hold),
        .inl rfl⟩

theorem later_run {events : List Event} {w : World} (h : w.Inv)
    (hrun : w.run events = some w') : w.Later w' := by
  induction events generalizing w with
  | nil =>
    cases hrun
    exact Later.refl _
  | cons event events ih =>
    obtain ⟨next, hstep, hrest⟩ := Option.bind_eq_some_iff.1 hrun
    obtain ⟨c, -, hmoves⟩ := h.step_cases hstep
    exact (later_of_moves hmoves).trans (ih (h.step hstep) hrest)

-- ==== what is promised

/-- What a state that was reached, and what comes after it, keep to. -/
structure DecidedOnce (w : World) : Prop where
  /-- The history is the creation and at most one terminal entry. -/
  history : ∀ (id : ApprovalId) (record : ApprovalRecord),
    w.inner.records[id]? = some record → record.Sound
  /-- A record leaves the pending state at most once, and is then fixed. -/
  once : ∀ events w', w.run events = some w' → w.Later w'
  /-- A wait that has returned has returned the decision. -/
  awaits : ∀ c id a, w.calls c = .awaited id (.ok a) →
    ∃ record : ApprovalRecord, w.inner.records[id]? = some record
      ∧ terminalToOutcome record.state = some a.outcome
  /-- A wait fails only where there was no record to wait for. -/
  finds : ∀ event w' c id e, w.step event = some w' →
    w'.calls c = .awaited id (.error e) →
    w.calls c = .awaited id (.error e) ∨ w.inner.records[id]? = none
  /-- The creation was given to one call. -/
  created : ∀ (id : ApprovalId) (record : ApprovalRecord),
    w.inner.records[id]? = some record →
    ∃! c, ∃ change, (w.calls c).change = some change
      ∧ change.record.request.id = id ∧ change.kind = .created
  /-- The decision was given to one call. -/
  decided : ∀ (id : ApprovalId) (record : ApprovalRecord),
    w.inner.records[id]? = some record → record.state ≠ .pending →
    ∃! c, ∃ change, (w.calls c).change = some change
      ∧ change.record.request.id = id ∧ change.kind ≠ .created
  /-- What a call was given is a creation, or the record as it is. -/
  told : ∀ c change, (w.calls c).change = some change → w.Told change
  /-- A response of the requester itself, or of another than the user to an
  elevation, changes nothing. -/
  refused : ∀ c id choice responder comment now w' (record : ApprovalRecord),
    w.inner.records[id]? = some record →
    record.request.requester.matchesResponder responder = true
      ∨ record.request.hostElevation.isSome ∧ responder ≠ .user →
    w.step (.respond c id choice responder comment now) = some w' →
    w'.inner = w.inner ∧ w'.queues = w.queues
  /-- Who waits for a record that is decided can go on, with the decision. -/
  woken : ∀ c id (record : ApprovalRecord),
    w.inner.records[id]? = some record → record.state ≠ .pending →
    ((∃ rx timeout, w.calls c = .waiting id rx timeout) →
      ∃ w' a, w.step (.receive c) = some w'
        ∧ w'.calls c = .awaited id (.ok a)
        ∧ terminalToOutcome record.state = some a.outcome)
    ∧ (w.calls c = .late id → ∀ now,
      ∃ w' a, w.step (.expire c now) = some w'
        ∧ w'.calls c = .awaited id (.ok a)
        ∧ terminalToOutcome record.state = some a.outcome)

theorem Inv.finds (h : w.Inv) {c : Nat} {e : ApprovalError}
    (hstep : w.step event = some w')
    (herror : w'.calls c = .awaited id (.error e)) :
    w.calls c = .awaited id (.error e) ∨ w.inner.records[id]? = none := by
  obtain ⟨c', -, hmoves⟩ := h.step_cases hstep
  have hcalls : ∀ standing, (∀ id e, standing = .awaited id (.error e) →
      w.inner.records[id]? = none) →
      w'.calls = Function.update w.calls c' standing →
      w.calls c = .awaited id (.error e) ∨ w.inner.records[id]? = none := by
    intro standing hunknown heq
    rw [heq] at herror
    by_cases hc : c = c'
    · rw [hc, update_self] at herror
      exact .inr (hunknown id e herror)
    · rw [update_of_ne hc] at herror
      exact .inl herror
  cases hmoves with
  | quiet _ _ hunknown => exact hcalls _ hunknown rfl
  | create _ _ | register _ _ _ =>
    refine hcalls _ (fun id e heq => ?_) rfl
    cases heq
  | close _ hchange _ =>
    refine hcalls _ (fun id e heq => ?_) rfl
    rw [heq] at hchange
    cases hchange

theorem refused {c : Nat} {choice : String}
    {responder : Responder} {comment : Option String} {now : Nat}
    (hrecord : w.inner.records[id]? = some record)
    (hwho : record.request.requester.matchesResponder responder = true
      ∨ record.request.hostElevation.isSome ∧ responder ≠ .user)
    (hstep : w.step (.respond c id choice responder comment now) = some w') :
    w'.inner = w.inner ∧ w'.queues = w.queues := by
  have hrespond : ∃ e, w.inner.respond id choice responder comment now
      = (.error e, w.inner, []) := by
    unfold Inner.respond
    rw [hrecord]
    dsimp only
    split
    · exact ⟨_, rfl⟩
    split
    · exact ⟨_, rfl⟩
    · rename_i helevation
      rcases hwho with hsame | ⟨hsome, huser⟩
      · rw [if_pos hsame]
        exact ⟨_, rfl⟩
      · simp [hsome, huser] at helevation
  obtain ⟨e, heq⟩ := hrespond
  dsimp only [step] at hstep
  rw [heq] at hstep
  split at hstep
  · cases hstep
    exact ⟨rfl, rfl⟩
  · cases hstep

theorem Inv.woken_waiting (h : w.Inv)     (hrecord : w.inner.records[id]? = some record)
    (hdecided : record.state ≠ .pending) {rx : Nat} {timeout : Option Nat}
    (hcall : w.calls c = .waiting id rx timeout) :
    ∃ w' a, w.step (.receive c) = some w' ∧ w'.calls c = .awaited id (.ok a)
      ∧ terminalToOutcome record.state = some a.outcome := by
  obtain ⟨old, hold, hrest⟩ := h.stands_of hcall
  rw [hrecord] at hold
  cases hold
  rcases hrest with ⟨hpending, -⟩ | ⟨outcome, houtcome, hqueue⟩
  · exact absurd hpending hdecided
  · refine ⟨w.after c w.inner [] (.awaited id (.ok ⟨outcome, none⟩)),
      ⟨outcome, none⟩, ?_, update_self .., houtcome⟩
    rw [World.step, hcall]
    dsimp only
    rw [hqueue]
    rfl

theorem woken_late (hrecord : w.inner.records[id]? = some record)
    (hdecided : record.state ≠ .pending) (hcall : w.calls c = .late id)
    (now : Nat) :
    ∃ w' a, w.step (.expire c now) = some w' ∧ w'.calls c = .awaited id (.ok a)
      ∧ terminalToOutcome record.state = some a.outcome := by
  rcases Inner.expire_cases hrecord now with
    ⟨g', sent, change, outcome, -, hcloses, -⟩ | ⟨outcome, houtcome, heq⟩
  · obtain ⟨old, _, _, _, hold, hpending, -⟩ := hcloses.decided
    rw [hrecord] at hold
    cases hold
    exact absurd hpending hdecided
  · refine ⟨w.after c w.inner [] (.awaited id (.ok ⟨outcome, none⟩)),
      ⟨outcome, none⟩, ?_, update_self .., houtcome⟩
    rw [World.step, hcall]
    dsimp only
    rw [heq]

theorem approvals_decided_once (events : List Event) (w : World)
    (hrun : World.new.run events = some w) : w.DecidedOnce := by
  have h : w.Inv := inv_new.run hrun
  exact
    { history := h.sound
      once := fun _ _ => later_run h
      awaits := fun _ _ _ hcall => h.stands_of hcall
      finds := fun _ _ _ _ _ => h.finds
      created := h.created
      decided := h.decided
      told := h.told
      refused := fun _ _ _ _ _ _ _ _ => refused
      woken := fun c id record hrecord hdecided =>
        ⟨fun hwaiting => by
          obtain ⟨rx, timeout, hcall⟩ := hwaiting
          exact h.woken_waiting hrecord hdecided hcall,
        fun hcall now => woken_late hrecord hdecided hcall now⟩ }

/-- Two wait for a deployment, one of them for a while; the user approves. -/
def twoWaits : List Event :=
  [.request 0 ⟨"req_1", .agent "builder", "Deploy", [], none, 5, none⟩ 5,
    .await 1 "req_1" none, .await 2 "req_1" (some 1000), .timeout 2,
    .respond 3 "req_1" "approve" .user none 9, .receive 1, .expire 2 10]

theorem approvals_decided_once_waits :
    ∃ w, World.new.run twoWaits = some w
      ∧ w.inner.records["req_1"]?.map ApprovalRecord.state
        = some (.responded "approve" .user none 9)
      ∧ w.DecidedOnce :=
  ⟨(World.new.run twoWaits).get (by decide +kernel), (Option.some_get _).symm,
    by decide +kernel,
    approvals_decided_once twoWaits _ (Option.some_get _).symm⟩

/-- The same caller asks and answers. -/
def SameCaller : Requester → Responder → Prop
  | .user, .user => True
  | .plugin a, .agent b => a = b
  | .agent a, .agent b => a = b
  | _, _ => False

/-- The user asks for a deployment. -/
def ownRequest : List Event :=
  [.request 0 ⟨"req_1", .user, "Deploy", [], none, 5, none⟩ 5]

/-- The user answers. -/
def ownAnswer : Event := .respond 1 "req_1" "approve" .user none 9

theorem ownRequest_runs : (World.new.run ownRequest).isSome = true := by
  decide +kernel

theorem ownAnswer_runs :
    (((World.new.run ownRequest).get ownRequest_runs).step ownAnswer).isSome
      = true := by
  decide +kernel

/-- The user may answer what the user asked. -/
theorem user_answers_own_request :
    ¬ ∀ (events : List Event) (w w' : World) (c : Nat) (id : ApprovalId)
      (choice : String) (responder : Responder) (comment : Option String)
      (now : Nat) (record : ApprovalRecord),
      World.new.run events = some w → w.inner.records[id]? = some record →
      SameCaller record.request.requester responder →
      w.step (.respond c id choice responder comment now) = some w' →
      w'.inner.records[id]? = w.inner.records[id]? := by
  intro h
  have hsame := h ownRequest _ _ 1 "req_1" "approve" .user none 9
    (.new ⟨"req_1", .user, "Deploy", [.approve, .deny], none, 5, none⟩)
    (Option.some_get ownRequest_runs).symm (by decide +kernel) trivial
    (Option.some_get ownAnswer_runs).symm
  revert hsame
  decide +kernel

end World

end Tasty.Approval
