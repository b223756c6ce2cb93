/-
The two permissions of a html surface, each seen as one `Permission`, and
what that says of every sequence of calls on the surface's state.

Every call of the code is one action of each permission (`call_view`), so
that the invariants are those of the machine. What the machine owes is owed
exactly where no response comes unannounced while the document on screen is
allowed (`HtmlScriptState.fence`).
-/
import Tasty.Html.Permission
import Tasty.Html.ScriptState

namespace Tasty.Html

open Option

-- ==== the views

/-- What a user permits a document. -/
inductive Content where
  | scripts
  | remote
  deriving DecidableEq, Repr

def DocumentRecord.document (d : DocumentRecord) : Document Url Fingerprint :=
  ⟨d.url, d.scan.map (·.fingerprint)⟩

def ScanSlot.slot : ScanSlot → Slot Fingerprint
  | .done scan => .done (scan.map (·.fingerprint))
  | .waiting ticket => .waiting ticket

def Allowance.pair (a : Allowance) : Url × Fingerprint :=
  (a.url, a.fingerprint)

def PendingResponse.matchedFor (p : PendingResponse) : Content → Bool
  | .scripts => p.matched
  | .remote => p.matchedRemote

def PendingResponse.response (p : PendingResponse) (k : Content) :
    Response Url Fingerprint :=
  ⟨p.url, p.scan.slot, p.matchedFor k⟩

namespace HtmlScriptState

def allowanceOf (s : HtmlScriptState) : Content → Option Allowance
  | .scripts => s.allowance
  | .remote => s.remote.allowance

/-- The state as one permission sees it. -/
def view (s : HtmlScriptState) (k : Content) :
    Permission Url Fingerprint where
  allowance := (s.allowanceOf k).map (·.pair)
  current := s.current.map (·.document)
  wait := s.currentWait.map (·.ticket)
  response := s.pending.map (·.response k)
  inFlight := s.loadInFlight
  committed := s.committedSinceStart

/-- What a call is to a permission. -/
def actionOf (s : HtmlScriptState) (k : Content) :
    Callback → Action Url Fingerprint
  | .loadStarted => .start
  | .mainResponse url scan =>
    .respond (stripFragment url) (.done (scan.map (·.fingerprint)))
  | .mainResponsePending url =>
    .respond (stripFragment url) (.waiting ((s.nextTicket + 1) % 2 ^ 64))
  | .scanFinished ticket scan => .scanned ticket (scan.map (·.fingerprint))
  | .committed url => .commit (url.map stripFragment)
  | .loadFinished => .finished
  | .loadFailed => .failed
  | .allowCurrent => if k = .scripts then .allow else .idle
  | .allowRemoteCurrent =>
    if k = .remote ∧ s.remoteSupported = true ∧ s.remote.global = false
    then .allow else .idle
  | _ => .idle

variable {s s' : HtmlScriptState} {js : Option Bool} {c : Callback}
  {k : Content}

-- ==== the values

theorem approves_iff {allowance : Option Allowance} {url : Url}
    {scan : Option ScriptScan} :
    Approves (allowance.map (·.pair)) ⟨url, scan.map (·.fingerprint)⟩
      ↔ matchesAllowance allowance url scan = true := by
  cases allowance with
  | none => simp [Approves, matchesAllowance]
  | some a =>
    cases scan with
    | none => simp [Approves, matchesAllowance]
    | some scan => simp [Approves, matchesAllowance, Allowance.pair]

variable (s)

theorem currentMatches_eq (k : Content) :
    s.currentMatches (s.allowanceOf k) = (s.view k).allowsCurrent := by
  unfold currentMatches Permission.allowsCurrent view
  cases s.current with
  | none => rfl
  | some d =>
    obtain ⟨url, scan⟩ := d
    simp only [map_some, any_some, DocumentRecord.document]
    rw [Bool.eq_iff_iff, decide_eq_true_iff, approves_iff]
    cases s.allowanceOf k with
    | none => simp [matchesAllowance]
    | some a =>
      cases scan with
      | none => simp [matchesAllowance]
      | some scan =>
        simp only [matchesAllowance, Bool.and_eq_true, beq_iff_eq]
        exact ⟨fun h => ⟨h.1.symm, h.2.symm⟩, fun h => ⟨h.1.symm, h.2.symm⟩⟩

theorem any_response (k : Content) :
    (s.view k).response.any (·.matched)
      = s.pending.any (·.matchedFor k) := by
  cases h : s.pending with
  | none => simp [view, h]
  | some p => simp [view, h, PendingResponse.response]

/-- The value in force, as the code takes it from its flags. -/
theorem inForce_eq (k : Content) :
    (s.view k).inForce
      = if s.loadingBeforeCommit then s.pending.any (·.matchedFor k)
        else s.currentMatches (s.allowanceOf k) := by
  rw [s.currentMatches_eq, ← s.any_response]
  rfl

variable {s} in
theorem effectiveJs_eq (hs : s.sandbox = true) :
    s.effectiveJs = (s.view .scripts).inForce := by
  rw [inForce_eq, effectiveJs, hs]
  rfl

variable {s} in
theorem documentRemoteAllowed_eq : s.documentRemoteAllowed
    = (s.remoteSupported && (s.view .remote).inForce) := by
  rw [inForce_eq, documentRemoteAllowed]
  cases s.remoteSupported <;> rfl

-- ==== the calls

theorem compared_eq (url : Url) (scan : Option ScriptScan) (k : Content) :
    (s.view k).compared url (.done (scan.map (·.fingerprint)))
      = ⟨url, .done (scan.map (·.fingerprint)),
        matchesAllowance (s.allowanceOf k) url scan⟩ := by
  unfold Permission.compared
  congr 1
  rw [Bool.eq_iff_iff, decide_eq_true_iff, ← approves_iff]
  exact Iff.rfl

/-- A response without a fingerprint matches nothing. -/
theorem compared_waiting (url : Url) (ticket : Nat)
    (k : Content) : (s.view k).compared url (.waiting ticket)
      = ⟨url, .waiting ticket, false⟩ := by
  unfold Permission.compared
  congr 1

theorem onMainResponse_view (url : Url)
    (scan : Option ScriptScan) (k : Content) :
    (s.onMainResponse url scan).2.view k
      = (s.view k).respond (stripFragment url)
        (.done (scan.map (·.fingerprint))) := by
  unfold Permission.respond
  rw [compared_eq]
  cases k <;> rfl

theorem onMainResponsePending_view (url : Url)
    (k : Content) : (s.onMainResponsePending url).2.2.view k
      = (s.view k).respond (stripFragment url)
        (.waiting ((s.nextTicket + 1) % 2 ^ 64)) := by
  unfold Permission.respond
  rw [compared_waiting]
  cases k <;> rfl

theorem resetDocumentFlags_view (viewed : Bool)
    (k : Content) : (s.resetDocumentFlags viewed).view k = s.view k := by
  cases k <;> rfl

theorem slot_waiting_iff {slot : ScanSlot} {ticket : Nat} :
    slot.slot = .waiting ticket ↔ slot = .waiting ticket := by
  cases slot <;> simp [ScanSlot.slot]

theorem filter_response (ticket : Nat)
    (k : Content) : (s.view k).response.filter (·.slot = .waiting ticket)
      = (s.pending.filter (·.scan = .waiting ticket)).map (·.response k) := by
  unfold view
  cases s.pending with
  | none => rfl
  | some p =>
    by_cases h : p.scan = .waiting ticket
    · simp [Option.filter, PendingResponse.response, h, ScanSlot.slot]
    · simp [Option.filter, PendingResponse.response, slot_waiting_iff, h]

theorem finishCurrent_view (wait : ScanWait)
    (doc : DocumentRecord) (scan : Option ScriptScan) (k : Content) :
    (s.finishCurrent wait doc scan).view k
      = { s.view k with
          wait := none
          current := some ⟨doc.url, scan.map (·.fingerprint)⟩ } := by
  unfold finishCurrent
  dsimp only
  split
  · rw [resetDocumentFlags_view]
    cases k <;> rfl
  · cases k <;> rfl

variable {s} in
theorem onScanFinished_view {ticket : Nat} {scan : Option ScriptScan}
    (h : s.onScanFinished ticket scan = some (js, s')) (k : Content) :
    s'.view k = (s.view k).scanned ticket (scan.map (·.fingerprint)) := by
  unfold Permission.scanned
  rw [filter_response]
  unfold onScanFinished at h
  split at h
  · next p hp =>
    rw [hp, map_some]
    cases h
    dsimp only
    rw [show (p.response k).url = p.url from rfl, compared_eq]
    cases k <;> rfl
  · next hp =>
    rw [hp, map_none]
    cases hw : s.currentWait with
    | none =>
      have hwait : (s.view k).wait = none := by simp [view, hw]
      rw [hw] at h
      cases h
      simp [hwait]
    | some wait =>
      have hwait : (s.view k).wait = some wait.ticket := by simp [view, hw]
      rw [hw] at h
      by_cases ht : wait.ticket = ticket
      · rw [filter_some, if_pos (by simpa using ht)] at h
        cases hc : s.current with
        | none =>
          rw [hc] at h
          cases h
        | some doc =>
          rw [hc] at h
          cases h
          have hcur : (s.view k).current = some doc.document := by
            simp [view, hc]
          simp only [hwait, ht, if_true, hcur, map_some]
          exact s.finishCurrent_view wait doc scan k
      · rw [filter_some, if_neg (by simpa using ht)] at h
        cases h
        simp [hwait, ht]

theorem committedDocument_view (url : Option Url)
    (k : Content) : (s.committedDocument url).map (·.document)
      = (s.view k).committedDocument (url.map stripFragment) := by
  unfold committedDocument Permission.committedDocument view
  cases s.pending with
  | none => cases url <;> rfl
  | some p =>
    obtain ⟨purl, scan, m, mr⟩ := p
    cases scan <;> rfl

theorem committedWait_view (k : Content) :
    s.committedWait = (s.view k).response.bind (·.ticket) := by
  unfold committedWait view
  cases s.pending with
  | none => rfl
  | some p =>
    obtain ⟨purl, scan, m, mr⟩ := p
    cases scan <;> rfl

theorem keepMatched_allowance (k : Content) :
    s.keepMatched.allowanceOf k
      = if s.pending.any (·.matchedFor k) then s.allowanceOf k else none := by
  cases k <;> rfl

theorem resetIf_view (same viewed : Bool)
    (k : Content) : (if !same then s.resetDocumentFlags viewed
      else s : HtmlScriptState).view k = s.view k := by
  split
  · exact s.resetDocumentFlags_view viewed k
  · rfl

theorem endLoad_view (k : Content) :
    ({ s.endLoadMarks with
      loadFailed := false
      committedSinceStart := true } : HtmlScriptState).view k
      = { s.view k with committed := true } := by
  cases k <;> rfl

theorem onCommitted_view (url : Option Url)
    (k : Content) : (s.onCommitted url).2.view k
      = (s.view k).commit (url.map stripFragment) := by
  -- the banner's flags apart, a commit writes these fields
  have hfields : (s.onCommitted url).2.view k
      = { allowance := (s.keepMatched.allowanceOf k).map (·.pair)
          current := (s.committedDocument url).map (·.document)
          wait := s.committedWait
          response := none
          inFlight := s.loadInFlight
          committed := true } := by
    unfold onCommitted
    dsimp only
    rw [endLoad_view, resetIf_view]
    cases k <;> cases s.committedWait <;> rfl
  rw [hfields, keepMatched_allowance, s.committedDocument_view url k,
    s.committedWait_view k]
  unfold Permission.commit
  rw [any_response]
  split <;> rfl

theorem onLoadFailed_view (k : Content) :
    s.onLoadFailed.view k = (s.view k).step .failed := by
  unfold onLoadFailed Permission.step
  cases hc : s.committedSinceStart with
  | true =>
    have : (s.view k).committed = true := hc
    rw [this]
    cases k <;> simp [view, allowanceOf]
  | false =>
    have : (s.view k).committed = false := hc
    rw [this]
    cases k <;> simp [view, allowanceOf, hc]

/-- The document that may be allowed now is the one that the machine would
allow. -/
theorem allowable_view (k : Content) :
    (s.view k).allow = match s.allowable with
      | .error _ => s.view k
      | .ok allow => { s.view k with allowance := some allow.pair } := by
  have hwait : ((s.view k).loading || (s.view k).wait.isSome)
      = s.awaitingVerdict := by
    unfold awaitingVerdict
    rw [← isSome_map (x := s.currentWait) (f := (·.ticket))]
    rfl
  unfold Permission.allow allowable
  rw [hwait]
  split
  · rfl
  · have hcur : (s.view k).current = s.current.map (·.document) := rfl
    cases hc : s.current with
    | none => simp [hcur, hc]
    | some doc =>
      obtain ⟨url, scan⟩ := doc
      cases scan <;>
        simp [hcur, hc, DocumentRecord.document, Allowance.pair]

theorem allowCurrent_view (k : Content) :
    (s.allowCurrent.toOption.getD s).view k
      = (s.view k).step (s.actionOf k .allowCurrent) := by
  have hallow := s.allowable_view k
  unfold allowCurrent
  cases k with
  | scripts =>
    show _ = (s.view .scripts).allow
    rw [hallow]
    cases s.allowable <;> rfl
  | remote =>
    show _ = s.view .remote
    cases s.allowable <;> rfl

theorem allowRemoteCurrent_view (k : Content) :
    (s.allowRemoteCurrent.toOption.getD s).view k
      = (s.view k).step (s.actionOf k .allowRemoteCurrent) := by
  have hallow := s.allowable_view k
  unfold allowRemoteCurrent
  cases k with
  | scripts =>
    show _ = s.view .scripts
    split
    · rfl
    · split
      · rfl
      · cases s.allowable <;> rfl
  | remote =>
    unfold actionOf
    cases s.remoteSupported with
    | false => rfl
    | true =>
      cases s.remote.global with
      | true => rfl
      | false =>
        show _ = (s.view .remote).allow
        rw [hallow]
        cases s.allowable <;> rfl

variable {s}

theorem call_view (h : s.call c = some (js, s')) (k : Content) :
    s'.view k = (s.view k).step (s.actionOf k c) := by
  cases c with
  | loadStarted =>
    cases h
    cases k <;> rfl
  | mainResponse url scan =>
    cases h
    exact s.onMainResponse_view url scan k
  | mainResponsePending url =>
    cases h
    exact s.onMainResponsePending_view url k
  | scanFinished ticket scan => exact onScanFinished_view h k
  | committed url =>
    cases h
    exact s.onCommitted_view url k
  | loadFinished =>
    cases h
    cases k <;> rfl
  | loadFailed =>
    cases h
    exact s.onLoadFailed_view k
  | allowCurrent =>
    cases h
    exact s.allowCurrent_view k
  | allowRemoteCurrent =>
    cases h
    exact s.allowRemoteCurrent_view k
  | setSandbox | setRemoteGlobal | hostLoadRequested | userLoadRequested
  | userView | takeReloadRequest =>
    cases h
    cases k <;> rfl

theorem call_js {value : Bool} (h : s.call c = some (some value, s')) :
    value = s'.effectiveJs := by
  cases c with
  | scanFinished ticket scan =>
    have h : s.onScanFinished ticket scan = some (some value, s') := h
    unfold onScanFinished at h
    split at h
    · cases h
      rfl
    · split at h
      · cases h
      · split at h
        · cases h
        · cases h
          rfl
  | loadFinished =>
    simp only [call, onLoadFinished, Option.some.injEq, Prod.mk.injEq] at h
    obtain ⟨hjs, rfl⟩ := h
    split at hjs
    · exact (Option.some.inj hjs).symm
    · cases hjs
  | loadStarted | mainResponse | mainResponsePending | committed
  | setSandbox =>
    cases h
    rfl
  | loadFailed | allowCurrent | allowRemoteCurrent | setRemoteGlobal
  | hostLoadRequested | userLoadRequested | userView | takeReloadRequest =>
    cases h

/-- A call that answers for a response returns a value, and leaves the
setting and the view alone. -/
theorem call_answers {d : Document Url Fingerprint}
    (h : s.call c = some (js, s'))
    (ha : (s.view k).Answers (s.actionOf k c) d) :
    js = some s'.effectiveJs ∧ s'.sandbox = s.sandbox
      ∧ s'.remoteSupported = s.remoteSupported := by
  cases c with
  | mainResponse url scan | mainResponsePending url =>
    cases h
    exact ⟨rfl, rfl, rfl⟩
  | scanFinished ticket scan =>
    have h : s.onScanFinished ticket scan = some (js, s') := h
    generalize hact : s.actionOf k (.scanFinished ticket scan) = act at ha
    cases ha with
    | respond => cases hact
    | scanned r ticket' f pending waits =>
      cases hact
      have hf := s.filter_response ticket k
      rw [pending, filter_some, if_pos (by simpa using waits)] at hf
      obtain ⟨p, hp, -⟩ := map_eq_some_iff.mp hf.symm
      unfold onScanFinished at h
      rw [hp] at h
      cases h
      exact ⟨rfl, rfl, rfl⟩
  | allowCurrent =>
    exfalso
    have hact : s.actionOf k .allowCurrent = .allow
        ∨ s.actionOf k .allowCurrent = .idle := by
      simp only [actionOf]
      split <;> simp
    obtain hact | hact := hact <;> rw [hact] at ha <;> cases ha
  | allowRemoteCurrent =>
    exfalso
    have hact : s.actionOf k .allowRemoteCurrent = .allow
        ∨ s.actionOf k .allowRemoteCurrent = .idle := by
      simp only [actionOf]
      split <;> simp
    obtain hact | hact := hact <;> rw [hact] at ha <;> cases ha
  | loadStarted | committed | loadFinished | loadFailed | setSandbox
  | setRemoteGlobal | hostLoadRequested | userLoadRequested | userView
  | takeReloadRequest => cases ha

-- ==== the runs

/-- One call of a run. -/
structure Step where
  before : HtmlScriptState
  callback : Callback
  js : Option Bool
  after : HtmlScriptState

/-- The steps of a sequence of calls; nothing if one of them panics. -/
def trace (s : HtmlScriptState) : List Callback → Option (List Step)
  | [] => some []
  | c :: cs =>
    match s.call c with
    | none => none
    | some (js, s') => (s'.trace cs).map (⟨s, c, js, s'⟩ :: ·)

/-- What is granted: scripts by the value that the call returns while the
sandbox is on, remote content by the permission after the call. -/
def Step.Granted (st : Step) : Content → Prop
  | .scripts => st.after.sandbox = true ∧ st.js = some true
  | .remote => st.after.documentRemoteAllowed = true

/-- Both permissions are bound to the allowed document at this step. -/
def Step.Lawful (st : Step) : Prop :=
  ∀ k, (st.before.view k).Law (st.before.actionOf k st.callback)
    (st.after.view k) (st.Granted k)

/-- The permission is not open in any case: the sandbox is on, or the view
decides about remote content itself. -/
def guarded (s : HtmlScriptState) : Content → Bool
  | .scripts => s.sandbox
  | .remote => s.remoteSupported

/-- Where a response, or a scan of it, comes although a commit was seen
since the last start, the document on screen is not allowed or the response
is of the allowed one. -/
def Step.Announced (st : Step) : Prop :=
  ∀ k, st.before.guarded k = true →
    (st.before.view k).Fenced (st.before.actionOf k st.callback)

/-- What holds between two calls. -/
def Sound (s : HtmlScriptState) : Prop := ∀ k, (s.view k).Inv

theorem sound_new (sandbox : Bool) (view : RemoteView) :
    ((new sandbox).setRemoteView view).Sound := by
  intro k
  cases k <;> cases view <;>
    exact ⟨nofun, nofun, fun h => absurd rfl h, fun h => absurd rfl h⟩

theorem Sound.call (h : s.Sound) (hc : s.call c = some (js, s')) :
    s'.Sound := by
  intro k
  rw [call_view hc k]
  exact (h k).step _

/-- The code's `expect` holds: a scan that is waited for belongs to a
committed document. -/
theorem Sound.call_isSome (h : s.Sound) (c : Callback) :
    ∃ js s', s.call c = some (js, s') := by
  cases c with
  | scanFinished ticket scan =>
    show ∃ js s', s.onScanFinished ticket scan = some (js, s')
    unfold onScanFinished
    split
    · exact ⟨_, _, rfl⟩
    · split
      · exact ⟨_, _, rfl⟩
      · next wait hw =>
        obtain ⟨hw, -⟩ := filter_eq_some_iff.mp hw
        obtain ⟨url, hcur⟩ := (h .scripts).waiting (by simp [view, hw])
        obtain ⟨doc, hdoc, -⟩ := map_eq_some_iff.mp hcur
        rw [hdoc]
        exact ⟨_, _, rfl⟩
  | _ => exact ⟨_, _, rfl⟩

theorem granted_iff (hc : s.call c = some (js, s')) (k : Content) :
    (Step.Granted ⟨s, c, js, s'⟩ k →
        s'.guarded k = true ∧ (s'.view k).inForce = true)
      ∧ (js = some s'.effectiveJs → s'.guarded k = true →
        (s'.view k).inForce = true → Step.Granted ⟨s, c, js, s'⟩ k) := by
  cases k with
  | scripts =>
    constructor
    · rintro ⟨hs, hjs⟩
      have hjs : js = some true := hjs
      subst hjs
      exact ⟨hs, (effectiveJs_eq hs).symm.trans (call_js hc).symm⟩
    · intro hjs hs hv
      exact ⟨hs, by rw [hjs, effectiveJs_eq hs, hv]⟩
  | remote =>
    show (s'.documentRemoteAllowed = true → _)
      ∧ (_ → _ → _ → s'.documentRemoteAllowed = true)
    rw [documentRemoteAllowed_eq, Bool.and_eq_true]
    exact ⟨id, fun _ hs hv => ⟨hs, hv⟩⟩

/-- One call keeps to the document exactly where it was announced. -/
theorem Sound.lawful_iff (h : s.Sound) (hc : s.call c = some (js, s')) :
    Step.Lawful ⟨s, c, js, s'⟩ ↔ Step.Announced ⟨s, c, js, s'⟩ := by
  constructor
  · intro hlaw k hguard
    have hlaw := hlaw k
    dsimp only at hlaw hguard ⊢
    rw [call_view hc k] at hlaw
    refine Permission.fenced_of_law hlaw ?_
    rintro ⟨d, ha⟩ hv
    obtain ⟨hjs, hsandbox, hsupported⟩ := call_answers hc ha
    rw [← call_view hc k] at hv
    refine (granted_iff hc k).2 hjs ?_ hv
    cases k with
    | scripts => exact hsandbox.trans hguard
    | remote => exact hsupported.trans hguard
  · intro hann k
    dsimp only
    rw [call_view hc k]
    refine Permission.law_of_fenced (h k) ?_ ?_
    · intro hgranted d ha
      obtain ⟨-, hsandbox, hsupported⟩ := call_answers hc ha
      have hguard := ((granted_iff hc k).1 hgranted).1
      refine hann k ?_ d ha
      cases k with
      | scripts => exact hsandbox.symm.trans hguard
      | remote => exact hsupported.symm.trans hguard
    · intro hgranted
      rw [← call_view hc k]
      exact ((granted_iff hc k).1 hgranted).2

theorem Sound.trace (h : s.Sound) (calls : List Callback) :
    ∃ steps, s.trace calls = some steps
      ∧ ∀ st ∈ steps, st.Lawful ↔ st.Announced := by
  induction calls generalizing s with
  | nil => exact ⟨[], rfl, fun _ hst => nomatch hst⟩
  | cons c cs ih =>
    obtain ⟨js, s', hc⟩ := h.call_isSome c
    obtain ⟨steps, hsteps, hiff⟩ := ih (h.call hc)
    refine ⟨⟨s, c, js, s'⟩ :: steps, ?_, ?_⟩
    · rw [HtmlScriptState.trace, hc]
      simp only [hsteps, map_some]
    · intro st hst
      obtain rfl | hst := List.mem_cons.mp hst
      · exact h.lawful_iff hc
      · exact hiff st hst

/-- For every sequence of calls on a new surface: no call panics, and each
keeps both permissions to the allowed document exactly where no response
comes unannounced while the document on screen is allowed. -/
theorem fence (sandbox : Bool) (view : RemoteView)
    (calls : List Callback) :
    ∃ steps, ((new sandbox).setRemoteView view).trace calls = some steps
      ∧ ((∀ st ∈ steps, st.Lawful) ↔ ∀ st ∈ steps, st.Announced) := by
  obtain ⟨steps, hsteps, hiff⟩ := (sound_new sandbox view).trace calls
  refine ⟨steps, hsteps, ?_⟩
  exact forall_congr' fun st => forall_congr' fun hst => hiff st hst

/-- A page that the user allowed, and the response of another one whose
start was not signalled. -/
def unannounced : List Callback :=
  let scan (byte : UInt8) : ScriptScan :=
    ⟨Vector.replicate 32 byte, .scripts, false, false⟩
  [.loadStarted, .mainResponse ['a'] (some (scan 0)), .committed none,
    .loadFinished, .allowCurrent, .mainResponse ['b'] (some (scan 1))]

/-- The response of the other page is answered with the scripts on. -/
theorem unannounced_runs_scripts : ¬ ∀ sandbox view calls steps,
    ((new sandbox).setRemoteView view).trace calls = some steps
      → ∀ st ∈ steps, st.Lawful := by
  intro h
  have hlaw := h true .local unannounced _ rfl _
    (List.getLast_mem (List.cons_ne_nil _ _)) .scripts
  obtain ⟨f, -, ha⟩ := hlaw.response _ (.respond _ _) ⟨rfl, rfl⟩
  cases ha

end HtmlScriptState

end Tasty.Html
