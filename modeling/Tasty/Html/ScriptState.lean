/-
The script permission of one html surface: `HtmlScriptState`, the callbacks
that the backend of the web view makes while it loads documents, and the
remote-content permission that lives beside it.

A response decision, the end of a scan, a commit and the end of a load
answer with the value that the web view applies. Of the flags that place
the banner, those are here that the callbacks read or write.
-/
import Mathlib.Algebra.GroupWithZero.Nat

namespace Tasty.Html

abbrev Url := List Char

/-- `Fingerprint`: the SHA-256 of the whole document. -/
abbrev Fingerprint := Vector UInt8 32

inductive ScriptDetection where
  | none
  | scripts
  | scriptsRemoteOnly
  deriving DecidableEq, Repr

structure ScriptScan where
  fingerprint : Fingerprint
  detection : ScriptDetection
  remoteRefs : Bool
  remoteScripts : Bool
  deriving DecidableEq

structure DocumentRecord where
  url : Url
  scan : Option ScriptScan
  deriving DecidableEq

structure Allowance where
  url : Url
  fingerprint : Fingerprint
  deriving DecidableEq

/-- `ScanTicket`. -/
abbrev ScanTicket := Nat

inductive ScanSlot where
  | done (scan : Option ScriptScan)
  | waiting (ticket : ScanTicket)
  deriving DecidableEq

structure PendingResponse where
  url : Url
  scan : ScanSlot
  matched : Bool
  matchedRemote : Bool
  deriving DecidableEq

structure ScanWait where
  ticket : ScanTicket
  previous : Option DocumentRecord
  viewedIfNew : Bool
  deriving DecidableEq

structure BannerFlags where
  viewed : Bool
  pendingView : Bool
  shown : Bool
  dismissed : Bool
  deriving DecidableEq

/-- `BannerFlags::default`. -/
def BannerFlags.default : BannerFlags := ⟨false, false, false, false⟩

inductive AllowError where
  | noDocument
  | noFingerprint
  | loading
  deriving DecidableEq, Repr

inductive RemoteAllowError where
  | document (error : AllowError)
  | globallyAllowed
  | unsupportedView
  deriving DecidableEq, Repr

inductive RemoteView where
  | local
  | mirror
  | http
  deriving DecidableEq, Repr

structure RemoteState where
  global : Bool
  view : RemoteView
  allowance : Option Allowance
  banner : BannerFlags
  reshown : Bool
  observed : Bool
  reloadingAfterAllow : Bool
  deriving DecidableEq

/-- `RemoteState::default`. -/
def RemoteState.default : RemoteState :=
  ⟨false, .local, none, .default, false, false, false⟩

structure HtmlScriptState where
  sandbox : Bool
  current : Option DocumentRecord
  allowance : Option Allowance
  pending : Option PendingResponse
  currentWait : Option ScanWait
  nextTicket : Nat
  loadInFlight : Bool
  committedSinceStart : Bool
  reloadRequested : Bool
  reloadingAfterAllow : Bool
  hostRequestedLoad : Bool
  viewedBeforeCommit : Bool
  loadFailed : Bool
  banner : BannerFlags
  remote : RemoteState
  deriving DecidableEq

/-- `strip_fragment`. -/
def stripFragment (url : Url) : Url := url.takeWhile (· ≠ '#')

/-- `matches`. -/
def matchesAllowance (allowance : Option Allowance) (url : Url)
    (scan : Option ScriptScan) : Bool :=
  match allowance, scan with
  | some allow, some scan =>
    allow.url == url && allow.fingerprint == scan.fingerprint
  | _, _ => false

namespace HtmlScriptState

/-- `HtmlScriptState::new`. -/
def new (sandbox : Bool) : HtmlScriptState where
  sandbox
  current := none
  allowance := none
  pending := none
  currentWait := none
  nextTicket := 0
  loadInFlight := false
  committedSinceStart := false
  reloadRequested := false
  reloadingAfterAllow := false
  hostRequestedLoad := false
  viewedBeforeCommit := false
  loadFailed := false
  banner := .default
  remote := .default

-- ==== reading

/-- Whether the document on screen is the one of an allowance. -/
def currentMatches (s : HtmlScriptState) (allowance : Option Allowance) :
    Bool :=
  match s.current, allowance with
  | some doc, some allow =>
    match doc.scan with
    | some scan => doc.url == allow.url
        && scan.fingerprint == allow.fingerprint
    | none => false
  | _, _ => false

/-- `current_is_allowed`. -/
def currentIsAllowed (s : HtmlScriptState) : Bool :=
  s.currentMatches s.allowance

/-- `current_is_remote_allowed`. -/
def currentIsRemoteAllowed (s : HtmlScriptState) : Bool :=
  s.currentMatches s.remote.allowance

/-- `loading_before_commit`. -/
def loadingBeforeCommit (s : HtmlScriptState) : Bool :=
  s.loadInFlight && !s.committedSinceStart

/-- `awaiting_verdict`. -/
def awaitingVerdict (s : HtmlScriptState) : Bool :=
  s.loadingBeforeCommit || s.currentWait.isSome

/-- `effective_js`. -/
def effectiveJs (s : HtmlScriptState) : Bool :=
  if !s.sandbox then true
  else if s.loadingBeforeCommit then s.pending.any (·.matched)
  else s.currentIsAllowed

/-- `remote_supported`. -/
def remoteSupported (s : HtmlScriptState) : Bool :=
  s.remote.view == .local

/-- `document_remote_allowed`. -/
def documentRemoteAllowed (s : HtmlScriptState) : Bool :=
  if !s.remoteSupported then false
  else if s.loadingBeforeCommit then s.pending.any (·.matchedRemote)
  else s.currentIsRemoteAllowed

-- ==== callbacks

/-- `set_sandbox`. -/
def setSandbox (s : HtmlScriptState) (sandbox : Bool) :
    Bool × HtmlScriptState :=
  let s := { s with sandbox }
  (s.effectiveJs, s)

/-- `set_remote_view`. -/
def setRemoteView (s : HtmlScriptState) (view : RemoteView) :
    HtmlScriptState :=
  { s with
    remote := { s.remote with
      view
      allowance := if view ≠ .local then none else s.remote.allowance } }

/-- `on_load_started`. -/
def onLoadStarted (s : HtmlScriptState) : Bool × HtmlScriptState :=
  let s := { s with
    pending := none, loadInFlight := true, committedSinceStart := false }
  (s.effectiveJs, s)

/-- `record_response`. -/
def recordResponse (s : HtmlScriptState) (url : Url) (scan : ScanSlot)
    (matched matchedRemote : Bool) : Bool × HtmlScriptState :=
  let s := { s with
    pending := some { url, scan, matched, matchedRemote }
    loadInFlight := true }
  (s.effectiveJs, s)

/-- `on_main_response`. -/
def onMainResponse (s : HtmlScriptState) (url : Url)
    (scan : Option ScriptScan) : Bool × HtmlScriptState :=
  let url := stripFragment url
  let matched := matchesAllowance s.allowance url scan
  let matchedRemote := matchesAllowance s.remote.allowance url scan
  s.recordResponse url (.done scan) matched matchedRemote

/-- `on_main_response_pending`. -/
def onMainResponsePending (s : HtmlScriptState) (url : Url) :
    Bool × ScanTicket × HtmlScriptState :=
  let ticket := (s.nextTicket + 1) % 2 ^ 64
  let url := stripFragment url
  let (js, s) := { s with nextTicket := ticket }.recordResponse url
    (.waiting ticket) false false
  (js, ticket, s)

/-- `reset_document_flags`. -/
def resetDocumentFlags (s : HtmlScriptState) (viewed : Bool) :
    HtmlScriptState :=
  let fresh := { BannerFlags.default with viewed }
  { s with
    banner := fresh
    remote := { s.remote with banner := fresh, reshown := false } }

/-- The end of the scan of the response that is not committed yet. -/
def finishPending (s : HtmlScriptState) (pending : PendingResponse)
    (scan : Option ScriptScan) : HtmlScriptState :=
  { s with
    pending := some { pending with
      scan := .done scan
      matched := matchesAllowance s.allowance pending.url scan
      matchedRemote :=
        matchesAllowance s.remote.allowance pending.url scan } }

/-- The end of the scan of the document on screen. -/
def finishCurrent (s : HtmlScriptState) (wait : ScanWait)
    (doc : DocumentRecord) (scan : Option ScriptScan) : HtmlScriptState :=
  let doc := { doc with scan }
  let s := { s with currentWait := none, current := some doc }
  if wait.previous ≠ some doc then s.resetDocumentFlags wait.viewedIfNew
  else s

/-- `on_scan_finished`; nothing where its `expect` panics. -/
def onScanFinished (s : HtmlScriptState) (ticket : ScanTicket)
    (scan : Option ScriptScan) : Option (Option Bool × HtmlScriptState) :=
  match s.pending.filter (·.scan = .waiting ticket) with
  | some pending =>
    let s := s.finishPending pending scan
    some (some s.effectiveJs, s)
  | none =>
    match s.currentWait.filter (·.ticket = ticket) with
    | none => some (none, s)
    | some wait =>
      match s.current with
      | none => none
      | some doc =>
        let s := s.finishCurrent wait doc scan
        some (some s.effectiveJs, s)

/-- `end_load_marks`. -/
def endLoadMarks (s : HtmlScriptState) : HtmlScriptState :=
  { s with
    hostRequestedLoad := false
    viewedBeforeCommit := false
    reloadingAfterAllow := false
    remote := { s.remote with reloadingAfterAllow := false } }

/-- The document that a commit records: that of the response, or the
committed URL without a fingerprint. -/
def committedDocument (s : HtmlScriptState) (committedUrl : Option Url) :
    Option DocumentRecord :=
  match s.pending with
  | some p =>
    match p.scan with
    | .done scan => some { url := p.url, scan }
    | .waiting _ => some { url := p.url, scan := none }
  | none => committedUrl.map fun u => { url := stripFragment u, scan := none }

/-- The scan that a commit leaves to wait for. -/
def committedWait (s : HtmlScriptState) : Option ScanTicket :=
  match s.pending with
  | some p =>
    match p.scan with
    | .done _ => none
    | .waiting ticket => some ticket
  | none => none

/-- The fields of a commit that say what may run: both allowances, which
stay for a response that matched them. -/
def keepMatched (s : HtmlScriptState) : HtmlScriptState :=
  { s with
    pending := none
    allowance := if s.pending.any (·.matched) then s.allowance else none
    remote := { s.remote with
      allowance := if s.pending.any (·.matchedRemote)
        then s.remote.allowance else none
      observed := false } }

/-- `on_committed`. -/
def onCommitted (s : HtmlScriptState) (committedUrl : Option Url) :
    Bool × HtmlScriptState :=
  let record := s.committedDocument committedUrl
  let waiting := s.committedWait
  let viewedIfNew := s.viewedBeforeCommit
    || (s.banner.viewed && !s.hostRequestedLoad)
  let sameUrl := match s.current, record with
    | some a, some b => a.url == b.url
    | _, _ => false
  let sameDocument := match waiting with
    | some _ => sameUrl
    | none => match s.current, record with
      | some a, some b => a == b
      | _, _ => false
  let previous := s.current
  let s := { s.keepMatched with
    current := record
    currentWait := waiting.map fun ticket =>
      { ticket, previous := if sameUrl then previous else none, viewedIfNew } }
  let s := if !sameDocument then s.resetDocumentFlags viewedIfNew else s
  let s := { s.endLoadMarks with
    loadFailed := false, committedSinceStart := true }
  (s.effectiveJs, s)

/-- `on_load_finished`. -/
def onLoadFinished (s : HtmlScriptState) : Option Bool × HtmlScriptState :=
  let restore := s.loadInFlight && !s.committedSinceStart
  let s := { s with loadInFlight := false, pending := none }.endLoadMarks
  (if restore then some s.effectiveJs else none, s)

/-- `on_load_failed`. -/
def onLoadFailed (s : HtmlScriptState) : HtmlScriptState :=
  let s := { s with loadFailed := true }
  if s.committedSinceStart then { s with currentWait := none } else s

/-- The document on screen, when it may be allowed now. -/
def allowable (s : HtmlScriptState) : Except AllowError Allowance :=
  if s.awaitingVerdict then .error .loading
  else match s.current with
    | none => .error .noDocument
    | some doc =>
      match doc.scan with
      | none => .error .noFingerprint
      | some scan => .ok { url := doc.url, fingerprint := scan.fingerprint }

/-- `allow_current`. -/
def allowCurrent (s : HtmlScriptState) :
    Except AllowError HtmlScriptState :=
  match s.allowable with
  | .error e => .error e
  | .ok allow => .ok { s with
      allowance := some allow
      reloadRequested := true
      reloadingAfterAllow := true }

/-- `allow_remote_current`. -/
def allowRemoteCurrent (s : HtmlScriptState) :
    Except RemoteAllowError HtmlScriptState :=
  if !s.remoteSupported then .error .unsupportedView
  else if s.remote.global then .error .globallyAllowed
  else match s.allowable with
    | .error e => .error (.document e)
    | .ok allow => .ok { s with
        reloadRequested := true
        remote := { s.remote with
          allowance := some allow
          reloadingAfterAllow := true } }

-- ==== host's signals

/-- `set_remote_global`. -/
def setRemoteGlobal (s : HtmlScriptState) (allowed : Bool) :
    HtmlScriptState :=
  { s with remote := { s.remote with global := allowed } }

/-- `on_host_load_requested`. -/
def onHostLoadRequested (s : HtmlScriptState) : HtmlScriptState :=
  { s with
    hostRequestedLoad := true
    viewedBeforeCommit :=
      if s.current.isSome then false else s.viewedBeforeCommit }

/-- `on_user_load_requested`. -/
def onUserLoadRequested (s : HtmlScriptState) : HtmlScriptState :=
  { s with hostRequestedLoad := false, viewedBeforeCommit := true }

/-- `on_user_view`. -/
def onUserView (s : HtmlScriptState) : HtmlScriptState :=
  { s with
    banner := { s.banner with viewed := s.banner.viewed || s.current.isSome }
    remote := { s.remote with
      banner := { s.remote.banner with
        viewed := s.remote.banner.viewed || s.current.isSome } }
    viewedBeforeCommit :=
      s.viewedBeforeCommit || s.current.isNone || s.loadInFlight }

/-- `take_reload_request`. -/
def takeReloadRequest (s : HtmlScriptState) : Bool × HtmlScriptState :=
  (s.reloadRequested, { s with reloadRequested := false })

end HtmlScriptState

/-- A call on the state: the callbacks of a load, the user's two
allowances, the setting, and the host's signals. -/
inductive Callback where
  | loadStarted
  | mainResponse (url : Url) (scan : Option ScriptScan)
  | mainResponsePending (url : Url)
  | scanFinished (ticket : ScanTicket) (scan : Option ScriptScan)
  | committed (url : Option Url)
  | loadFinished
  | loadFailed
  | allowCurrent
  | allowRemoteCurrent
  | setSandbox (sandbox : Bool)
  | setRemoteGlobal (allowed : Bool)
  | hostLoadRequested
  | userLoadRequested
  | userView
  | takeReloadRequest

namespace HtmlScriptState

/-- One call: the script value that it returns, if it returns one, and the
state after it. A refused allowance changes nothing. -/
def call (s : HtmlScriptState) :
    Callback → Option (Option Bool × HtmlScriptState)
  | .loadStarted => some (some s.onLoadStarted.1, s.onLoadStarted.2)
  | .mainResponse url scan =>
    some (some (s.onMainResponse url scan).1, (s.onMainResponse url scan).2)
  | .mainResponsePending url =>
    some (some (s.onMainResponsePending url).1,
      (s.onMainResponsePending url).2.2)
  | .scanFinished ticket scan => s.onScanFinished ticket scan
  | .committed url => some (some (s.onCommitted url).1, (s.onCommitted url).2)
  | .loadFinished => some s.onLoadFinished
  | .loadFailed => some (none, s.onLoadFailed)
  | .allowCurrent => some (none, s.allowCurrent.toOption.getD s)
  | .allowRemoteCurrent => some (none, s.allowRemoteCurrent.toOption.getD s)
  | .setSandbox sandbox =>
    some (some (s.setSandbox sandbox).1, (s.setSandbox sandbox).2)
  | .setRemoteGlobal allowed => some (none, s.setRemoteGlobal allowed)
  | .hostLoadRequested => some (none, s.onHostLoadRequested)
  | .userLoadRequested => some (none, s.onUserLoadRequested)
  | .userView => some (none, s.onUserView)
  | .takeReloadRequest => some (none, s.takeReloadRequest.2)

end HtmlScriptState

end Tasty.Html
