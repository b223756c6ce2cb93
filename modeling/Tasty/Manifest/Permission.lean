/-
The permissions that a manifest, a session or a grant may name
(`crates/tasty-plugin-manifest`), and the tokens that name them.
-/
import Tasty.Lib.Texts

namespace Tasty.Manifest

inductive Permission where
  | surfaceRead
  | surfaceWrite
  | notification
  | clipboardRead
  | clipboardWrite
  | fsRead
  | fsWrite
  | processSpawn
  | terminalSpawn
  | terminalWrite
  | terminalRead
  | network
  | memoryRead
  | memoryWrite
  | memorySecret
  | approval
  | telemetry
  | agentManage
  | agentTurnReport
  | ipcInvoke (ipcPrefix : String)
  | extension (target : String)
  | uiToolItem
  | uiPopup
  | uiBanner
  | uiSettingsPage
  | windowSpawn
  | fileHandlerDefine
  | fileHandlerExtend (id : String)
  | fileHandlerHandle (id : String)
  | hookHandlerDefine
  | hookHandlerHandle (id : String)
  | completionStrategyDefine
  deriving DecidableEq

-- ==== the names

def isAsciiLowercase (c : Char) : Bool := 'a' ≤ c && c ≤ 'z'

def isAsciiUppercase (c : Char) : Bool := 'A' ≤ c && c ≤ 'Z'

def isAsciiDigit (c : Char) : Bool := '0' ≤ c && c ≤ '9'

/-- A character of a host id: a lower-case letter, a digit or a hyphen. -/
def isIdChar (c : Char) : Bool :=
  isAsciiLowercase c || isAsciiDigit c || c == '-'

def isValidIpcPrefix (s : String) : Bool :=
  if s.utf8ByteSize = 0 ∨ 32 < s.utf8ByteSize then false
  else s.toList.head?.any isAsciiLowercase
    && s.toList.all fun c =>
      isAsciiLowercase c || isAsciiDigit c || c == '_'

/-- The prefixes of the host's own methods. -/
def RESERVED_IPC_PREFIXES : List String :=
  ["agent", "approval", "attach", "banner", "clipboard",
    "completion_strategy", "debug", "events", "file_handler", "file_picker",
    "fs", "git_viewer", "global_hook", "hook", "hook_handler", "host", "ime",
    "ipc", "markdown_mirror", "memory", "message", "notification", "output",
    "pane", "plugin", "popup", "preset", "pty", "recent", "remote", "run",
    "session", "settings", "split", "surface", "system", "tab", "telemetry",
    "terminal", "theme", "timer", "tool", "tree", "ui", "view", "webhook",
    "webview", "window", "workspace", "workspace_category"]

def isReservedIpcPrefix (s : String) : Bool := RESERVED_IPC_PREFIXES.contains s

def isValidPluginId (s : String) : Bool :=
  s.utf8ByteSize != 0
    && (s.toList.all fun c => isAsciiLowercase c || isAsciiUppercase c
      || isAsciiDigit c || c == '.' || c == '-' || c == '_')
    && s.toList.contains '.'

/-- The id of a detector; one that is built in begins with `$`. -/
def isValidDetectorIdLocal (s : String) : Bool :=
  if s.utf8ByteSize = 0 ∨ 64 < s.utf8ByteSize then false
  else match stripPrefix "$" s with
    | some rest => rest.utf8ByteSize != 0 && rest.toList.all isIdChar
    | none => s.toList.all isIdChar

def isValidHookHandlerId (s : String) : Bool :=
  if s.utf8ByteSize = 0 ∨ 32 < s.utf8ByteSize then false
  else s.toList.all isIdChar

-- ==== the tokens

namespace Permission

/-- The tokens that name a permission together with what it is for. -/
def fromTargetToken (s : String) : Option Permission :=
  match stripPrefix "ipc.invoke:" s with
  | some ipcPrefix =>
    if !isValidIpcPrefix ipcPrefix || isReservedIpcPrefix ipcPrefix then
      none
    else some (.ipcInvoke ipcPrefix)
  | none =>
  match stripPrefix "ext:" s with
  | some target =>
    if !isValidPluginId target then none else some (.extension target)
  | none =>
  match stripPrefix "file_handler.extend:" s with
  | some id =>
    if !isValidDetectorIdLocal id || id == "$unknown" then none
    else some (.fileHandlerExtend id)
  | none =>
  match stripPrefix "file_handler.handle:" s with
  | some id =>
    if !isValidDetectorIdLocal id || id == "$unknown" then none
    else some (.fileHandlerHandle id)
  | none =>
  match stripPrefix "hook_handler.handle:" s with
  | some id =>
    if !isValidHookHandlerId id then none else some (.hookHandlerHandle id)
  | none => none

def fromToken (s : String) : Option Permission :=
  match s with
  | "surface.read" => some .surfaceRead
  | "surface.write" => some .surfaceWrite
  | "notification" => some .notification
  | "clipboard.read" => some .clipboardRead
  | "clipboard.write" => some .clipboardWrite
  | "fs.read" => some .fsRead
  | "fs.write" => some .fsWrite
  | "process.spawn" => some .processSpawn
  | "terminal.spawn" => some .terminalSpawn
  | "terminal.write" => some .terminalWrite
  | "terminal.read" => some .terminalRead
  | "network" => some .network
  | "memory.read" => some .memoryRead
  | "memory.write" => some .memoryWrite
  | "memory.secret" => some .memorySecret
  | "approval" => some .approval
  | "telemetry" => some .telemetry
  | "agent" => some .agentManage
  | "agent.turn_report" => some .agentTurnReport
  | "ui.tool_item" => some .uiToolItem
  | "ui.popup" => some .uiPopup
  | "ui.banner" => some .uiBanner
  | "ui.settings_page" => some .uiSettingsPage
  | "window.spawn" => some .windowSpawn
  | "file_handler.define" => some .fileHandlerDefine
  | "hook_handler.define" => some .hookHandlerDefine
  | "completion_strategy.define" => some .completionStrategyDefine
  | other => fromTargetToken other

def asToken : Permission → String
  | surfaceRead => "surface.read"
  | surfaceWrite => "surface.write"
  | notification => "notification"
  | clipboardRead => "clipboard.read"
  | clipboardWrite => "clipboard.write"
  | fsRead => "fs.read"
  | fsWrite => "fs.write"
  | processSpawn => "process.spawn"
  | terminalSpawn => "terminal.spawn"
  | terminalWrite => "terminal.write"
  | terminalRead => "terminal.read"
  | network => "network"
  | memoryRead => "memory.read"
  | memoryWrite => "memory.write"
  | memorySecret => "memory.secret"
  | approval => "approval"
  | telemetry => "telemetry"
  | agentManage => "agent"
  | agentTurnReport => "agent.turn_report"
  | ipcInvoke ipcPrefix => "ipc.invoke:" ++ ipcPrefix
  | extension target => "ext:" ++ target
  | uiToolItem => "ui.tool_item"
  | uiPopup => "ui.popup"
  | uiBanner => "ui.banner"
  | uiSettingsPage => "ui.settings_page"
  | windowSpawn => "window.spawn"
  | fileHandlerDefine => "file_handler.define"
  | fileHandlerExtend id => "file_handler.extend:" ++ id
  | fileHandlerHandle id => "file_handler.handle:" ++ id
  | hookHandlerDefine => "hook_handler.define"
  | hookHandlerHandle id => "hook_handler.handle:" ++ id
  | completionStrategyDefine => "completion_strategy.define"

theorem asToken_of_fromTargetToken {s : String} {p : Permission}
    (h : fromTargetToken s = some p) : p.asToken = s := by
  unfold fromTargetToken at h
  repeat' split at h
  all_goals first
    | cases h
      exact (stripPrefix_eq_some.1 ‹_›).symm
    | cases h

theorem asToken_of_fromToken {s : String} {p : Permission}
    (h : fromToken s = some p) : p.asToken = s := by
  unfold fromToken at h
  split at h
  case h_28 => exact asToken_of_fromTargetToken h
  all_goals
    cases h
    rfl

end Permission

end Tasty.Manifest
