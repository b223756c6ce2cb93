/-
Categories, workspace details, tab names and split ratios
(`crates/tasty-core/src/command/metadata.rs`), with the category name
rules of `crates/tasty-model/src/workspace_category.rs`.
-/
import Tasty.Core.Command

namespace Tasty.Core

-- ==== category names

/-- `char::is_whitespace`: the Unicode property White_Space. -/
def isWhitespace (c : Char) : Bool :=
  (0x9 ≤ c.val && c.val ≤ 0xD) || c.val = 0x20 || c.val = 0x85
    || c.val = 0xA0 || c.val = 0x1680
    || (0x2000 ≤ c.val && c.val ≤ 0x200A) || c.val = 0x2028
    || c.val = 0x2029 || c.val = 0x202F || c.val = 0x205F
    || c.val = 0x3000

/-- `raw.trim()`. -/
def normalizeCategoryName (raw : String) : String :=
  let tail := raw.toList.dropWhile isWhitespace
  String.ofList (tail.reverse.dropWhile isWhitespace).reverse

/-- `eq_ignore_ascii_case`. -/
def eqIgnoreAsciiCase (a b : String) : Bool :=
  a.toList.map Char.toLower = b.toList.map Char.toLower

inductive CategoryNameError where
  | empty
  | reserved
  | duplicate
  deriving DecidableEq

def CategoryNameError.text : CategoryNameError → String
  | empty => "category name must not be empty"
  | reserved => "'normal' is a reserved category name"
  | duplicate => "a category with this name already exists"

def normalCategoryName : String := "normal"

def isReservedNormal (name : String) : Bool :=
  eqIgnoreAsciiCase (normalizeCategoryName name) normalCategoryName

def validateNewCategoryName (raw : String) (existing : List String) :
    Except CategoryNameError String :=
  let name := normalizeCategoryName raw
  if name.isEmpty then .error .empty
  else if isReservedNormal name then .error .reserved
  else if existing.any (eqIgnoreAsciiCase · name) then .error .duplicate
  else .ok name

/-- The caller leaves the renamed category out of `existing`. -/
def validateRenameCategoryName (raw : String) (existing : List String) :
    Except CategoryNameError String :=
  validateNewCategoryName raw existing

namespace Metadata

-- ==== helpers

/-- `map_err(|e| Rejection(e.to_string()))` on a name. -/
def named (result : Except CategoryNameError String) : Decided String :=
  match result with
  | .ok name => .ok name
  | .error e => .error (.reject ⟨e.text⟩)

def mutableCategory (m : JournalModel) (id : UInt32) : Decided Unit := do
  rejectIf (id = 0) "the 'normal' category cannot be renamed or deleted"
  rejectIf (m.categories.contains id = false) "category not found"

def workspace (m : JournalModel) (id : UInt32) : Decided Workspace :=
  orReject m.workspaces[id]? s!"Workspace id {id} not found"

/-- The node at the end of a path. -/
def nodeAt : List Bool → SplitTree UInt32 → Decided (SplitTree UInt32)
  | [], node => .ok node
  | side :: path, .split _ _ first second =>
    nodeAt path (if side then second else first)
  | _ :: _, .leaf _ => .error (.reject ⟨"split target no longer exists"⟩)

def isLeafNode : SplitTree UInt32 → Bool
  | .leaf _ => true
  | .split .. => false

def checkSplit (tree : SplitTree UInt32) (path : List Bool)
    (expected : List UInt32) : Decided Unit := do
  let node ← nodeAt path tree
  rejectIf (isLeafNode node = true ∨ node.leaves ≠ expected)
    "split target changed before the command was committed"

def checkRevision (m : JournalModel) (expected : UInt64) :
    Decided Unit :=
  rejectIf (m.applied.revision ≠ some expected)
    "split changed since the drag began"

/-- Move to `normal` each workspace in order whose category passes,
keeping its position. The workspaces are indexed (`m.workspaces[id]`). -/
def moveToNormal (m : JournalModel) (leaves : UInt32 → Bool) :
    Nat → List UInt32 → Decided (List DomainEvent)
  | _, [] => .ok []
  | index, id :: rest => do
      let w ← orPanic m.workspaces[id]?
      let moves ← moveToNormal m leaves (index + 1) rest
      if leaves w.category then
        .ok (.workspaceMoved id 0 (UInt64.ofNat index) :: moves)
      else .ok moves

-- ==== categories

/-- Close every category but `normal`, in display order. -/
def closeOthers (m : JournalModel) : List DomainEvent :=
  (m.categoryOrder.filter (· ≠ 0)).map .categoryClosed

def resetCategories (m : JournalModel) : Decided StructuralDecision := do
  let moves ← moveToNormal m (· ≠ 0) 0 m.workspaceOrder
  .ok (.plain (moves ++ closeOthers m) .updated)

def createCategory (m : JournalModel) (reservedId : UInt32)
    (name : String) : Decided StructuralDecision := do
  rejectIf (reservedId = 0 ∨ m.categories.contains reservedId = true)
    "category ID was not freshly reserved"
  let name ← named (validateNewCategoryName name
    (m.categories.values.map Category.name))
  .ok (.plain
    [.categoryCreated reservedId name (usizeLen m.categoryOrder)]
    (.createdCategory reservedId))

def renameCategory (m : JournalModel) (id : UInt32) (name : String) :
    Decided StructuralDecision := do
  mutableCategory m id
  let others := (m.categories.toList.filter (·.1 ≠ id)).map (·.2.name)
  let name ← named (validateRenameCategoryName name others)
  .ok (.plain [.categoryRenamed id name] .updated)

def deleteCategory (m : JournalModel) (id : UInt32) :
    Decided StructuralDecision := do
  mutableCategory m id
  let moves ← moveToNormal m (· = id) 0 m.workspaceOrder
  .ok (.plain (moves ++ [.categoryClosed id]) .updated)

def reorderCategory (m : JournalModel) (id : UInt32) (toIndex : Usize) :
    Decided StructuralDecision := do
  rejectIf (id = 0 ∨ toIndex = 0)
    "the 'normal' category is fixed at position 0"
  let from_ ← orReject (m.categoryOrder.idxOf? id)
    "category index out of range"
  rejectIf (toIndex.toNat ≥ m.categoryOrder.length)
    "category index out of range"
  .ok (.plain
    (if from_ ≠ toIndex.toNat then [.categoryMoved id toIndex] else [])
    .updated)

-- ==== workspaces

def setWorkspaceCategory (m : JournalModel)
    (workspaceId category : UInt32) : Decided StructuralDecision := do
  rejectIf (m.categories.contains category = false) "category not found"
  let index ← orReject (m.workspaceOrder.idxOf? workspaceId)
    "workspace not found"
  .ok (.plain
    [.workspaceMoved workspaceId category (UInt64.ofNat index)] .updated)

def updateWorkspaceMeta (m : JournalModel) (workspaceId : UInt32)
    (name subtitle description : Option String) :
    Decided StructuralDecision := do
  let ws ← workspace m workspaceId
  let renamed := match name with
    | some name => [.workspaceRenamed workspaceId name]
    | none => []
  let details :=
    if subtitle.isSome || description.isSome then
      [.workspaceDetailsSet workspaceId (subtitle.getD ws.subtitle)
        (description.getD ws.description)]
    else []
  .ok (.plain (renamed ++ details) .updated)

def setWorkspaceAttachMapping (m : JournalModel) (workspaceId : UInt32)
    (mapping : Option WorkspaceAttachMapping) :
    Decided StructuralDecision := do
  let _ ← workspace m workspaceId
  .ok (.plain [.workspaceAttachMappingSet workspaceId mapping] .updated)

def moveWorkspace (m : JournalModel) (workspaceId : UInt32)
    (toIndex : Usize) : Decided StructuralDecision :=
  match m.workspaceOrder.idxOf? workspaceId with
  | none => .ok (.noop (.moved false))
  | some from_ =>
    if from_ ≠ toIndex.toNat
        ∧ toIndex.toNat < m.workspaceOrder.length then do
      let w ← orPanic m.workspaces[workspaceId]?
      .ok (.plain [.workspaceMoved workspaceId w.category toIndex]
        (.moved true))
    else .ok (.noop (.moved false))

-- ==== tabs and ratios

def renameTab (m : JournalModel) (tabId : UInt32)
    (name : Option String) : Decided StructuralDecision := do
  rejectIf (m.tabs.contains tabId = false) s!"Tab id {tabId} not found"
  .ok (.plain [.tabExplicitNameSet tabId name] .updated)

/-- `position(..).is_some_and(|from| from != to && to < len)`. -/
def canMoveTab (pane : Pane) (tabId : UInt32) (toIndex : Usize) : Bool :=
  match pane.tabs.idxOf? tabId with
  | some from_ => from_ ≠ toIndex.toNat && toIndex.toNat < pane.tabs.length
  | none => false

def moveTab (m : JournalModel) (paneId tabId : UInt32)
    (toIndex : Usize) : Decided StructuralDecision :=
  match m.panes[paneId]? with
  | some pane =>
    if canMoveTab pane tabId toIndex then
      .ok (.plain [.tabMoved tabId paneId toIndex] (.moved true))
    else .ok (.noop (.moved false))
  | none => .ok (.noop (.moved false))

def setPaneRatio (m : JournalModel) (workspaceId : UInt32)
    (path : List Bool) (expectedLeaves : List UInt32)
    (expectedRevision : UInt64) (ratio : Ratio) :
    Decided StructuralDecision := do
  checkRevision m expectedRevision
  let ws ← workspace m workspaceId
  checkSplit ws.layout path expectedLeaves
  .ok (.plain [.paneRatioSet workspaceId path ratio] .updated)

def setSurfaceRatio (m : JournalModel) (tabId : UInt32)
    (path : List Bool) (expectedLeaves : List UInt32)
    (expectedRevision : UInt64) (ratio : Ratio) :
    Decided StructuralDecision := do
  let tab ← orReject m.tabs[tabId]? s!"Tab id {tabId} not found"
  checkRevision m expectedRevision
  checkSplit tab.layout path expectedLeaves
  .ok (.plain [.surfaceRatioSet tabId path ratio] .updated)

end Metadata

end Tasty.Core
