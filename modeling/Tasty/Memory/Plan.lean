/-
Plans (`plan.rs`): lists of steps that depend on each other, kept as one
JSON entry each. A call reads the whole plan, changes it, and writes it back
if it is still valid.
-/
import Tasty.Lib.Cycles
import Tasty.Memory.Store

namespace Tasty.Memory

open Agent (Value)
open ThreeColour (Marks)

def PLAN_KEY_PREFIX : String := "tasty.plan."
def PLAN_ID_MAX : Nat := 64
def PLAN_STEP_ID_MAX : Nat := 64
def PLAN_TITLE_MAX : Nat := 256
def PLAN_NOTES_MAX : Nat := 2048
def PLAN_STEP_MAX : Nat := 256

inductive PlanStepState where
  | pending
  | inProgress
  | completed
  | failed
  | skipped
  deriving DecidableEq

structure PlanStep where
  id : String
  title : String
  state : PlanStepState
  dependsOn : List String
  notes : Option String
  deriving DecidableEq

structure Plan where
  id : String
  title : String
  createdAt : Int64
  createdBy : String
  updatedAt : Int64
  steps : List PlanStep
  deriving DecidableEq

-- ==== the checks

def isIdByte (b : UInt8) : Bool :=
  isLowercase b || isDigit b || b == 0x5F || b == 0x2D

def validateIdInner (id : String) (max : Nat) (label : String) :
    Except MemoryError Unit :=
  if id.utf8ByteSize = 0 then .error (.invalidKey (label ++ ": empty"))
  else if max < id.utf8ByteSize then
    .error (.invalidKey
      (label ++ s!": too long ({id.utf8ByteSize} > {max})"))
  else match firstNot isIdByte (asBytes id) with
    | some (i, b) =>
      .error (.invalidKey
        (label ++ s!": invalid char {debugByte b} at {i}"))
    | none => .ok ()

def validatePlanId (id : String) : Except MemoryError Unit :=
  validateIdInner id PLAN_ID_MAX "plan_id"

def validateStepId (id : String) : Except MemoryError Unit :=
  validateIdInner id PLAN_STEP_ID_MAX "step_id"

def planKey (planId : String) : String := PLAN_KEY_PREFIX ++ planId

/-- The limits of one step, and that its id is not among the ones before. -/
def checkStep (ids : List String) (step : PlanStep) :
    Except MemoryError Unit := do
  validateStepId step.id
  rejectIf (step.title = "")
    (.invalidKey s!"step '{step.id}': title empty")
  rejectIf (PLAN_TITLE_MAX < step.title.utf8ByteSize)
    (.invalidKey s!"step '{step.id}': title too long")
  rejectIf (step.notes.any (PLAN_NOTES_MAX < ·.utf8ByteSize))
    (.invalidKey s!"step '{step.id}': notes too long")
  rejectIf (step.id ∈ ids) (.invalidKey s!"duplicate step id: {step.id}")

def checkSteps : List String → List PlanStep → Except MemoryError Unit
  | _, [] => .ok ()
  | ids, step :: rest => do
      checkStep ids step
      checkSteps (step.id :: ids) rest

def checkDep (ids : List String) (step : PlanStep) (dep : String) :
    Except MemoryError Unit := do
  rejectIf (dep = step.id)
    (.invalidKey s!"step '{step.id}' depends on itself")
  rejectIf (dep ∉ ids)
    (.invalidKey s!"step '{step.id}' depends on unknown step '{dep}'")

/-- The adjacency map; where an id comes twice the later step counts. -/
def adjOf (steps : List PlanStep) : List (String × List String) :=
  steps.reverse.map fun s => (s.id, s.dependsOn)

/-- `dfs_cycle`: `ThreeColour.search_eq` is its text. -/
def dfsCycle (adj : List (String × List String)) (marks : Marks String)
    (node : String) : Bool × Marks String :=
  ThreeColour.search adj marks node

def checkCycles (adj : List (String × List String)) :
    Marks String → List PlanStep → Except MemoryError Unit
  | _, [] => .ok ()
  | marks, step :: rest =>
    match dfsCycle adj marks step.id with
    | (true, _) => .error (.invalidKey
        s!"dependency cycle involving step '{step.id}'")
    | (false, marks) => checkCycles adj marks rest

def validatePlan (plan : Plan) : Except MemoryError Unit := do
  validatePlanId plan.id
  rejectIf (plan.title = "") (.invalidKey "plan title empty")
  rejectIf (PLAN_TITLE_MAX < plan.title.utf8ByteSize) (.invalidKey
    s!"plan title too long ({plan.title.utf8ByteSize} > {PLAN_TITLE_MAX})")
  rejectIf (PLAN_STEP_MAX < plan.steps.length) (.invalidKey
    s!"plan step count exceeds cap ({plan.steps.length} > {PLAN_STEP_MAX})")
  checkSteps [] plan.steps
  plan.steps.forM fun step =>
    step.dependsOn.forM (checkDep (plan.steps.map PlanStep.id) step)
  checkCycles (adjOf plan.steps) [] plan.steps

-- ==== its JSON

def PlanStepState.name : PlanStepState → String
  | .pending => "pending"
  | .inProgress => "in_progress"
  | .completed => "completed"
  | .failed => "failed"
  | .skipped => "skipped"

def PlanStep.toValue (s : PlanStep) : Value :=
  .object (
    (if s.dependsOn.isEmpty then []
      else [("depends_on", .array (s.dependsOn.map .string))])
    ++ [("id", .string s.id)]
    ++ s.notes.toList.map (fun n => ("notes", .string n))
    ++ [("state", .string s.state.name), ("title", .string s.title)])

/-- `serde_json::to_value(plan)`. -/
def Plan.toValue (p : Plan) : Value :=
  .object [("created_at", .ofI64 p.createdAt),
    ("created_by", .string p.createdBy), ("id", .string p.id),
    ("steps", .array (p.steps.map PlanStep.toValue)),
    ("title", .string p.title), ("updated_at", .ofI64 p.updatedAt)]

/-- The fields of a record, which is an object or an array of its fields. -/
def fieldsOf (names : List String) :
    Value → Option (String → Option Value)
  | .object entries => some fun name => entries.lookup name
  | .array items =>
    if items.length ≤ names.length then
      some fun name => (names.zip items).lookup name
    else none
  | _ => none

def readString : Value → Option String
  | .string s => some s
  | _ => none

def readI64 : Value → Option Int64
  | .number n => n.asI64
  | _ => none

def readStrings : Value → Option (List String)
  | .array items => items.mapM readString
  | _ => none

def PlanStepState.ofName (name : String) : Option PlanStepState :=
  [.pending, .inProgress, .completed, .failed, .skipped].find?
    fun s => s.name = name

def PlanStepState.read : Value → Option PlanStepState
  | .string name => ofName name
  | .object [(name, .null)] => ofName name
  | _ => none

def readOption {α : Type} (read : Value → Option α) :
    Value → Option (Option α)
  | .null => some none
  | v => (read v).map some

/-- A field with a default. -/
def readOr {α : Type} (default : α) (read : Value → Option α) :
    Option Value → Option α
  | none => some default
  | some v => read v

def PlanStep.read (v : Value) : Option PlanStep := do
  let field ← fieldsOf ["id", "title", "state", "depends_on", "notes"] v
  let id ← (field "id").bind readString
  let title ← (field "title").bind readString
  let state ← readOr .pending PlanStepState.read (field "state")
  let dependsOn ← readOr [] readStrings (field "depends_on")
  let notes ← readOr none (readOption readString) (field "notes")
  some { id, title, state, dependsOn, notes }

def readSteps : Value → Option (List PlanStep)
  | .array items => items.mapM PlanStep.read
  | _ => none

/-- `serde_json::from_value::<Plan>`. -/
def Plan.read (v : Value) : Option Plan := do
  let field ← fieldsOf
    ["id", "title", "created_at", "created_by", "updated_at", "steps"] v
  let id ← (field "id").bind readString
  let title ← (field "title").bind readString
  let createdAt ← (field "created_at").bind readI64
  let createdBy ← (field "created_by").bind readString
  let updatedAt ← (field "updated_at").bind readI64
  let steps ← readOr [] readSteps (field "steps")
  some { id, title, createdAt, createdBy, updatedAt, steps }

/-- The library that turns plans to text: the text of values, and what it
says of a value that is no plan. -/
structure PlanText extends ValueText where
  planError : Value → String

/-- `plan_from_entry`. -/
def planFromEntry (layer : PlanText) (entry : MemoryEntry) :
    Except MemoryError Plan :=
  match entry.value with
  | .json v =>
    match Plan.read v with
    | some plan => .ok plan
    | none => .error (.invalidContentType
        ("invalid plan json: " ++ layer.planError v))
  | _ => .error (.invalidContentType
      ("plan entry is not application/json: " ++ entry.key))

-- ==== the calls

/-- What a call on a plan meets: the clock of its own, and what its read and
its write of the store meet. -/
structure PlanEnv where
  now : Int64
  read : Env
  write : Env

def planCreate (layer : PlanText) (env : PlanEnv) (store : MemoryStore)
    (owner : String) (workspaceId : UInt32) (planId title : String)
    (steps : List PlanStep) : MemoryStore × Except MemoryError Nat :=
  let plan : Plan :=
    { id := planId, title, createdAt := env.now, createdBy := owner
      updatedAt := env.now, steps }
  let scope := Scope.workspace workspaceId
  let key := planKey planId
  let checked : Except MemoryError Unit := do
    validatePlan plan
    let existing ← store.get layer.toValueText env.read scope key
    rejectIf existing.isSome (.alreadyExists scope.asToken key)
  match checked with
  | .error e => (store, .error e)
  | .ok () =>
    store.put layer.toValueText env.write owner scope key
      (.json plan.toValue) .default

def planGet (layer : PlanText) (env : Env) (store : MemoryStore)
    (workspaceId : UInt32) (planId : String) :
    Except MemoryError (Option Plan) := do
  validatePlanId planId
  match ← store.get layer.toValueText env (.workspace workspaceId)
      (planKey planId) with
  | none => .ok none
  | some entry => (planFromEntry layer entry).map some

def planDelete (env : Env) (store : MemoryStore) (owner : String)
    (workspaceId : UInt32) (planId : String) :
    MemoryStore × Except MemoryError Unit :=
  match validatePlanId planId with
  | .error e => (store, .error e)
  | .ok () =>
    store.delete env owner (.workspace workspaceId) (planKey planId) none

/-- Reads the plan, changes it, and writes it back if it is valid. -/
def updatePlan (layer : PlanText) (env : PlanEnv) (store : MemoryStore)
    (owner : String) (workspaceId : UInt32) (planId : String)
    (cas : Option Nat) (mutate : Plan → Except MemoryError Plan) :
    MemoryStore × Except MemoryError Nat :=
  let scope := Scope.workspace workspaceId
  let key := planKey planId
  let changed : Except MemoryError Plan := do
    validatePlanId planId
    let entry ← store.get layer.toValueText env.read scope key
    match entry with
    | none => .error (.notFound scope.asToken key)
    | some entry => do
        let plan ← planFromEntry layer entry
        let plan ← mutate plan
        let plan := { plan with updatedAt := env.now }
        validatePlan plan
        .ok plan
  match changed with
  | .error e => (store, .error e)
  | .ok plan =>
    store.put layer.toValueText env.write owner scope key
      (.json plan.toValue) { expiresAt := none, cas }

def planAddStep (layer : PlanText) (env : PlanEnv) (store : MemoryStore)
    (owner : String) (workspaceId : UInt32) (planId : String)
    (step : PlanStep) (position : Option Nat) (cas : Option Nat) :
    MemoryStore × Except MemoryError Nat :=
  updatePlan layer env store owner workspaceId planId cas fun plan =>
    let pos := min (position.getD plan.steps.length) plan.steps.length
    .ok { plan with steps := plan.steps.insertIdx pos step }

def planRemoveStep (layer : PlanText) (env : PlanEnv) (store : MemoryStore)
    (owner : String) (workspaceId : UInt32) (planId stepId : String)
    (cas : Option Nat) : MemoryStore × Except MemoryError Nat :=
  updatePlan layer env store owner workspaceId planId cas fun plan =>
    match plan.steps.find? fun s =>
        s.id ≠ stepId && s.dependsOn.contains stepId with
    | some s => .error (.invalidKey
        s!"step '{stepId}' is referenced by '{s.id}'")
    | none =>
      let steps := plan.steps.filter fun s => s.id ≠ stepId
      if steps.length = plan.steps.length then
        .error (.notFound ("plan:" ++ plan.id) stepId)
      else .ok { plan with steps }

/-- The first step with this id changed. -/
def changeFirst (stepId : String) (change : PlanStep → PlanStep) :
    List PlanStep → Option (List PlanStep)
  | [] => none
  | step :: rest =>
    if step.id = stepId then some (change step :: rest)
    else (changeFirst stepId change rest).map (step :: ·)

def planUpdateStep (layer : PlanText) (env : PlanEnv) (store : MemoryStore)
    (owner : String) (workspaceId : UInt32) (planId stepId : String)
    (newState : Option PlanStepState) (notes : Option (Option String))
    (cas : Option Nat) : MemoryStore × Except MemoryError Nat :=
  updatePlan layer env store owner workspaceId planId cas fun plan =>
    match changeFirst stepId (fun step =>
        { step with
          state := newState.getD step.state
          notes := notes.getD step.notes }) plan.steps with
    | none => .error (.notFound ("plan:" ++ plan.id) stepId)
    | some steps => .ok { plan with steps }

end Tasty.Memory
