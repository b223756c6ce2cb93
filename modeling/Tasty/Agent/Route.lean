/-
Transitions of v2 tasks (`crates/tasty-agent/src/task/route.rs`): the
check of their conditions and targets at submission, the choice of a
route after a success, and what a task is told by the tasks before it.
-/
import Tasty.Agent.Outcome

namespace Tasty.Agent

-- ==== equality

/-- Two numbers are the same token, or doubles of the same value. -/
def Number.same : Number → Number → Bool
  | .posInt a, .posInt b => a = b
  | .negInt a, .negInt b => a = b
  | .float a, .float b => !a.isNan && !b.isNan && a.key = b.key
  | _, _ => false

namespace Value

mutual

/-- `==` of JSON values. -/
def same : Value → Value → Bool
  | null, null => true
  | bool a, bool b => a = b
  | number a, number b => a.same b
  | string a, string b => a = b
  | array a, array b => sameItems a b
  | object a, object b => sameEntries a b
  | _, _ => false

def sameItems : List Value → List Value → Bool
  | [], [] => true
  | a :: as, b :: bs => a.same b && sameItems as bs
  | _, _ => false

def sameEntries : List (String × Value) → List (String × Value) → Bool
  | [], [] => true
  | (k, a) :: as, (l, b) :: bs => k = l && a.same b && sameEntries as bs
  | _, _ => false

end

end Value

namespace TypedValue

mutual

/-- `==` of typed values. -/
def same : TypedValue → TypedValue → Bool
  | null, null => true
  | bool a, bool b => a = b
  | int64 a, int64 b => a = b
  | float64 a, float64 b => a.same b
  | string a, string b => a = b
  | list a, list b => sameItems a b
  | object a, object b => sameFields a b
  | json a, json b => a.same b
  | _, _ => false

def sameItems : List TypedValue → List TypedValue → Bool
  | [], [] => true
  | a :: as, b :: bs => a.same b && sameItems as bs
  | _, _ => false

def sameFields :
    List (String × TypedValue) → List (String × TypedValue) → Bool
  | [], [] => true
  | (k, a) :: as, (l, b) :: bs => k = l && a.same b && sameFields as bs
  | _, _ => false

end

/-- The kinds that conditions compare. -/
def compare : TypedValue → TypedValue → Option Ordering
  | int64 a, int64 b => some (Ord.compare a.toInt b.toInt)
  | float64 a, float64 b => do
      -- checked values are doubles exactly
      let a ← floatOf a
      let b ← floatOf b
      if a.isNan || b.isNan then none
      else some (Ord.compare a.key b.key)
  | string a, string b => some (Ord.compare a b)
  | bool a, bool b => some (Ord.compare a b)
  | _, _ => none

end TypedValue

namespace Condition

mutual

/-- `==` of conditions. -/
def same : Condition → Condition → Bool
  | all a, all b => sameItems a b
  | any a, any b => sameItems a b
  | not a, not b => a.same b
  | compare p o v i, compare q r w j =>
    p = q && o = r && v.same w && i = j
  | mem p vs i, mem q ws j => p = q && Value.sameItems vs ws && i = j
  | _, _ => false

def sameItems : List Condition → List Condition → Bool
  | [], [] => true
  | a :: as, b :: bs => a.same b && sameItems as bs
  | _, _ => false

end

end Condition

-- ==== targets

/-- Add what is not there yet. -/
def pushNew (out : List TaskId) (id : TaskId) : List TaskId :=
  if out.contains id then out else out ++ [id]

/-- The ids of a list, each once, in order. -/
def distinct (ids : List TaskId) : List TaskId := ids.foldl pushNew []

/-- The tasks that a task can select. -/
def transitionTargets (task : Task) : List TaskId :=
  match task.contract.bind TaskContract.transitions with
  | some t => distinct t.targets
  | none => []

-- ==== the check

/-- A failure of a definition, of a task and at a place of it. -/
def routeFailure (taskId : TaskId) (message location : String) :
    TaskFailure :=
  { TaskFailure.new .input s!"task {taskId}: {message}" with
    location := some location, taskId := some taskId }

section Check

variable [F64Text]

/-- The type of what a condition reads, never null; `input` is an input of
a reduce `all`. -/
def operandSchema (task : Task) (path : String) (input : Option TaskId)
    (lookup : TaskId → Option Task) :
    Except String (TypeDefs × TypeSchema) := do
  let (defs, base) ← match input with
    | none => .ok (outputSchemaOf task)
    | some id =>
      match task.command with
      | .reduce inputs .all =>
        if !inputs.contains id then
          .error s!"'input' {id} is not an input of this reduce"
        else
          match lookup id with
          | none => .error s!"reduce input task not found: {id}"
          | some source => .ok (outputSchemaOf source)
      | _ => .error "'input' applies to reduce all outputs only"
  match defs.schemaAt base path with
  | .error e => .error e.display
  | .ok (schema, _) =>
    match defs.resolve schema with
    | .error e => .error e.display
    | .ok r => .ok (defs, .new r.kind)

/-- `lt`, `le`, `gt` and `ge`. -/
def CompareOp.ordered : CompareOp → Bool
  | .eq | .ne => false
  | .lt | .le | .gt | .ge => true

/-- The kinds that `op` compares. -/
def checkOperator (taskId : TaskId) (path : String) (schema : TypeSchema)
    (op : CompareOp) (loc : String) : Checking Unit :=
  let fail (m place : String) : Checking Unit :=
    .error (routeFailure taskId m (loc ++ "/compare" ++ place))
  match schema.kind with
  | .int64 => .ok ()
  | .float64 _ _ =>
    if op.ordered then .ok ()
    else fail ("float64 values are compared with lt/le/gt/ge ranges, "
      ++ "not eq/ne") "/op"
  | .boolean | .string _ | .enum _ =>
    if !op.ordered then .ok ()
    else fail (schema.describe
      ++ " values are compared with eq/ne only") "/op"
  | _ => fail ("a condition compares boolean, int64, float64, string or "
      ++ s!"enum values; '{path}' is {schema.describe}") "/path"

def TypeKind.hasMembers : TypeKind → Bool
  | .int64 | .string _ | .enum _ => true
  | _ => false

/-- The values of a membership test. -/
def checkMembers (taskId : TaskId) (defs : TypeDefs) (schema : TypeSchema)
    (loc : String) : Nat → List Value → Checking Unit
  | _, [] => .ok ()
  | i, v :: rest =>
    match defs.validate schema v with
    | .error e => .error (routeFailure taskId e.display
        (loc ++ s!"/in/values/{i}"))
    | .ok _ => checkMembers taskId defs schema loc (i + 1) rest

mutual

def checkCondition (task : Task) (lookup : TaskId → Option Task)
    (loc : String) : Condition → Checking Unit
  | .all items =>
    if items.isEmpty then
      .error (routeFailure task.id "'all' needs at least one condition"
        loc)
    else checkConditions task lookup (loc ++ "/all/") 0 items
  | .any items =>
    if items.isEmpty then
      .error (routeFailure task.id "'any' needs at least one condition"
        loc)
    else checkConditions task lookup (loc ++ "/any/") 0 items
  | .not inner => checkCondition task lookup (loc ++ "/not") inner
  | .compare path op value input =>
    match operandSchema task path input lookup with
    | .error m => .error (routeFailure task.id m (loc ++ "/compare/path"))
    | .ok (defs, schema) => do
        checkOperator task.id path schema op loc
        match defs.validate schema value with
        | .ok _ => .ok ()
        | .error e => .error (routeFailure task.id e.display
            (loc ++ "/compare/value"))
  | .mem path values input =>
    match operandSchema task path input lookup with
    | .error m => .error (routeFailure task.id m (loc ++ "/in/path"))
    | .ok (defs, schema) =>
      if !schema.kind.hasMembers then
        .error (routeFailure task.id ("'in' tests int64, string or "
          ++ s!"enum values; '{path}' is {schema.describe}")
          (loc ++ "/in/path"))
      else if values.isEmpty then
        .error (routeFailure task.id "'in' needs at least one value"
          (loc ++ "/in/values"))
      else checkMembers task.id defs schema loc 0 values

def checkConditions (task : Task) (lookup : TaskId → Option Task)
    (loc : String) (i : Nat) : List Condition → Checking Unit
  | [] => .ok ()
  | c :: rest => do
      checkCondition task lookup (loc ++ toString i) c
      checkConditions task lookup loc (i + 1) rest

end

/-- The input, the place and the values of a condition that is a set of
values. -/
def valueSet (task : Task) (lookup : TaskId → Option Task)
    (cond : Condition) : Option (Option TaskId × String × List TypedValue) :=
  let read (input : Option TaskId) (path : String) (values : List Value) :
      Option (Option TaskId × String × List TypedValue) := do
    let (defs, schema) ← (operandSchema task path input lookup).toOption
    let typed ← values.mapM fun v => (defs.typedValue schema v).toOption
    some (input, path, typed)
  match cond with
  | .compare path .eq value input => read input path [value]
  | .mem path values input => read input path values
  | _ => none

/-- Two cases that are found to hold together. -/
def overlapping (task : Task) (lookup : TaskId → Option Task)
    (a b : Condition) : Bool :=
  a.same b ||
    match valueSet task lookup a, valueSet task lookup b with
    | some (ia, pa, va), some (ib, pb, vb) =>
      ia = ib && pa = pb && va.any fun v => vb.any v.same
    | _, _ => false

/-- Each case against the ones before it. -/
def checkExclusiveOverlap (task : Task) (loc : String)
    (lookup : TaskId → Option Task) :
    List TransitionCase → List TransitionCase → Checking Unit
  | _, [] => .ok ()
  | before, b :: rest =>
    match before.zipIdx.find? fun (a, _) =>
        overlapping task lookup a.when b.when with
    | some (_, i) =>
      .error (routeFailure task.id (s!"exclusive cases {i} and "
        ++ s!"{before.length} can both hold; make them disjoint or "
        ++ "use mode all_matches")
        (loc ++ s!"/cases/{before.length}/when"))
    | none => checkExclusiveOverlap task loc lookup (before ++ [b]) rest

/-- What can be selected: another task of the graph, that does not run on
its own account. -/
def checkTarget (task : Task) (graph : List Task) (id : TaskId)
    (loc : String) : Checking Unit :=
  match graph.find? fun g => g.id = id with
  | none => .error (routeFailure task.id
      s!"transition target {id} is not a task of this graph" loc)
  | some target =>
    if target.id = task.id then
      .error (routeFailure task.id "a task cannot select itself" loc)
    else if target.onFailure.isContinueDownstream then
      .error (routeFailure task.id (s!"transition target {id} uses "
        ++ "continue_downstream, which would run it when the route is "
        ++ "unknown; a target runs only when selected") loc)
    else
      match graph.find? fun g => g.onFailure.fallbackTask = some id with
      | some main => .error (routeFailure task.id (s!"transition target "
          ++ s!"{id} is the fallback of {main.id}; a fallback runs only "
          ++ "when its main fails") loc)
      | none => .ok ()

def checkTargets (task : Task) (graph : List Task) (loc : String) :
    Nat → List TaskId → Checking Unit
  | _, [] => .ok ()
  | j, id :: rest => do
      checkTarget task graph id (loc ++ s!"/{j}")
      checkTargets task graph loc (j + 1) rest

def checkCases (task : Task) (graph : List Task) (loc : String)
    (lookup : TaskId → Option Task) :
    Nat → List TransitionCase → Checking Unit
  | _, [] => .ok ()
  | i, c :: rest => do
      if c.targets.isEmpty then
        .error (routeFailure task.id "a case needs at least one target"
          (loc ++ s!"/cases/{i}/to"))
      else checkTargets task graph (loc ++ s!"/cases/{i}/to") 0 c.targets
      checkCondition task lookup (loc ++ s!"/cases/{i}/when") c.when
      checkCases task graph loc lookup (i + 1) rest

/-- What happens when no case holds is said, once. -/
def checkOtherwise (task : Task) (t : Transitions) (loc : String) :
    Checking Unit :=
  match t.otherwise, t.noMatch with
  | some _, true => .error (routeFailure task.id
      "set either otherwise or no_match, not both" loc)
  | none, false => .error (routeFailure task.id
      ("say what happens when no case holds: otherwise [targets] or "
        ++ "no_match \"finish\"") loc)
  | some o, false =>
    if o.isEmpty then
      .error (routeFailure task.id ("otherwise needs at least one "
        ++ "target; use no_match \"finish\" to select nothing")
        (loc ++ "/otherwise"))
    else .ok ()
  | none, true => .ok ()

/-- The transitions of a task of a graph. -/
def checkTransitions (task : Task) (place : String) (graph : List Task)
    (lookup : TaskId → Option Task) : Checking Unit :=
  match task.contract.bind TaskContract.transitions with
  | none => .ok ()
  | some t => do
      let loc := place ++ "/transitions"
      if t.cases.isEmpty then
        .error (routeFailure task.id "transitions need at least one case"
          (loc ++ "/cases"))
      else checkOtherwise task t loc
      checkCases task graph loc lookup 0 t.cases
      checkTargets task graph (loc ++ "/otherwise") 0
        (t.otherwise.getD [])
      if t.mode = .exclusive then
        checkExclusiveOverlap task loc lookup [] t.cases
      else .ok ()

end Check

-- ==== the route

section Decide

variable [F64Text]

def evalFailure (task : Task) (message : String) : TaskFailure :=
  { TaskFailure.new .route s!"task {task.id}: {message}" with
    taskId := some task.id }

/-- A failure of a reduce. -/
def reducerFailure (reducer : Task) (message : String) : TaskFailure :=
  { TaskFailure.new .input message with taskId := some reducer.id }

/-- The field of a typed object. -/
def TypedValue.field (value : TypedValue) (name : String) :
    Option TypedValue :=
  match value with
  | .object fields => Entries.get fields name
  | _ => none

/-- The record is that of `input`. -/
def isRecordOf (input : TaskId) (record : TypedValue) : Bool :=
  match record.field "task_id" with
  | some (.string id) => id = input
  | _ => false

/-- The records of a reduce `all` that has its output. -/
def reduceAllRecords (reducer : Task) : Option (List TypedValue) :=
  match reducer.command, reducer.typedResult with
  | .reduce _ .all, some t =>
    match t.hasOutput, t.output with
    | true, .list records => some records
    | _, _ => none
  | _, _ => none

/-- The output of one input of a reduce `all`, in the type of the input. -/
def reduceAllRecordOutput (reducer input : Task) :
    Except TaskFailure (Option TypedValue) :=
  match reduceAllRecords reducer with
  | none => .error (reducerFailure reducer
      s!"task {reducer.id} has no settled reduce all output")
  | some records =>
    match records.find? (isRecordOf input.id) with
    | none => .error (reducerFailure reducer (s!"reduce all output of "
        ++ s!"{reducer.id} has no record for {input.id}"))
    | some record =>
      match record.field "has_output" with
      | some (.bool true) =>
        let raw :=
          match record.field "output" with
          | some (.json v) => v
          | _ => .null
        let (defs, schema) := outputSchemaOf input
        match defs.typedValue schema raw with
        | .ok v => .ok (some v)
        | .error e => .error (.typed .input (some input.id) e)
      | _ => .ok none

/-- `parse::<usize>`. -/
def parseUsize (token : String) : Option Nat :=
  let digits := match token.toList with
    | '+' :: rest => rest
    | all => all
  if !digits.isEmpty && digits.all Char.isDigit then
    some (digits.foldl (fun n c => 10 * n + (c.toNat - '0'.toNat)) 0)
  else none

def TypedValue.step (token : String) : TypedValue → Option TypedValue
  | .object fields => Entries.get fields token
  | .list items => (parseUsize token).bind fun i => items[i]?
  | _ => none

/-- Where a pointer leads in a typed value. -/
def TypedValue.walk : List String → TypedValue → Option TypedValue
  | [], v => some v
  | token :: rest, v => (v.step token).bind (TypedValue.walk rest)

/-- The output that a condition reads, and the task it is of. -/
def operandBase (task : Task) (output : TypedValue)
    (input : Option TaskId) (lookup : TaskId → Option Task) :
    Except TaskFailure (TypedValue × Task) :=
  match input with
  | none => .ok (output, task)
  | some id =>
    match lookup id with
    | none => .error (evalFailure task
        s!"reduce input task not found: {id}")
    | some inputTask =>
      match reduceAllRecordOutput task inputTask with
      | .error f => .error (evalFailure task f.message)
      | .ok none => .error (evalFailure task
          s!"reduce input {id} produced no output")
      | .ok (some record) => .ok (record, inputTask)

/-- What a condition reads and the constant it is compared with. -/
def operand (task : Task) (output : TypedValue) (path : String)
    (input : Option TaskId) (lookup : TaskId → Option Task)
    (literal : Value) : Except TaskFailure (TypedValue × TypedValue) := do
  let (base, owner) ← operandBase task output input lookup
  let (defs, baseSchema) := outputSchemaOf owner
  match defs.schemaAt baseSchema path with
  | .error e => .error (evalFailure task e.display)
  | .ok (schema, _) =>
    match defs.resolve schema with
    | .error e => .error (evalFailure task e.display)
    | .ok r =>
      match pointerTokens path with
      | .error m => .error (evalFailure task m)
      | .ok tokens =>
        match base.walk tokens with
        | none => .error (evalFailure task
            s!"the output has no value at '{path}'")
        | some .null => .error (evalFailure task
            s!"the output is null at '{path}'")
        | some cur =>
          match defs.typedValue (.new r.kind) literal with
          | .error e => .error (evalFailure task e.display)
          | .ok l => .ok (cur, l)

def CompareOp.holds : CompareOp → Ordering → Bool
  | .eq, o => o = .eq
  | .ne, o => o ≠ .eq
  | .lt, o => o = .lt
  | .le, o => o ≠ .gt
  | .gt, o => o = .gt
  | .ge, o => o ≠ .lt

mutual

/-- Whether a condition holds of an output. -/
def eval (task : Task) (output : TypedValue)
    (lookup : TaskId → Option Task) : Condition → Except TaskFailure Bool
  | .all items => evalAll task output lookup items
  | .any items => evalAny task output lookup items
  | .not inner => do
      let b ← eval task output lookup inner
      .ok !b
  | .compare path op value input => do
      let (actual, literal) ← operand task output path input lookup value
      match actual.compare literal with
      | none => .error (evalFailure task
          s!"cannot compare the value at '{path}'")
      | some o => .ok (op.holds o)
  | .mem path values input => do
      let read ← values.mapM (operand task output path input lookup)
      let actual := (read.getLast?.map Prod.fst).getD .null
      .ok (read.any fun (_, l) => actual.compare l = some .eq)

def evalAll (task : Task) (output : TypedValue)
    (lookup : TaskId → Option Task) :
    List Condition → Except TaskFailure Bool
  | [] => .ok true
  | c :: rest => do
      let b ← eval task output lookup c
      if b then evalAll task output lookup rest else .ok false

def evalAny (task : Task) (output : TypedValue)
    (lookup : TaskId → Option Task) :
    List Condition → Except TaskFailure Bool
  | [] => .ok false
  | c :: rest => do
      let b ← eval task output lookup c
      if b then .ok true else evalAny task output lookup rest

end

/-- The numbers of the cases that hold. -/
def matchedCases (task : Task) (output : TypedValue)
    (lookup : TaskId → Option Task) :
    Nat → List TransitionCase → Except TaskFailure (List Nat)
  | _, [] => .ok []
  | i, c :: rest => do
      let b ← eval task output lookup c.when
      let matched ← matchedCases task output lookup (i + 1) rest
      .ok (if b then i :: matched else matched)

/-- The output that transitions are evaluated on. -/
def routeOutput (task : Task) : Except TaskFailure TypedValue :=
  match task.typedResult with
  | some r =>
    if r.hasOutput then .ok r.output
    else .error (evalFailure task
      "has no output to evaluate transitions on")
  | none => .error (evalFailure task
      "has no output to evaluate transitions on")

/-- The decision for the cases that hold. -/
def decisionFor (task : Task) (t : Transitions) (matched : List Nat) :
    Except TaskFailure RouteDecision :=
  if t.mode = .exclusive ∧ 1 < matched.length then
    .error (evalFailure task (s!"exclusive transition cases {matched} "
      ++ "all hold; exactly one may hold"))
  else
    let otherwise := matched.isEmpty && t.otherwise.isSome
    let chosen :=
      if otherwise then t.otherwise.getD []
      else matched.flatMap fun i =>
        (t.cases[i]?.map TransitionCase.targets).getD []
    .ok
      { attemptId := task.attempt.map TaskAttempt.id, matched, otherwise
        selected := distinct chosen }

/-- The route of a task that succeeded; none without transitions. -/
def decideRoute (task : Task) (lookup : TaskId → Option Task) :
    Except TaskFailure (Option RouteDecision) :=
  match task.contract.bind TaskContract.transitions with
  | none => .ok none
  | some t => do
      let output ← routeOutput task
      let matched ← matchedCases task output lookup 0 t.cases
      let decision ← decisionFor task t matched
      .ok (some decision)

end Decide

-- ==== what tasks tell others

/-- What a task is told by one before it. -/
inductive EdgeStatus where
  | pending
  | available
  | notSelected
  | unavailable (source : TaskId) (state : String)
  deriving DecidableEq

/-- Along an order or data edge. -/
def pathStatus (source : Task) : EdgeStatus :=
  match source.state with
  | .succeeded => .available
  | .skipped =>
    if isNotSelected source then .notSelected
    else .unavailable source.id source.state.name
  | .failed _ | .cancelled => .unavailable source.id source.state.name
  | .waiting | .ready | .running | .unknown _ => .pending

/-- Along a control edge to `target`. -/
def controlStatus (source : Task) (target : TaskId) : EdgeStatus :=
  match pathStatus source with
  | .available =>
    match source.route with
    | some r =>
      if r.selected.contains target then .available else .notSelected
    | none => .unavailable source.id "succeeded without a route"
  | other => other

/-- The tasks whose outputs a v2 task reads. -/
def bindingTaskIds (task : Task) : List TaskId :=
  match task.contract with
  | none => []
  | some c => (Entries.iter c.bindings).flatMap fun (_, b) =>
    b.sources.map BindingSource.fromTask

/-- The order and data edges that come in. -/
def activationSources (task : Task) : List TaskId :=
  task.dependsOn ++ task.command.reduceInputs ++ bindingTaskIds task

/-- All ways to `task` come from tasks in `out`. -/
def allFrom (out : List TaskId) (task : Task) : Bool :=
  !(activationSources task).isEmpty
    && (activationSources task).all out.contains

/-- One round over the tasks, which adds to `out` as it goes. -/
def closureRound (tasks : List Task) (out : List TaskId) : List TaskId :=
  tasks.foldl (fun out t =>
    if !out.contains t.id && t.isTyped && allFrom out t then
      out ++ [t.id]
    else out) out

/-- Rounds until nothing is added; each round but the last adds a task. -/
def closure (tasks : List Task) : Nat → List TaskId → List TaskId
  | 0, out => out
  | fuel + 1, out =>
    let next := closureRound tasks out
    if next.length = out.length then out else closure tasks fuel next

/-- The tasks that may end unselected: the targets, those that have, and
the ones all ways to which come from such tasks. -/
def mayBeNotSelected (tasks : List Task) : List TaskId :=
  let seeds := tasks.flatMap fun t =>
    transitionTargets t ++ if isNotSelected t then [t.id] else []
  closure tasks (tasks.length + 1) (distinct seeds)

/-- `field_may_be_absent`. -/
def fieldMayBeAbsent (contract : TaskContract) (field : String) : Bool :=
  match contract.defs.resolve contract.inputSchema with
  | .ok r =>
    match r.kind with
    | .object fields =>
      ((Entries.get fields field).map FieldSchema.mayBeOmitted).getD
        false
    | _ => false
  | .error _ => false

/-- All tasks with an edge to `task`, control edges too. -/
def incoming (tasks : List Task) (task : Task) : List TaskId :=
  activationSources task ++
    (tasks.filter fun s => (transitionTargets s).contains task.id).map
      Task.id

/-- A required input is not read from a task that may go unselected while
the reader is still reached another way. -/
def checkRouteInput (maybe : List TaskId) (tasks : List Task) (i : Nat)
    (t : Task) (c : TaskContract) : String × InputBinding → Checking Unit
  | (field, .fromTask source _) =>
    if !maybe.contains source.fromTask || fieldMayBeAbsent c field
        || (incoming tasks t).all (· = source.fromTask) then .ok ()
    else
      .error
        { TaskFailure.new .input (s!"task {t.id}: input field '{field}' "
            ++ s!"requires the output of {source.fromTask}, which may "
            ++ s!"not be selected while {t.id} still runs through "
            ++ "another path; bind it with one_of, or make the field "
            ++ "optional or give it a default") with
          location := some (s!"/tasks/{i}/bindings/" ++ escape field)
          taskId := some t.id }
  | (_, .literal _) | (_, .oneOf _ _) => .ok ()

/-- The required inputs of the tasks of a graph; `all` are these and the
tasks that exist. -/
def checkRouteInputs (graph all : List Task) : Checking Unit :=
  let maybe := mayBeNotSelected all
  if maybe.isEmpty then .ok ()
  else
    graph.zipIdx.forM fun (t, i) =>
      match t.contract with
      | none => .ok ()
      | some c =>
        (Entries.iter c.bindings).forM (checkRouteInput maybe all i t c)

end Tasty.Agent
