/-
What the plan checks accept, and that plans stay so: each call writes back
a plan that has passed them, or nothing.
-/
import Tasty.Memory.Access
import Tasty.Memory.Plan

namespace Tasty.Memory

open MemoryStore List

open Agent (Value)
open ThreeColour (Marks)

variable {steps : List PlanStep} {owner key : String} {scope : Scope}
  {cas : Option Nat}

-- ==== valid plans

/-- A step that depends on another, by their ids. -/
def DependsOn (steps : List PlanStep) (a b : String) : Prop :=
  ∃ s ∈ steps, s.id = a ∧ b ∈ s.dependsOn

/-- Each id is of one step, each dependency is another step, and no step
depends on itself in the end. -/
structure Sound (steps : List PlanStep) : Prop where
  unique : (steps.map PlanStep.id).Nodup
  known : ∀ s ∈ steps, ∀ d ∈ s.dependsOn,
    d ≠ s.id ∧ d ∈ steps.map PlanStep.id
  acyclic : ∀ a, ¬ Relation.TransGen (DependsOn steps) a a

/-- The sizes and the id syntax of a step. -/
structure StepWithinLimits (s : PlanStep) : Prop where
  id : validateStepId s.id = .ok ()
  titled : s.title ≠ ""
  title : s.title.utf8ByteSize ≤ PLAN_TITLE_MAX
  notes : ∀ n ∈ s.notes, n.utf8ByteSize ≤ PLAN_NOTES_MAX

structure WithinLimits (p : Plan) : Prop where
  id : validatePlanId p.id = .ok ()
  titled : p.title ≠ ""
  title : p.title.utf8ByteSize ≤ PLAN_TITLE_MAX
  count : p.steps.length ≤ PLAN_STEP_MAX
  steps : ∀ s ∈ p.steps, StepWithinLimits s

-- ==== what is valid

theorem checkStep_eq_ok {ids : List String} {s : PlanStep} {u : Unit} :
    checkStep ids s = .ok u ↔ StepWithinLimits s ∧ s.id ∉ ids := by
  have hnotes : ¬ s.notes.any (PLAN_NOTES_MAX < ·.utf8ByteSize) = true
      ↔ ∀ n ∈ s.notes, n.utf8ByteSize ≤ PLAN_NOTES_MAX := by
    cases s.notes with
    | none => simp
    | some n => simp
  simp only [checkStep, bind_eq_ok, rejectIf_eq_ok, exists_const, hnotes,
    Nat.not_lt]
  constructor
  · intro h
    obtain ⟨_, hid, htitled, htitle, hnotes, hnew⟩ := h
    exact ⟨⟨hid, htitled, htitle, hnotes⟩, hnew⟩
  · intro h
    exact ⟨(), h.1.id, h.1.titled, h.1.title, h.1.notes, h.2⟩

theorem checkSteps_eq_ok {ids : List String} {u : Unit} :
    checkSteps ids steps = .ok u ↔ (∀ s ∈ steps, StepWithinLimits s)
      ∧ (steps.map PlanStep.id).Nodup ∧ ∀ s ∈ steps, s.id ∉ ids := by
  induction steps generalizing ids with
  | nil => simp [checkSteps]
  | cons step rest ih =>
    rw [checkSteps, bind_eq_ok]
    simp only [exists_const, checkStep_eq_ok, ih, map_cons, nodup_cons,
      mem_cons, forall_eq_or_imp, not_or, mem_map, not_exists, not_and]
    constructor
    · intro h
      obtain ⟨⟨hlimits, hnew⟩, hrest, hunique, hids⟩ := h
      exact ⟨⟨hlimits, hrest⟩, ⟨fun s hs => (hids s hs).1, hunique⟩, hnew,
        fun s hs => (hids s hs).2⟩
    · intro h
      obtain ⟨⟨hlimits, hrest⟩, ⟨hfirst, hunique⟩, hnew, hids⟩ := h
      exact ⟨⟨hlimits, hnew⟩, hrest, hunique,
        fun s hs => ⟨hfirst s hs, hids s hs⟩⟩

/-- Where ids are unique, the edges of the search are the dependencies. -/
theorem mem_next_adjOf {a b : String} (h : (steps.map PlanStep.id).Nodup) :
    b ∈ ThreeColour.next (adjOf steps) a ↔ DependsOn steps a b := by
  have hlookup (l : List PlanStep) (hl : (l.map PlanStep.id).Nodup) :
      b ∈ ThreeColour.next (l.map fun s => (s.id, s.dependsOn)) a
        ↔ ∃ s ∈ l, s.id = a ∧ b ∈ s.dependsOn := by
    induction l with
    | nil => simp [ThreeColour.next]
    | cons s l ih =>
      obtain ⟨hnew, hl⟩ := nodup_cons.1 hl
      rw [map_cons, ThreeColour.next, lookup_cons]
      by_cases ha : a = s.id
      · rw [ha, beq_self_eq_true]
        constructor
        · intro hb
          exact ⟨s, mem_cons_self, rfl, hb⟩
        · intro hb
          obtain ⟨s', hs', hid, hb⟩ := hb
          rcases mem_cons.1 hs' with rfl | hs'
          · exact hb
          · exact absurd (mem_map.2 ⟨s', hs', hid⟩) hnew
      · rw [beq_eq_false_iff_ne.2 ha]
        refine (ih hl).trans ?_
        constructor
        · intro hb
          obtain ⟨s', hs', hid, hb⟩ := hb
          exact ⟨s', mem_cons_of_mem _ hs', hid, hb⟩
        · intro hb
          obtain ⟨s', hs', hid, hb⟩ := hb
          rcases mem_cons.1 hs' with rfl | hs'
          · exact absurd hid.symm ha
          · exact ⟨s', hs', hid, hb⟩
  unfold adjOf
  rw [hlookup steps.reverse]
  · exact exists_congr fun s => and_congr_left fun _ => mem_reverse
  · rw [map_reverse]
    exact nodup_reverse.2 h

theorem checkCycles_eq_ok {adj : List (String × List String)}
    {marks : Marks String} :
    checkCycles adj marks steps = .ok ()
      ↔ (ThreeColour.searchAll adj marks (steps.map PlanStep.id)).1
        = false := by
  induction steps generalizing marks with
  | nil => exact ⟨fun _ => rfl, fun _ => rfl⟩
  | cons step rest ih =>
    rw [checkCycles, map_cons, ThreeColour.searchAll, dfsCycle]
    obtain ⟨found, marks₁⟩ := ThreeColour.search adj marks step.id
    cases found with
    | true => exact ⟨fun h => (by cases h), fun h => (by cases h)⟩
    | false => exact ih

theorem validatePlan_eq_ok {plan : Plan} :
    validatePlan plan = .ok () ↔ WithinLimits plan ∧ Sound plan.steps := by
  have hdeps (u : Unit) : (plan.steps.forM fun step =>
      step.dependsOn.forM (checkDep (plan.steps.map PlanStep.id) step))
        = .ok u ↔ ∀ s ∈ plan.steps, ∀ d ∈ s.dependsOn,
          d ≠ s.id ∧ d ∈ plan.steps.map PlanStep.id := by
    rw [forM_eq_ok]
    refine forall₂_congr fun s _ => ?_
    rw [forM_eq_ok]
    refine forall₂_congr fun d _ => ?_
    simp only [checkDep, bind_eq_ok, rejectIf_eq_ok, exists_const, not_not]
  have hcycles (hunique : (plan.steps.map PlanStep.id).Nodup) :
      checkCycles (adjOf plan.steps) [] plan.steps = .ok ()
        ↔ ∀ a, ¬ Relation.TransGen (DependsOn plan.steps) a a := by
    have hedge : (fun a b => b ∈ ThreeColour.next (adjOf plan.steps) a)
        = DependsOn plan.steps := by
      funext a b
      exact propext (mem_next_adjOf hunique)
    rw [checkCycles_eq_ok, ThreeColour.searchAll_eq_false, hedge]
    intro a b hb
    obtain ⟨s, hs, hid, -⟩ := (mem_next_adjOf hunique).1 hb
    exact mem_map.2 ⟨s, hs, hid⟩
  simp only [validatePlan, bind_eq_ok, rejectIf_eq_ok, exists_const,
    checkSteps_eq_ok, hdeps, Nat.not_lt]
  constructor
  · intro h
    obtain ⟨_, hid, htitled, htitle, hcount, ⟨hsteps, hunique, -⟩, hknown,
      hacyclic⟩ := h
    exact ⟨⟨hid, htitled, htitle, hcount, hsteps⟩,
      ⟨hunique, hknown, (hcycles hunique).1 hacyclic⟩⟩
  · intro h
    obtain ⟨hlimits, hsound⟩ := h
    exact ⟨(), hlimits.id, hlimits.titled, hlimits.title, hlimits.count,
      ⟨hlimits.steps, hsound.unique, fun _ _ => not_mem_nil⟩,
      hsound.known, (hcycles hsound.unique).2 hsound.acyclic⟩

-- ==== a plan is read as written

theorem PlanStepState.read_name (s : PlanStepState) :
    PlanStepState.read (.string s.name) = some s := by
  cases s <;> rfl

theorem mapM_map_eq_some {α β : Type} {read : β → Option α} {write : α → β}
    (l : List α) (h : ∀ a ∈ l, read (write a) = some a) :
    (l.map write).mapM read = some l := by
  induction l with
  | nil => rfl
  | cons a l ih =>
    rw [map_cons, mapM_cons, h a mem_cons_self,
      ih fun x hx => h x (mem_cons_of_mem _ hx)]
    rfl

theorem PlanStep.read_toValue (s : PlanStep) :
    PlanStep.read s.toValue = some s := by
  obtain ⟨id, title, state, dependsOn, notes⟩ := s
  have hstrings : readStrings (.array (dependsOn.map .string))
      = some dependsOn :=
    mapM_map_eq_some dependsOn fun _ _ => rfl
  have hstate := state.read_name
  unfold PlanStep.read PlanStep.toValue fieldsOf
  cases dependsOn with
  | nil =>
    cases notes with
    | none => simp [lookup_cons, readOr, readString, hstate]
    | some n => simp [lookup_cons, readOr, readString, hstate, readOption]
  | cons d rest =>
    rw [map_cons] at hstrings
    cases notes with
    | none => simp [lookup_cons, readOr, readString, hstate, hstrings]
    | some n =>
      simp [lookup_cons, readOr, readString, hstate, hstrings, readOption]

theorem Plan.read_toValue (p : Plan) : Plan.read p.toValue = some p := by
  have hsteps : readSteps (.array (p.steps.map PlanStep.toValue))
      = some p.steps :=
    mapM_map_eq_some p.steps fun s _ => s.read_toValue
  have htime (t : Int64) : readI64 (.ofI64 t) = some t :=
    Agent.Number.asI64_ofI64 t
  unfold Plan.read Plan.toValue fieldsOf
  simp [lookup_cons, readOr, readString, htime, hsteps]

-- ==== the calls

inductive PlanOp where
  | create (owner : String) (workspaceId : UInt32) (planId title : String)
      (steps : List PlanStep)
  | addStep (owner : String) (workspaceId : UInt32) (planId : String)
      (step : PlanStep) (position : Option Nat) (cas : Option Nat)
  | removeStep (owner : String) (workspaceId : UInt32)
      (planId stepId : String) (cas : Option Nat)
  | updateStep (owner : String) (workspaceId : UInt32)
      (planId stepId : String) (newState : Option PlanStepState)
      (notes : Option (Option String)) (cas : Option Nat)
  | delete (owner : String) (workspaceId : UInt32) (planId : String)

/-- A call on a plan; a delete has no version to answer. -/
def planStep (layer : PlanText) (env : PlanEnv) (s : MemoryStore) :
    PlanOp → MemoryStore × Except MemoryError (Option Nat)
  | .create owner workspaceId planId title steps =>
    (planCreate layer env s owner workspaceId planId title steps).map id
      (Except.map some)
  | .addStep owner workspaceId planId step position cas =>
    (planAddStep layer env s owner workspaceId planId step position cas).map
      id (Except.map some)
  | .removeStep owner workspaceId planId stepId cas =>
    (planRemoveStep layer env s owner workspaceId planId stepId cas).map id
      (Except.map some)
  | .updateStep owner workspaceId planId stepId newState notes cas =>
    (planUpdateStep layer env s owner workspaceId planId stepId newState
      notes cas).map id (Except.map some)
  | .delete owner workspaceId planId =>
    (planDelete env.write s owner workspaceId planId).map id
      (Except.map fun _ => none)

def planRun (layer : PlanText) (s : MemoryStore)
    (calls : List (PlanEnv × PlanOp)) : MemoryStore :=
  calls.foldl (fun s c => (planStep layer c.1 s c.2).1) s

/-- A plan that a row holds. -/
def RowHolds (layer : PlanText) (r : Row) (p : Plan) : Prop :=
  ∃ entry, r.entry layer.toValueText false = .ok entry
    ∧ planFromEntry layer entry = .ok p

/-- Every plan that is stored is sound. -/
def PlansSound (layer : PlanText) (s : MemoryStore) : Prop :=
  ∀ r ∈ s.memory, ∀ w planId,
    r.place = ((Scope.workspace w).asToken, planKey planId) →
    ∀ p, RowHolds layer r p → Sound p.steps

/-- The text of a plan is read as the value it was written for. -/
def ReadsBack (layer : PlanText) : Prop :=
  ∀ (p : Plan) bytes v, layer.toVec p.toValue = .ok bytes →
    layer.fromSlice bytes = .ok v → v = p.toValue

section Calls

variable {layer : PlanText} {env : PlanEnv} {s : MemoryStore}

theorem put_rows {text : ValueText} {env : Env}
    {value : MemoryValue} {opts : PutOpts} {r : Row}
    (hr : r ∈ (s.put text env owner scope key value opts).1.memory) :
    r ∈ s.memory ∨ (r.contentType = value.contentType
      ∧ value.toBytes text = .ok r.value) := by
  unfold MemoryStore.put at hr
  cases hchecks : putChecks text s.config owner key value with
  | error e =>
    rw [hchecks] at hr
    exact .inl hr
  | ok bytes =>
    rw [hchecks] at hr
    have hbytes : value.toBytes text = .ok bytes := by
      unfold putChecks at hchecks
      have hchecks := then_ok (then_ok hchecks)
      obtain ⟨b, hb, hchecks⟩ := bind_ok hchecks
      have hchecks := then_ok hchecks
      cases hchecks
      unfold serializeValue at hb
      split at hb
      · cases hb
        assumption
      · cases hb
    dsimp only [writeStep] at hr
    cases hfault : env.fault with
    | some e =>
      rw [hfault] at hr
      exact .inl hr
    | none =>
      rw [hfault] at hr
      dsimp only at hr
      split at hr
      · exact .inl hr
      · rename_i a effect memory memorySecret hop
        obtain ⟨w, hw, heq⟩ := map_eq_ok.1 hop
        unfold putRegularRows at hw
        dsimp only at hw
        have hw := then_ok (then_ok (then_ok hw))
        cases hw
        cases heq
        have hr' : r ∈ (writeRow Row.place
            (newRow env owner scope key value opts bytes) _ _
            s.memory).2 := hr
        unfold writeRow at hr'
        split at hr'
        · rcases Table.mem_update.1 hr' with ⟨hr', -⟩ | ⟨old, -, -, rfl⟩
          · exact .inl hr'
          · exact .inr ⟨rfl, hbytes⟩
        · rcases mem_append.1 hr' with hr' | hr'
          · left
            split at hr'
            · exact (Table.mem_delete.1 hr').1
            · exact hr'
          · obtain rfl := mem_singleton.1 hr'
            exact .inr ⟨rfl, hbytes⟩

theorem delete_rows {env : Env}     {r : Row}
    (hr : r ∈ (s.delete env owner scope key cas).1.memory) : r ∈ s.memory := by
  unfold MemoryStore.delete at hr
  split at hr
  · exact hr
  · dsimp only [writeStep] at hr
    split at hr
    · exact hr
    · split at hr
      · exact hr
      · rename_i a effect memory memorySecret hop
        obtain ⟨w, hw, heq⟩ := map_eq_ok.1 hop
        unfold deleteRegularRows at hw
        split at hw
        · cases hw
        · have hw := then_ok (then_ok hw)
          cases hw
          cases heq
          exact (Table.mem_delete.1 hr).1

theorem put_plan_sound (htext : ReadsBack layer) (hs : PlansSound layer s)
    {env : Env} {plan : Plan} {opts : PutOpts} (hplan : Sound plan.steps) :
    PlansSound layer (s.put layer.toValueText env owner scope key
      (.json plan.toValue) opts).1 := by
  intro r hr w planId hplace p hp
  rcases put_rows hr with hr | ⟨htype, hbytes⟩
  · exact hs r hr w planId hplace p hp
  · obtain ⟨entry, hentry, hread⟩ := hp
    have hvec : layer.toVec plan.toValue = .ok r.value := hbytes
    have hjson : r.contentType = "application/json" := htype
    unfold Row.entry MemoryValue.fromDb at hentry
    rw [hjson, if_neg (by decide), if_pos rfl] at hentry
    cases hslice : layer.fromSlice r.value with
    | error e =>
      rw [hslice] at hentry
      cases hentry
    | ok v =>
      rw [hslice] at hentry
      cases hentry
      obtain rfl := htext plan r.value v hvec hslice
      unfold planFromEntry at hread
      dsimp only at hread
      rw [plan.read_toValue] at hread
      cases hread
      exact hplan

variable {workspaceId : UInt32} {mutate : Plan → Except MemoryError Plan}

theorem updatePlan_sound (htext : ReadsBack layer)
    (hs : PlansSound layer s) {planId : String}
    :
    PlansSound layer
      (updatePlan layer env s owner workspaceId planId cas mutate).1 := by
  unfold updatePlan
  dsimp only
  split
  · exact hs
  · rename_i plan hchanged
    have hchanged := then_ok hchanged
    obtain ⟨entry, -, hchanged⟩ := bind_ok hchanged
    cases entry with
    | none => cases hchanged
    | some entry =>
      obtain ⟨old, -, hchanged⟩ := bind_ok hchanged
      obtain ⟨new, -, hchanged⟩ := bind_ok hchanged
      obtain ⟨_, hvalid, hchanged⟩ := bind_ok hchanged
      cases hchanged
      exact put_plan_sound htext hs (validatePlan_eq_ok.1 hvalid).2

theorem updatePlan_error {planId : String} {e : MemoryError}
    (h : (updatePlan layer env s owner workspaceId planId cas mutate).2
      = .error e) :
    (updatePlan layer env s owner workspaceId planId cas mutate).1 = s := by
  unfold updatePlan at h ⊢
  dsimp only at h ⊢
  split
  · rfl
  · rename_i plan hchanged
    rw [hchanged] at h
    exact put_error h

theorem planStep_sound (htext : ReadsBack layer) (hs : PlansSound layer s)
    (op : PlanOp) : PlansSound layer (planStep layer env s op).1 := by
  cases op with
  | create owner workspaceId planId title steps =>
    show PlansSound layer (planCreate layer env s owner workspaceId planId
      title steps).1
    unfold planCreate
    dsimp only
    split
    · exact hs
    · rename_i hchecked
      obtain ⟨_, hvalid, -⟩ := bind_ok hchecked
      exact put_plan_sound htext hs (validatePlan_eq_ok.1 hvalid).2
  | addStep | removeStep | updateStep => exact updatePlan_sound htext hs
  | delete owner workspaceId planId =>
    show PlansSound layer
      (planDelete env.write s owner workspaceId planId).1
    unfold planDelete
    split
    · exact hs
    · intro r hr
      exact hs r (delete_rows hr)

theorem planStep_error {op : PlanOp} {e : MemoryError}
    (h : (planStep layer env s op).2 = .error e) :
    (planStep layer env s op).1 = s := by
  have hmap {α β : Type} {f : α → β} {x : Except MemoryError α}
      (hx : x.map f = .error e) : x = .error e := by
    cases x with
    | error e' =>
      cases hx
      rfl
    | ok a => cases hx
  cases op with
  | create owner workspaceId planId title steps =>
    have herr := hmap h
    show (planCreate layer env s owner workspaceId planId title steps).1 = s
    unfold planCreate at herr ⊢
    dsimp only at herr ⊢
    split
    · rfl
    · rename_i hchecked
      rw [hchecked] at herr
      exact put_error herr
  | addStep => exact updatePlan_error (hmap h)
  | removeStep => exact updatePlan_error (hmap h)
  | updateStep => exact updatePlan_error (hmap h)
  | delete owner workspaceId planId =>
    have herr := hmap h
    show (planDelete env.write s owner workspaceId planId).1 = s
    unfold planDelete at herr ⊢
    split
    · rfl
    · rename_i hchecked
      rw [hchecked] at herr
      exact delete_error herr

end Calls

/-- Along every run of calls on plans each stored plan stays sound, and a
call that is refused changes nothing. The checks accept exactly the sound
plans within the limits, and the search for a cycle ends on every graph. -/
theorem stored_plans_sound (layer : PlanText) (htext : ReadsBack layer)
    (s : MemoryStore) (hs : PlansSound layer s)
    (calls : List (PlanEnv × PlanOp)) :
    PlansSound layer (planRun layer s calls)
      ∧ (∀ env op e,
        (planStep layer env (planRun layer s calls) op).2 = .error e →
          (planStep layer env (planRun layer s calls) op).1
            = planRun layer s calls)
      ∧ (∀ plan : Plan, validatePlan plan = .ok ()
        ↔ WithinLimits plan ∧ Sound plan.steps)
      ∧ ∀ adj marks node, ∃ fuel,
        ThreeColour.visit (ThreeColour.next adj) fuel marks node
          = some (dfsCycle adj marks node) := by
  refine ⟨?_, fun _ _ _ h => planStep_error h,
    fun _ => validatePlan_eq_ok,
    fun adj marks node => ⟨_, ThreeColour.visit_search adj marks node⟩⟩
  induction calls generalizing s with
  | nil => exact hs
  | cons c calls ih => exact ih _ (planStep_sound htext hs c.2)

-- ==== two steps

def twoSteps : Plan where
  id := "p"
  title := "demo"
  createdAt := 1
  createdBy := "_host"
  updatedAt := 1
  steps := [⟨"a", "first", .pending, [], none⟩,
    ⟨"b", "second", .pending, ["a"], none⟩]

def twoStepsText : List UInt8 :=
  asBytes ("\x7b\"created_at\":1,\"created_by\":\"_host\",\"id\":\"p\","
    ++ "\"steps\":[\x7b\"id\":\"a\",\"state\":\"pending\","
    ++ "\"title\":\"first\"\x7d,\x7b\"depends_on\":[\"a\"],\"id\":\"b\","
    ++ "\"state\":\"pending\",\"title\":\"second\"\x7d],"
    ++ "\"title\":\"demo\",\"updated_at\":1\x7d")

/-- A text layer that knows this plan and its text. -/
def twoStepsLayer : PlanText where
  toVec v :=
    if Plan.read v = some twoSteps then .ok twoStepsText
    else .error "another value"
  fromSlice bytes :=
    if bytes = twoStepsText then .ok twoSteps.toValue
    else .error "another text"
  utf8Error _ := "not utf8"
  planError _ := "no plan"

theorem twoStepsLayer_readsBack : ReadsBack twoStepsLayer := by
  intro p bytes v hvec hslice
  have hvec : (if Plan.read p.toValue = some twoSteps then
      (.ok twoStepsText : Except String (List UInt8))
      else .error "another value") = .ok bytes := hvec
  have hslice : (if bytes = twoStepsText then .ok twoSteps.toValue
      else .error "another text") = (.ok v : Except String Value) := hslice
  rw [p.read_toValue] at hvec
  by_cases hp : some p = some twoSteps
  · rw [if_pos hp] at hvec
    rw [if_pos (Except.ok.inj hvec).symm] at hslice
    rw [Option.some.inj hp]
    exact (Except.ok.inj hslice).symm
  · rw [if_neg hp] at hvec
    cases hvec

def createTwoSteps : List (PlanEnv × PlanOp) :=
  [(⟨1, ⟨1, none⟩, ⟨1, none⟩⟩,
    .create "_host" 1 "p" "demo" twoSteps.steps)]

/-- The plan is stored, and what is stored is sound. -/
theorem stored_plans_sound_two :
    (planRun twoStepsLayer (.prepare ⟨1048576, 10485760, 1073741824⟩ [] [])
        createTwoSteps).memory.map (fun r => (r.place, r.value))
      = [(("workspace:1", "tasty.plan.p"), twoStepsText)]
      ∧ PlansSound twoStepsLayer (planRun twoStepsLayer
        (.prepare ⟨1048576, 10485760, 1073741824⟩ [] []) createTwoSteps) :=
  ⟨by decide +kernel,
    (stored_plans_sound twoStepsLayer twoStepsLayer_readsBack _
      (fun _ hr => absurd hr List.not_mem_nil) createTwoSteps).1⟩

end Tasty.Memory
