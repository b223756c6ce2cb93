/-
`decide_structure` (`crates/tasty-core/src/command.rs`): decide on an
immutable model and validate the complete candidate without publishing
it. A run is a sequence of accepted decisions, each applied by `evolve`
as some later batch.
-/
import Tasty.Core.Command.Metadata
import Tasty.Core.Command.Retirement
import Tasty.Core.Command.Engine
import Tasty.Core.Command.Creation
import Tasty.Core.Run

namespace Tasty.Core

variable {m m' : JournalModel} {command : StructuralCommand}
  {facts : List DomainEvent} {batches : List (List DomainEvent)}

/-- The commands a retired engine still takes. -/
def StructuralCommand.worksRetired : StructuralCommand → Bool
  | reconcilePreparation .. | reconcileRetirement ..
  | recoverOperation .. | openEngine .. | retireEngine ..
  | finishRetirement .. | finishForward .. | finishCreation ..
  | finishCleanup .. | rejectInstallation ..
  | markPreparationUncertain .. | cancelUnstartedCreation .. => true
  | _ => false

/-- The command's own rules, before the candidate is validated. -/
def decideCommand (m : JournalModel) :
    StructuralCommand → Decided StructuralDecision
  | .reconcilePreparation operation evidence discarded =>
    Creation.reconcile m operation evidence discarded
  | .reconcileRetirement operation evidence =>
    Retirement.reconcileRetirement m operation evidence
  | .recoverOperation operation outcome evidence =>
    Recovery.recoverOperation m operation outcome evidence
  | .replace operation commandId input replacement expected =>
    Retirement.replace m operation commandId input replacement expected
  | .prepareForward operation commandId input =>
    Forward.prepareForward m operation commandId input
  | .finishForward operation outcome =>
    Forward.finishForward m operation outcome
  | .prepareAssembly operation commandId input plan =>
    Assembly.prepareAssembly m operation commandId input plan
  | .recordCapture surface kind activation contentGeneration schema data =>
    Recovery.recordCapture m surface kind activation contentGeneration
      schema data
  | .close operation commandId input target expected undo isUserClose
      remoteUserClose =>
      Retirement.close m operation commandId input target expected undo
        isUserClose remoteUserClose
  | .finishRetirement operation outcome =>
    Retirement.finishRetirement m operation outcome
  | .retireEngine incarnation => Bootstrap.retireEngine m incarnation
  | .openEngine incarnation reset name =>
    Bootstrap.openEngine m incarnation reset name
  | .prepareCreation operation commandId input plan =>
    Creation.prepareCreation m operation commandId input plan
  | .cancelUnstartedCreation operation reason =>
    Creation.cancelUnstartedCreation m operation reason
  | .rejectInstallation operation reason =>
    Creation.rejectInstallation m operation reason
  | .finishCleanup operation => Creation.finishCleanup m operation
  | .markPreparationUncertain operation reason =>
    Creation.markPreparationUncertain m operation reason
  | .finishCreation operation result =>
    Creation.finishCreation m operation result
  | .resetCategories => Metadata.resetCategories m
  | .createCategory id name => Metadata.createCategory m id name
  | .renameCategory id name => Metadata.renameCategory m id name
  | .deleteCategory id => Metadata.deleteCategory m id
  | .reorderCategory id index => Metadata.reorderCategory m id index
  | .setWorkspaceCategory id category =>
    Metadata.setWorkspaceCategory m id category
  | .updateWorkspaceMeta id name subtitle description =>
    Metadata.updateWorkspaceMeta m id name subtitle description
  | .setWorkspaceAttachMapping id mapping =>
    Metadata.setWorkspaceAttachMapping m id mapping
  | .moveWorkspace id index => Metadata.moveWorkspace m id index
  | .renameTab id name => Metadata.renameTab m id name
  | .moveTab pane tab index => Metadata.moveTab m pane tab index
  | .setPaneRatio id path leaves revision ratio =>
    Metadata.setPaneRatio m id path leaves revision ratio
  | .setSurfaceRatio id path leaves revision ratio =>
    Metadata.setSurfaceRatio m id path leaves revision ratio

def decideStructure (m : JournalModel) (command : StructuralCommand) :
    Decided StructuralDecision := do
  rejectIf (m.engineRetired = true ∧ command.worksRetired = false)
    "engine binding has been retired"
  let decision ← decideCommand m command
  Assembly.tryBatch m "journal batch range exhausted"
    (.reject ⟨"structure revision range exhausted"⟩) decision.events
  .ok decision

theorem decideStructure_decides {decision : StructuralDecision}
    (h : decideStructure m command = .ok decision) :
    decideCommand m command = .ok decision := by
  have h := then_ok h
  obtain ⟨found, hfound, h⟩ := bind_ok h
  have h := then_ok h
  cases h
  exact hfound

-- ==== runs

/-- `m'` is `m` after an accepted command, its facts applied as a
batch. -/
structure Accepts (m m' : JournalModel) (facts : List DomainEvent) :
    Prop where
  decided : ∃ command decision,
    decideStructure m command = .ok decision ∧ decision.events = facts
  evolved : ∃ b : DomainBatch, b.facts = facts ∧ evolve m b = .ok m'

/-- One accepted command. -/
def Commanded (m m' : JournalModel) : Prop :=
  ∃ facts, Accepts m m' facts

/-- Any number of accepted commands. -/
def Runs : JournalModel → JournalModel → Prop :=
  Relation.ReflTransGen Commanded

/-- A model some run of accepted commands ends in. -/
def Reachable (m : JournalModel) : Prop :=
  Runs JournalModel.default m

/-- A run with the facts of each accepted command, oldest first. -/
inductive History : List (List DomainEvent) → JournalModel → Prop
  | start : History [] JournalModel.default
  | step {batches : List (List DomainEvent)} {m m' : JournalModel}
      {facts : List DomainEvent} (hrun : History batches m)
      (hstep : Accepts m m' facts) : History (batches ++ [facts]) m'

/-- Decide a command and apply its facts as the next batch. -/
def runCommand (m : JournalModel) (command : StructuralCommand) :
    Decided (List DomainEvent × JournalModel) := do
  let decision ← decideStructure m command
  let batchId ← Assembly.nextBatch m "journal batch range exhausted"
  let events ← record .panic (m.applied.revision.getD 0) 0 decision.events
  let next ← orInvalid (evolve m ⟨batchId, events⟩)
  .ok (decision.events, next)

/-- Run commands one after the other. -/
def runCommands : JournalModel → List StructuralCommand →
    Decided (List (List DomainEvent) × JournalModel)
  | m, [] => .ok ([], m)
  | m, command :: commands => do
      let (facts, next) ← runCommand m command
      let (batches, last) ← runCommands next commands
      .ok (facts :: batches, last)

theorem runCommand_decides (h : runCommand m command = .ok (facts, m')) :
    ∃ decision b, decideStructure m command = .ok decision
      ∧ decision.events = facts ∧ b.facts = facts ∧ evolve m b = .ok m' := by
  obtain ⟨decision, hdecision, h⟩ := bind_ok h
  obtain ⟨batchId, _, h⟩ := bind_ok h
  obtain ⟨events, hevents, h⟩ := bind_ok h
  obtain ⟨next, hnext, h⟩ := bind_ok h
  cases h
  exact ⟨decision, ⟨batchId, events⟩, hdecision, rfl,
    record_events hevents, orInvalid_eq_ok.1 hnext⟩

theorem runCommand_accepts
    (h : runCommand m command = .ok (facts, m')) : Accepts m m' facts := by
  obtain ⟨decision, b, hdecide, hevents, hfacts, hevolve⟩ :=
    runCommand_decides h
  exact ⟨⟨command, decision, hdecide, hevents⟩, b, hfacts, hevolve⟩

variable {commands : List StructuralCommand}

theorem runCommands_history
    {before : List (List DomainEvent)} (hm : History before m)
    (h : runCommands m commands = .ok (batches, m')) :
    History (before ++ batches) m' := by
  induction commands generalizing m before batches with
  | nil =>
    cases h
    rwa [List.append_nil]
  | cons command commands ih =>
    obtain ⟨⟨facts, next⟩, hone, h⟩ := bind_ok h
    obtain ⟨⟨rest, last⟩, hrest, h⟩ := bind_ok h
    cases h
    have hlast := ih (hm.step (runCommand_accepts hone)) hrest
    rwa [List.append_assoc] at hlast

theorem runCommands_runs
    (h : runCommands m commands = .ok (batches, m')) : Runs m m' := by
  induction commands generalizing m batches with
  | nil =>
    cases h
    exact .refl
  | cons command commands ih =>
    obtain ⟨⟨facts, next⟩, hone, h⟩ := bind_ok h
    obtain ⟨⟨rest, last⟩, hrest, h⟩ := bind_ok h
    cases h
    exact (ih hrest).head ⟨facts, runCommand_accepts hone⟩

theorem Accepts.applies (h : Accepts m m' facts) : Applies m facts m' := by
  obtain ⟨b, hfacts, hevolve⟩ := h.evolved
  rw [← hfacts]
  exact evolve_applies hevolve

theorem Accepts.batched (h : Accepts m m' facts) : Batched m m' := by
  obtain ⟨b, _, hevolve⟩ := h.evolved
  exact ⟨b, hevolve⟩

theorem Runs.replays (h : Runs m m') : Replays m m' := by
  induction h with
  | refl => exact .refl
  | tail _ hlast ih =>
    obtain ⟨_, hstep⟩ := hlast
    exact ih.tail hstep.batched

theorem Reachable.wellFormed (h : Reachable m) : WellFormed m :=
  h.replays.wellFormed

theorem History.reachable (h : History batches m) : Reachable m := by
  induction h with
  | start => exact .refl
  | step _ hstep ih => exact ih.tail ⟨_, hstep⟩

/-- The induction rule of command runs. -/
theorem Reachable.induct {I : JournalModel → Prop}
    (hinit : I JournalModel.default)
    (hstep : ∀ m m' facts, Reachable m → I m → Accepts m m' facts → I m')
    (h : Reachable m) : I m := by
  induction h with
  | refl => exact hinit
  | tail hrun hlast ih =>
    obtain ⟨facts, hfacts⟩ := hlast
    exact hstep _ _ facts hrun ih hfacts

end Tasty.Core
