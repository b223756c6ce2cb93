/-
The structure streams of all engines (`crates/tasty-core/src/streams.rs`):
one journal batch may hold events for several of them, and moves the
position of every one.
-/
import Tasty.Core.Evolve

namespace Tasty.Core

/-- All engine models at one batch; a stream's name is its key. -/
structure StructureModels where
  batch : Option BatchId
  streams : BTreeMap String JournalModel
  deriving DecidableEq

def StructureModels.default : StructureModels := ⟨none, ∅⟩

/-- The model of a stream; empty before its first event. -/
def StructureModels.stream (models : StructureModels) (name : String) :
    JournalModel :=
  (models.streams[name]?).getD .default

/-- The inputs of one committed batch, by stream. -/
structure StreamBatch where
  batchId : BatchId
  streams : BTreeMap String (List RecordedEvent)

/-- Check a batch against every stream's position. -/
def checkStreams (batchId : BatchId) : List JournalModel → Evolved Unit
  | [] => .ok ()
  | m :: rest => do
      checkBatch m batchId
      checkStreams batchId rest

/-- The next model of each stream the batch has events for. -/
def stageStreams (models : StructureModels) (batchId : BatchId) :
    List (String × List RecordedEvent) →
    Evolved (List (String × JournalModel))
  | [] => .ok []
  | (name, events) :: rest =>
    if events.isEmpty && models.streams.contains name then
      stageStreams models batchId rest
    else do
      let next ← evolveOwned (models.stream name) ⟨batchId, events⟩
      let staged ← stageStreams models batchId rest
      .ok ((name, next) :: staged)

/-- `evolve_streams`: all streams move, or none does. -/
def evolveStreams (models : StructureModels) (batch : StreamBatch) :
    Evolved StructureModels := do
  match models.batch with
  | some last =>
    if batch.batchId ≤ last then
      .error (.staleBatch last batch.batchId)
    else .ok ()
  | none => .ok ()
  checkStreams batch.batchId (models.streams.toList.map Prod.snd)
  let staged ← stageStreams models batch.batchId batch.streams.toList
  let streams :=
    staged.foldl (fun streams e => streams.insert e.1 e.2) models.streams
  .ok {
    batch := some batch.batchId
    streams := streams.map fun _ m => m.atBatch batch.batchId }

end Tasty.Core
