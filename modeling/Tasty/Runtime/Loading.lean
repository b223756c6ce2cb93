/-
What the runtime reads back at startup (`src/runtime/journal.rs`). `loadAll`
stops at the first damage. `loadRecoverable` gives up the streams that are
damaged, and reads of any other stream all that was ever written to it.
-/
import Tasty.Core.Alignment
import Tasty.Core.EventCodec
import Tasty.Journal.Replay

namespace Tasty.Runtime

open Tasty.Core Tasty.Journal List

-- ==== one batch

/-- A stream of an engine; other streams hold no structure. -/
def isStructureStream (stream : String) : Bool :=
  "structure:".toList.isPrefixOf stream.toList

inductive JournalError where
  | store (e : StoreError)
  | codec (e : CodecError)
  | evolve (e : EvolveError)
  | snapshotCutMismatch (id : SnapshotId) (stored model : Option Core.BatchId)

variable (T : JsonText) (raw : Bytes → T.Bytes)

/-- The text layer reads the bytes of the store through `raw`. -/
def recorded (stored : StoredEvent) : Except CodecError RecordedEvent := do
  let payload := stored.payload
  let event ← decodeEvent T payload.typeTag payload.schemaVersion
    (raw payload.bytes)
  .ok ⟨.ofNat stored.streamRevision, event⟩

def addRecorded (streams : BTreeMap String (List RecordedEvent))
    (stored : StoredEvent) :
    Except CodecError (BTreeMap String (List RecordedEvent)) :=
  let stream := stored.streamId
  if isStructureStream stream then do
    let event ← recorded T raw stored
    .ok (streams.insert stream ((streams[stream]?).getD [] ++ [event]))
  else .ok streams

def streamBatch (batch : StoredBatch) : Except CodecError StreamBatch := do
  let streams ← batch.events.foldlM (addRecorded T raw) ∅
  .ok ⟨.ofNat batch.cut.batchId, streams⟩

def applyAll (models : StructureModels) (batch : StoredBatch) :
    Except JournalError StructureModels := do
  let batch ← (streamBatch T raw batch).mapError .codec
  (evolveStreams models batch).mapError .evolve

-- ==== loading

/-- The models of a snapshot, at its own batch. -/
def readSnapshot (snapshot : DomainSnapshot) :
    Except JournalError StructureModels := do
  let models ← (decodeSnapshot T snapshot.modelVersion
    (raw snapshot.bytes)).mapError .codec
  let stored := snapshot.cut.lastBatch.map UInt64.ofNat
  if models.batch = stored then .ok models
  else .error (.snapshotCutMismatch snapshot.snapshotId stored models.batch)

/-- Why a stream is damaged. -/
inductive Cause where
  | sharesBatch (batch : Journal.BatchId) (stream : String)
  | failed (batch : Journal.BatchId) (error : JournalError)

structure LoadReport where
  damaged : BTreeMap String Cause
  skippedSnapshots : List (SnapshotId × JournalError)

/-- The structure streams of a batch, in order. -/
def structureStreams (batch : StoredBatch) : List String :=
  ((batch.events.map StoredEvent.streamId).filter
    isStructureStream).dedup.insertionSort (· ≤ ·)

/-- A batch is applied as a whole or damages all its streams. -/
def applyRecoverable :
    StructureModels × BTreeMap String Cause → StoredBatch →
      Except JournalError (StructureModels × BTreeMap String Cause)
  | (models, damaged), batch =>
    let streams := structureStreams batch
    let id := batch.cut.batchId
    let applied := match streams.find? damaged.contains with
      | some stream => Except.error (Cause.sharesBatch id stream)
      | none => (applyAll T raw models batch).mapError (Cause.failed id)
    match applied with
    | .ok models => .ok (models, damaged)
    | .error cause => do
      let rest := { models with
        streams := streams.foldl (·.erase ·) models.streams }
      -- the batch is passed without its structure events
      let models ← applyAll T raw rest { batch with events := [] }
      .ok (models, streams.foldl (·.insertIfNew · cause) damaged)

section Stores

variable [Sha256] (db : Database)

/-- `snapshot_and_tail_excluding`. -/
def snapshotAndTailExcluding (version : UInt32) (excluded : List SnapshotId) :
    Except StoreError Replay := do
  let (snapshot, rejected) ← db.latestLoop ((db.snapshots.filter fun s =>
    s.modelVersion = version ∧ s.snapshotId ∉ excluded).insertionSort
      Database.newer) []
  let tail ← db.batchesAfter (snapshot.bind fun s => s.cut.lastBatch)
  .ok ⟨snapshot, rejected, tail⟩

/-- The models to start from. -/
def readBase (replay : Replay) : Except JournalError StructureModels :=
  match replay.snapshot with
  | some snapshot => readSnapshot T raw snapshot
  | none => .ok .default

def loadAll : Except JournalError StructureModels := do
  let replay ← (db.snapshotAndTail modelVersion).mapError .store
  let models ← readBase T raw replay
  replay.tail.foldlM (applyAll T raw) models

/-- The loop that looks for a base. A round excludes one snapshot more; the
last one has none left. -/
def loadBase : Nat → List (SnapshotId × JournalError) →
    Except JournalError
      (StructureModels × List StoredBatch × List (SnapshotId × JournalError))
  | 0, skipped => do
    let replay ← (snapshotAndTailExcluding db modelVersion
      (skipped.map Prod.fst)).mapError .store
    let models ← readBase T raw replay
    .ok (models, replay.tail, skipped)
  | rounds + 1, skipped => do
    let replay ← (snapshotAndTailExcluding db modelVersion
      (skipped.map Prod.fst)).mapError .store
    match readBase T raw replay, replay.snapshot with
    | .ok models, _ => .ok (models, replay.tail, skipped)
    | .error e, some snapshot =>
      loadBase rounds (skipped ++ [(snapshot.snapshotId, e)])
    | .error e, none => .error e

def loadRecoverable : Except JournalError (StructureModels × LoadReport) := do
  let (models, tail, skipped) ← loadBase T raw db db.snapshots.length []
  let (models, damaged) ← tail.foldlM (applyRecoverable T raw) (models, ∅)
  .ok (models, ⟨damaged, skipped⟩)

end Stores

-- ==== one stream by itself

/-- What a stored batch does to one stream, whatever its other streams. -/
def applyStream (name : String) (m : Option JournalModel)
    (batch : StoredBatch) : Except JournalError (Option JournalModel) := do
  let events ← ((batch.events.filter fun stored =>
    stored.streamId = name).mapM (recorded T raw)).mapError .codec
  let id := UInt64.ofNat batch.cut.batchId
  if events = [] then .ok (m.map fun m => m.atBatch id)
  else do
    let next ← (evolve (m.getD .default) ⟨id, events⟩).mapError .evolve
    .ok (some next)

variable {T raw} {name : String} {batch : StoredBatch}
  {models models' : StructureModels} {damaged damaged' : BTreeMap String Cause}

theorem mapError_eq_ok {ε ε' α : Type} {f : ε → ε'} {x : Except ε α} {a : α} :
    x.mapError f = .ok a ↔ x = .ok a := by
  cases x with
  | error e => exact ⟨fun h => (by cases h), fun h => (by cases h)⟩
  | ok b => exact ⟨fun h => (by cases h; rfl), fun h => (by cases h; rfl)⟩

theorem addRecorded_get {events : List StoredEvent}
    {streams streams' : BTreeMap String (List RecordedEvent)}
    (hname : isStructureStream name = true)
    (h : events.foldlM (addRecorded T raw) streams = .ok streams') :
    ∃ found, (events.filter fun stored => stored.streamId = name).mapM
        (recorded T raw) = .ok found
      ∧ streams'[name]? = if found = [] then streams[name]?
        else some ((streams[name]?).getD [] ++ found) := by
  induction events generalizing streams with
  | nil =>
    cases h
    exact ⟨[], rfl, (if_pos rfl).symm⟩
  | cons stored events ih =>
    obtain ⟨next, hnext, h⟩ := bind_ok h
    obtain ⟨found, hfound, hget⟩ := ih h
    unfold addRecorded at hnext
    by_cases hsame : stored.streamId = name
    · rw [if_pos (hsame ▸ hname)] at hnext
      obtain ⟨event, hevent, hnext⟩ := bind_ok hnext
      cases hnext
      refine ⟨event :: found, ?_, ?_⟩
      · rw [filter_cons_of_pos (by simpa using hsame), mapM_cons,
          hevent, hfound]
        rfl
      · rw [hget, hsame, BTreeMap.get_insert, if_pos rfl]
        split <;> simp [*]
    · have hkept : next[name]? = streams[name]? := by
        dsimp only at hnext
        split at hnext
        · obtain ⟨event, -, hnext⟩ := bind_ok hnext
          cases hnext
          rw [BTreeMap.get_insert, if_neg hsame]
        · cases hnext
          rfl
      rw [hkept] at hget
      refine ⟨found, ?_, hget⟩
      rwa [filter_cons_of_neg (by simpa using hsame)]

/-- A batch that is applied does to each stream what it does to it alone. -/
theorem applyAll_stream (hname : isStructureStream name = true)
    (h : applyAll T raw models batch = .ok models') :
    applyStream T raw name models.streams[name]? batch
      = .ok models'.streams[name]? := by
  obtain ⟨out, hout, h⟩ := bind_ok h
  obtain ⟨streams, hstreams, hout⟩ := bind_ok (mapError_eq_ok.1 hout)
  cases hout
  have hper := evolveStreams_perStream (mapError_eq_ok.1 h)
  obtain ⟨events, hevents, hget⟩ := addRecorded_get hname hstreams
  unfold applyStream
  rw [hevents]
  by_cases hnone : events = []
  · rw [if_pos hnone] at hget
    have hother := hper.other name (by simpa using hget)
    rw [hother]
    exact if_pos hnone
  · rw [if_neg hnone] at hget
    obtain ⟨m, hm, hnamed⟩ := hper.named name events (by simpa using hget)
    rw [hnamed]
    refine (if_neg hnone).trans ?_
    unfold StructureModels.stream at hm
    rw [hm]
    rfl

theorem mem_structureStreams : name ∈ structureStreams batch
    ↔ (∃ stored ∈ batch.events, stored.streamId = name)
      ∧ isStructureStream name = true := by
  rw [structureStreams, mem_insertionSort, mem_dedup,
    mem_filter, mem_map]

theorem applyStream_quiet (hname : isStructureStream name = true)
    (h : name ∉ structureStreams batch) (m : Option JournalModel) :
    applyStream T raw name m batch
      = .ok (m.map fun m => m.atBatch (.ofNat batch.cut.batchId)) := by
  have hnone : batch.events.filter (fun stored => stored.streamId = name)
      = [] := by
    refine filter_eq_nil_iff.2 fun stored hstored heq => ?_
    exact h (mem_structureStreams.2
      ⟨⟨stored, hstored, of_decide_eq_true heq⟩, hname⟩)
  unfold applyStream
  rw [hnone]
  rfl

-- ==== the recoverable loader

theorem get_eraseAll {streams : List String}
    {map : BTreeMap String JournalModel} :
    (streams.foldl (·.erase ·) map)[name]?
      = if name ∈ streams then none else map[name]? := by
  induction streams generalizing map with
  | nil => rfl
  | cons stream streams ih =>
    rw [foldl_cons, ih, BTreeMap.get_erase]
    by_cases h : stream = name <;> simp [h, Ne.symm]

theorem mem_insertAll {streams : List String} {cause : Cause} :
    name ∈ streams.foldl (·.insertIfNew · cause) damaged
      ↔ name ∈ damaged ∨ name ∈ streams := by
  induction streams generalizing damaged with
  | nil => simp
  | cons stream streams ih =>
    rw [foldl_cons, ih, Std.ExtTreeMap.mem_insertIfNew,
      Std.LawfulEqCmp.compare_eq_iff_eq, mem_cons, eq_comm, or_assoc,
      or_left_comm]

theorem applyRecoverable_cases
    (h : applyRecoverable T raw (models, damaged) batch
      = .ok (models', damaged')) :
    ((∀ stream ∈ structureStreams batch, stream ∉ damaged)
        ∧ applyAll T raw models batch = .ok models' ∧ damaged' = damaged)
      ∨ ∃ cause, applyAll T raw { models with
            streams := (structureStreams batch).foldl (·.erase ·)
              models.streams } { batch with events := [] } = .ok models'
          ∧ damaged' = (structureStreams batch).foldl
            (·.insertIfNew · cause) damaged := by
  unfold applyRecoverable at h
  dsimp only at h
  split at h
  · rename_i hok
    cases h
    split at hok
    · cases hok
    · rename_i hnone
      refine .inl ⟨fun stream hstream => ?_, mapError_eq_ok.1 hok, rfl⟩
      exact List.find?_eq_none.1 hnone stream hstream
  · rename_i cause _
    obtain ⟨next, hnext, h⟩ := bind_ok h
    cases h
    exact .inr ⟨cause, hnext, rfl⟩

/-- A damaged stream stays damaged and is not there; any other one goes on as
it would alone. -/
theorem applyRecoverable_stream (hname : isStructureStream name = true)
    (h : applyRecoverable T raw (models, damaged) batch
      = .ok (models', damaged')) :
    (name ∈ damaged → name ∈ damaged')
      ∧ ((name ∈ damaged → models.streams[name]? = none) →
        (name ∈ damaged' → models'.streams[name]? = none)
          ∧ (name ∉ damaged' →
            applyStream T raw name models.streams[name]? batch
              = .ok models'.streams[name]?)) := by
  rcases applyRecoverable_cases h with ⟨hapart, happly, rfl⟩ |
    ⟨cause, happly, rfl⟩
  · have hstream := applyAll_stream hname happly
    refine ⟨id, fun hlost => ⟨fun hdamaged => ?_, fun _ => hstream⟩⟩
    have hout : name ∉ structureStreams batch :=
      fun hmem => hapart name hmem hdamaged
    rw [applyStream_quiet hname hout, hlost hdamaged] at hstream
    exact (Except.ok.inj hstream).symm
  · have hstream := applyAll_stream hname happly
    rw [applyStream_quiet hname fun hmem =>
      not_mem_nil (mem_structureStreams.1 hmem).1.choose_spec.1,
      get_eraseAll] at hstream
    have hget := Except.ok.inj hstream
    rw [mem_insertAll]
    refine ⟨.inl, fun hlost => ⟨fun hdamaged => ?_, fun hwhole => ?_⟩⟩
    · rw [← hget]
      by_cases hmem : name ∈ structureStreams batch
      · rw [if_pos hmem]
        rfl
      · rw [if_neg hmem, hlost (hdamaged.resolve_right hmem)]
        rfl
    · rw [not_or] at hwhole
      rw [if_neg hwhole.2] at hget
      rw [applyStream_quiet hname hwhole.2, hget]

theorem recover_stream {tail : List StoredBatch}
    (hname : isStructureStream name = true)
    (h : tail.foldlM (applyRecoverable T raw) (models, damaged)
      = .ok (models', damaged')) :
    (name ∈ damaged → name ∈ damaged')
      ∧ ((name ∈ damaged → models.streams[name]? = none) →
        (name ∈ damaged' → models'.streams[name]? = none)
          ∧ (name ∉ damaged' →
            tail.foldlM (applyStream T raw name) models.streams[name]?
              = .ok models'.streams[name]?)) := by
  induction tail generalizing models damaged with
  | nil =>
    cases h
    exact ⟨id, fun hlost => ⟨hlost, fun _ => rfl⟩⟩
  | cons batch tail ih =>
    obtain ⟨⟨next, between⟩, hnext, h⟩ := bind_ok h
    obtain ⟨hkept, hstep⟩ := applyRecoverable_stream hname hnext
    obtain ⟨hrest, hloop⟩ := ih h
    refine ⟨fun hin => hrest (hkept hin), fun hlost => ?_⟩
    obtain ⟨hgone, hwhole⟩ := hloop (hstep hlost).1
    refine ⟨hgone, fun hnot => ?_⟩
    rw [foldlM_cons, (hstep hlost).2 fun hin => hnot (hrest hin)]
    exact hwhole hnot

theorem streamBatch_quiet {events : List StoredEvent}
    (h : ∀ stored ∈ events, isStructureStream stored.streamId = false)
    (streams : BTreeMap String (List RecordedEvent)) :
    events.foldlM (addRecorded T raw) streams = .ok streams := by
  induction events with
  | nil => rfl
  | cons stored events ih =>
    have hquiet := h stored mem_cons_self
    rw [foldlM_cons, addRecorded, hquiet]
    exact ih fun stored hstored => h stored (mem_cons_of_mem _ hstored)

/-- Nothing is damaged exactly when all can be applied. -/
theorem recover_clean_iff {tail : List StoredBatch} :
    tail.foldlM (applyRecoverable T raw) (models, ∅) = .ok (models', ∅)
      ↔ tail.foldlM (applyAll T raw) models = .ok models' := by
  induction tail generalizing models with
  | nil => exact ⟨fun h => by cases h; rfl, fun h => by cases h; rfl⟩
  | cons batch tail ih =>
    rw [foldlM_cons, foldlM_cons, bind_eq_ok, bind_eq_ok]
    constructor
    · rintro ⟨⟨next, between⟩, hnext, h⟩
      have hnone : ∀ name ∈ structureStreams batch, name ∉ between := by
        intro name hmem hin
        have hname := (mem_structureStreams.1 hmem).2
        exact Std.ExtTreeMap.not_mem_empty ((recover_stream hname h).1 hin)
      rcases applyRecoverable_cases hnext with ⟨-, happly, rfl⟩ |
        ⟨cause, happly, rfl⟩
      · exact ⟨next, happly, ih.1 h⟩
      · -- without structure events it would have been applied
        have hquiet : structureStreams batch = [] :=
          eq_nil_iff_forall_not_mem.2 fun name hmem =>
            hnone name hmem (mem_insertAll.2 (.inr hmem))
        rw [hquiet] at happly h
        have hsame : batch.events.foldlM (addRecorded T raw) ∅ = .ok ∅ := by
          refine streamBatch_quiet (fun stored hstored =>
            Bool.eq_false_iff.2 fun hname => ?_) ∅
          have hmem := mem_structureStreams.2 ⟨⟨stored, hstored, rfl⟩, hname⟩
          rw [hquiet] at hmem
          cases hmem
        refine ⟨next, ?_, ih.1 h⟩
        rw [← happly, applyAll, applyAll, streamBatch, streamBatch, hsame]
        rfl
    · rintro ⟨next, hnext, h⟩
      refine ⟨(next, ∅), ?_, ih.2 h⟩
      have hfind : (structureStreams batch).find?
          (∅ : BTreeMap String Cause).contains = none :=
        List.find?_eq_none.2 fun _ _ => by simp
      rw [applyRecoverable, hfind, hnext]
      rfl

variable [Sha256] {db : Database} {report : LoadReport}

theorem snapshotAndTailExcluding_nil (version : UInt32) :
    snapshotAndTailExcluding db version [] = db.snapshotAndTail version := by
  unfold snapshotAndTailExcluding Database.snapshotAndTail
  simp

theorem loadBase_cases {rounds : Nat} {base : StructureModels}
    {tail : List StoredBatch} {skipped out : List (SnapshotId × JournalError)}
    (h : loadBase T raw db rounds skipped = .ok (base, tail, out)) :
    skipped.length < out.length ∨ out = skipped ∧ ∃ replay,
      snapshotAndTailExcluding db modelVersion (skipped.map Prod.fst)
          = .ok replay
        ∧ readBase T raw replay = .ok base ∧ replay.tail = tail := by
  induction rounds generalizing skipped with
  | zero =>
    obtain ⟨replay, hreplay, h⟩ := bind_ok h
    obtain ⟨models, hbase, h⟩ := bind_ok h
    cases h
    exact .inr ⟨rfl, replay, mapError_eq_ok.1 hreplay, hbase, rfl⟩
  | succ rounds ih =>
    obtain ⟨replay, hreplay, h⟩ := bind_ok h
    split at h
    · rename_i hbase
      cases h
      exact .inr ⟨rfl, replay, mapError_eq_ok.1 hreplay, hbase, rfl⟩
    · refine .inl ?_
      rcases ih h with hlt | ⟨rfl, -⟩
      · rw [length_append] at hlt
        exact Nat.lt_of_succ_lt hlt
      · rw [length_append]
        exact Nat.lt_succ_self _
    · cases h

/-- The recoverable loader reports nothing exactly on the stores that the
plain one reads, and reads the same. -/
theorem clean_iff_loaded (T : JsonText) (raw : Bytes → T.Bytes)
    (db : Database) (models : StructureModels) :
    loadRecoverable T raw db = .ok (models, ⟨∅, []⟩)
      ↔ loadAll T raw db = .ok models := by
  constructor
  · intro h
    obtain ⟨⟨base, tail, skipped⟩, hbase, h⟩ := bind_ok h
    obtain ⟨⟨next, damaged⟩, hnext, h⟩ := bind_ok h
    cases h
    rcases loadBase_cases hbase with hlt | ⟨-, replay, hreplay, hread, rfl⟩
    · cases hlt
    · rw [map_nil, snapshotAndTailExcluding_nil] at hreplay
      rw [loadAll, hreplay]
      exact bind_eq_ok.2 ⟨replay, rfl, bind_eq_ok.2
        ⟨base, hread, recover_clean_iff.1 hnext⟩⟩
  · intro h
    obtain ⟨replay, hreplay, h⟩ := bind_ok h
    obtain ⟨base, hread, h⟩ := bind_ok h
    rw [← snapshotAndTailExcluding_nil] at hreplay
    have hbase : loadBase T raw db db.snapshots.length []
        = .ok (base, replay.tail, []) := by
      cases db.snapshots.length with
      | zero =>
        rw [loadBase, map_nil, hreplay, ok_bind, hread]
        rfl
      | succ rounds => rw [loadBase, map_nil, hreplay, ok_bind, hread]
    rw [loadRecoverable, hbase, ok_bind]
    dsimp only
    rw [recover_clean_iff.2 h]
    rfl

/-- What is loaded of a stream is what the base holds of it and then its whole
history, or nothing: it is never read up to some batch only, whatever cannot
be read of it or of the others. -/
theorem loaded_whole_or_not
    (h : loadRecoverable T raw db = .ok (models, report)) :
    ∃ base tail, loadBase T raw db db.snapshots.length []
        = .ok (base, tail, report.skippedSnapshots)
      ∧ ∀ name, isStructureStream name = true →
        if name ∈ report.damaged then models.streams[name]? = none
        else tail.foldlM (applyStream T raw name) base.streams[name]?
          = .ok models.streams[name]? := by
  obtain ⟨⟨base, tail, skipped⟩, hbase, h⟩ := bind_ok h
  obtain ⟨⟨next, damaged⟩, hnext, h⟩ := bind_ok h
  cases h
  refine ⟨base, tail, hbase, fun name hname => ?_⟩
  obtain ⟨hgone, hwhole⟩ := (recover_stream hname hnext).2
    fun hin => absurd hin Std.ExtTreeMap.not_mem_empty
  split
  · exact hgone ‹_›
  · exact hwhole ‹_›

-- ==== a sample

/-- Two streams of one event each; that of the first one cannot be read. -/
def tornActs : List Act :=
  let write (stream tag : String) : Act := .call (.commit
    { CommitRequest.new 1 with appends := [⟨stream, .any,
      [⟨stream, ⟨tag, 1, []⟩, 0, none, "user", "test", []⟩]⟩] } false)
  [.call .acquireWriter, write "structure:a" "torn",
    write "structure:b" clearingEvent.typeTag]

def tornLoad : Except JournalError (StructureModels × LoadReport) :=
  @loadRecoverable .plain (fun _ => Serde.ser clearingEvent) sampleSum
    (@Store.play sampleSum sampleStore .empty tornActs).journal.db

omit [Sha256] in
theorem loaded_whole_or_not_torn :
    ∃ models report, tornLoad = .ok (models, report)
      ∧ models.streams["structure:a"]? = none
      ∧ (models.streams["structure:b"]?).isSome = true := by
  have h : tornLoad.toOption.any (fun r => r.2.damaged.contains "structure:a"
      && (r.1.streams["structure:b"]?).isSome) = true := by decide +kernel
  cases hload : tornLoad with
  | error e =>
    rw [hload] at h
    cases h
  | ok r =>
    obtain ⟨_, _, -, hstreams⟩ := @loaded_whole_or_not _ _ _ sampleSum _ _
      hload
    rw [hload] at h
    obtain ⟨hdamaged, hthere⟩ := Bool.and_eq_true_iff.1 h
    have hlost := hstreams "structure:a" (by decide)
    rw [if_pos (Std.ExtTreeMap.mem_iff_contains.2 hdamaged)] at hlost
    exact ⟨_, _, rfl, hlost, hthere⟩

end Tasty.Runtime
