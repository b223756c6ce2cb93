/-
A batch over many streams does to each stream what it does to that stream
alone, and the positions of all streams stay at one batch.

The staged models are one for each stream with events (`staged_iff`), so
publishing them is a lookup by name; the position of every stream is then
moved at once.
-/
import Tasty.Core.Streams
import Tasty.Lib.Except

namespace Tasty.Core

open List

variable {models models' : StructureModels} {batch : StreamBatch}
  {id : BatchId} {name : String} {events : List RecordedEvent}

/-- The models after a batch: the ones before it if it is refused. -/
def StructureModels.after (models : StructureModels) (batch : StreamBatch) :
    StructureModels :=
  match evolveStreams models batch with
  | .ok next => next
  | .error _ => models

/-- The models after a run of batches from empty. -/
def StructureModels.run (batches : List StreamBatch) : StructureModels :=
  batches.foldl .after .default

/-- Every stream is at the last batch. -/
def StructureModels.Aligned (models : StructureModels) : Prop :=
  ∀ (name : String) m, models.streams[name]? = some m →
    m.applied.batch = models.batch

-- ==== the stages

theorem checkStreams_ok {ms : List JournalModel} :
    checkStreams id ms = .ok () ↔ ∀ m ∈ ms, checkBatch m id = .ok () := by
  induction ms with
  | nil => exact ⟨fun _ => forall_mem_nil _, fun _ => rfl⟩
  | cons m ms ih =>
    unfold checkStreams
    rw [bind_eq_ok, forall_mem_cons, ← ih]
    exact ⟨fun ⟨_, hm, hms⟩ => ⟨hm, hms⟩, fun ⟨hm, hms⟩ => ⟨(), hm, hms⟩⟩

/-- The streams that a batch passes over. -/
def skips (models : StructureModels) (name : String)
    (events : List RecordedEvent) : Bool :=
  events.isEmpty && models.streams.contains name

variable {staged : List (String × JournalModel)}

theorem stageStreams_ok {entries : List (String × List RecordedEvent)}
    (h : stageStreams models id entries = .ok staged) :
    (∀ e ∈ staged, ∃ events, (e.1, events) ∈ entries
        ∧ evolveOwned (models.stream e.1) ⟨id, events⟩ = .ok e.2)
      ∧ ∀ e ∈ entries, skips models e.1 e.2 = false →
        ∃ m, (e.1, m) ∈ staged := by
  induction entries generalizing staged with
  | nil =>
    cases h
    exact ⟨forall_mem_nil _, forall_mem_nil _⟩
  | cons entry entries ih =>
    obtain ⟨name, events⟩ := entry
    unfold stageStreams at h
    split at h
    · rename_i hskip
      obtain ⟨hstaged, hall⟩ := ih h
      refine ⟨fun e he => ?_, fun e he hno => ?_⟩
      · obtain ⟨events, hmem, hev⟩ := hstaged e he
        exact ⟨events, .tail _ hmem, hev⟩
      · rcases mem_cons.1 he with rfl | he
        · rw [show skips models name events = true from hskip] at hno
          cases hno
        · exact hall e he hno
    · obtain ⟨next, hnext, h⟩ := bind_ok h
      obtain ⟨rest, hrest, h⟩ := bind_ok h
      cases h
      obtain ⟨hstaged, hall⟩ := ih hrest
      refine ⟨fun e he => ?_, fun e he hno => ?_⟩
      · rcases mem_cons.1 he with rfl | he
        · exact ⟨events, .head _, hnext⟩
        · obtain ⟨events, hmem, hev⟩ := hstaged e he
          exact ⟨events, .tail _ hmem, hev⟩
      · rcases mem_cons.1 he with rfl | he
        · exact ⟨next, .head _⟩
        · obtain ⟨m, hm⟩ := hall e he hno
          exact ⟨m, .tail _ hm⟩

variable {map : BTreeMap String JournalModel}

theorem get_extend_other (hnone : ∀ e ∈ staged, e.1 ≠ name) :
    (staged.foldl (fun map e => map.insert e.1 e.2) map)[name]?
      = map[name]? := by
  induction staged generalizing map with
  | nil => rfl
  | cons e staged ih =>
    rw [foldl_cons, ih fun e h => hnone e (.tail _ h),
      BTreeMap.get_insert, if_neg (hnone e (.head _))]

variable {m : JournalModel}

theorem get_extend
    (hmem : (name, m) ∈ staged) (hone : ∀ m', (name, m') ∈ staged → m' = m) :
    (staged.foldl (fun map e => map.insert e.1 e.2) map)[name]?
      = some m := by
  induction staged generalizing map with
  | nil => cases hmem
  | cons e staged ih =>
    rw [foldl_cons]
    by_cases hlater : ∃ m', (name, m') ∈ staged
    · obtain ⟨m', hm'⟩ := hlater
      refine ih ?_ fun m' h => hone m' (.tail _ h)
      rw [← hone m' (.tail _ hm')]
      exact hm'
    · rcases mem_cons.1 hmem with rfl | hmem
      · rw [get_extend_other, BTreeMap.get_insert, if_pos rfl]
        exact fun e he heq => hlater ⟨e.2, heq ▸ he⟩
      · exact absurd ⟨m, hmem⟩ hlater

-- ==== one batch

/-- The parts of a batch that succeeded. -/
theorem evolveStreams_ok (h : evolveStreams models batch = .ok models') :
    (∀ (name : String) m, models.streams[name]? = some m →
      checkBatch m batch.batchId = .ok ())
      ∧ ∃ staged, stageStreams models batch.batchId batch.streams.toList
          = .ok staged
        ∧ models' = ⟨some batch.batchId,
          (staged.foldl (fun map e => map.insert e.1 e.2) models.streams).map
            fun _ m => m.atBatch batch.batchId⟩ := by
  have hrest : (checkStreams batch.batchId (models.streams.toList.map
      Prod.snd) >>= fun _ =>
      stageStreams models batch.batchId batch.streams.toList >>= fun staged =>
        Except.ok (ε := EvolveError) ⟨some batch.batchId,
          (staged.foldl (fun map e => map.insert e.1 e.2) models.streams).map
            fun _ m => m.atBatch batch.batchId⟩) = .ok models' := by
    unfold evolveStreams at h
    dsimp only at h
    split at h
    · split at h
      · cases h
      · exact h
    · exact h
  obtain ⟨⟨⟩, hcheck, hrest⟩ := bind_ok hrest
  obtain ⟨staged, hstaged, hrest⟩ := bind_ok hrest
  cases hrest
  refine ⟨fun name m hm => ?_, staged, hstaged, rfl⟩
  refine checkStreams_ok.1 hcheck m (mem_map.2 ⟨(name, m), ?_, rfl⟩)
  exact (BTreeMap.mem_toList_iff _ _ _).2 hm

/-- A position is checked before an event is. -/
theorem evolve_eq (m : JournalModel) (batch : DomainBatch) :
    evolve m batch = evolveOwned m batch := by
  unfold evolve
  by_cases hempty : batch.events.isEmpty = true
  · rw [if_pos hempty]
    unfold evolveOwned
    rw [List.isEmpty_iff.1 hempty]
    rfl
  · rw [if_neg hempty]
    unfold evolveOwned
    cases checkBatch m batch.batchId with
    | ok u => rfl
    | error e => rfl

theorem evolve_empty (h : checkBatch m id = .ok ()) :
    evolve m ⟨id, []⟩ = .ok (m.atBatch id) := by
  unfold evolve
  rw [h]
  rfl

theorem atBatch_of_evolveOwned {next : JournalModel} {b : DomainBatch}
    (h : evolveOwned m b = .ok next) : next.atBatch b.batchId = next := by
  unfold evolveOwned at h
  obtain ⟨-, -, h⟩ := bind_ok h
  obtain ⟨m', -, h⟩ := bind_ok h
  cases h
  rfl

/-- What a batch that succeeds does to each stream. -/
structure PerStream (models : StructureModels) (batch : StreamBatch)
    (next : StructureModels) : Prop where
  named : ∀ (name : String) events, batch.streams[name]? = some events →
    ∃ m, evolve (models.stream name) ⟨batch.batchId, events⟩ = .ok m
      ∧ next.streams[name]? = some m
  other : ∀ name : String, batch.streams[name]? = none →
    next.streams[name]?
      = (models.streams[name]?).map fun m => m.atBatch batch.batchId
  aligned : next.Aligned
  position : next.batch = some batch.batchId

theorem evolveStreams_perStream
    (h : evolveStreams models batch = .ok models') :
    PerStream models batch models' := by
  obtain ⟨hcheck, staged, hstaged, rfl⟩ := evolveStreams_ok h
  obtain ⟨hfrom, hall⟩ := stageStreams_ok hstaged
  have hone : ∀ {name : String} {events : List RecordedEvent}
      {m : JournalModel}, batch.streams[name]? = some events →
      (name, m) ∈ staged →
      evolveOwned (models.stream name) ⟨batch.batchId, events⟩ = .ok m := by
    intro name events m hin hm
    obtain ⟨events', hentry, hev⟩ := hfrom _ hm
    rw [BTreeMap.mem_toList_iff, hin] at hentry
    cases hentry
    exact hev
  refine ⟨fun name events hin => ?_, fun name hout => ?_, ?_, rfl⟩
  · dsimp only
    rw [Std.ExtTreeMap.getElem?_map]
    by_cases hm : ∃ m, (name, m) ∈ staged
    · obtain ⟨m, hm⟩ := hm
      have hev := hone hin hm
      refine ⟨m, (evolve_eq _ _).trans hev, ?_⟩
      rw [get_extend hm fun m' hm' =>
        Except.ok.inj ((hone hin hm').symm.trans hev)]
      exact congrArg some (atBatch_of_evolveOwned hev)
    · -- it was passed over: there are no events, and the stream is known
      have hentry := (BTreeMap.mem_toList_iff _ name events).2 hin
      have hskip : skips models name events = true := by
        by_contra hno
        exact hm (hall _ hentry (Bool.eq_false_iff.2 hno))
      unfold skips at hskip
      rw [Bool.and_eq_true, List.isEmpty_iff] at hskip
      obtain ⟨rfl, hknown⟩ := hskip
      obtain ⟨m, hget⟩ := Option.isSome_iff_exists.1
        (Std.ExtTreeMap.isSome_getElem?_eq_contains.trans hknown)
      have hstream : models.stream name = m := by
        unfold StructureModels.stream
        rw [hget]
        rfl
      refine ⟨m.atBatch batch.batchId, ?_, ?_⟩
      · rw [hstream]
        exact evolve_empty (hcheck name m hget)
      · have hother : ∀ e ∈ staged, e.1 ≠ name := by
          rintro e he rfl
          exact hm ⟨e.2, he⟩
        rw [get_extend_other hother, hget]
        rfl
  · dsimp only
    rw [Std.ExtTreeMap.getElem?_map, get_extend_other]
    rintro e he rfl
    obtain ⟨events, hentry, -⟩ := hfrom e he
    rw [BTreeMap.mem_toList_iff, hout] at hentry
    cases hentry
  · intro name m hm
    dsimp only at hm
    rw [Std.ExtTreeMap.getElem?_map] at hm
    obtain ⟨m', -, rfl⟩ := Option.map_eq_some_iff.1 hm
    rfl

theorem after_of_rejected {e : EvolveError}
    (hin : batch.streams[name]? = some events)
    (hrejected : evolve (models.stream name) ⟨batch.batchId, events⟩
      = .error e) : models.after batch = models := by
  unfold StructureModels.after
  cases h : evolveStreams models batch with
  | error e => rfl
  | ok next =>
    obtain ⟨m, hm, -⟩ := (evolveStreams_perStream h).named name events hin
    rw [hrejected] at hm
    cases hm

theorem StructureModels.Aligned.after (h : models.Aligned)
    (batch : StreamBatch) : (models.after batch).Aligned := by
  unfold StructureModels.after
  cases hev : evolveStreams models batch with
  | error e => exact h
  | ok next => exact (evolveStreams_perStream hev).aligned

theorem StructureModels.run_aligned (batches : List StreamBatch) :
    (run batches).Aligned := by
  have hall : ∀ models : StructureModels, models.Aligned →
      (batches.foldl StructureModels.after models).Aligned := by
    induction batches with
    | nil => exact fun _ h => h
    | cons batch batches ih => exact fun models h => ih _ (h.after batch)
  exact hall .default fun name m hm => by simp [default] at hm

/-- A batch over many streams is, for each of them, the batch of its own
events; it happens to all or to none, and the positions stay together. -/
theorem streams_evolve_apart :
    (∀ (models next : StructureModels) (batch : StreamBatch),
      evolveStreams models batch = .ok next → PerStream models batch next)
    ∧ (∀ (models : StructureModels) (batch : StreamBatch) (name : String)
        (events : List RecordedEvent) (e : EvolveError),
      batch.streams[name]? = some events →
      evolve (models.stream name) ⟨batch.batchId, events⟩ = .error e →
      models.after batch = models)
    ∧ ∀ batches, (StructureModels.run batches).Aligned :=
  ⟨fun _ _ _ h => evolveStreams_perStream h,
    fun _ _ _ _ _ hin hrejected => after_of_rejected hin hrejected,
    StructureModels.run_aligned⟩

end Tasty.Core
