/-
A journal and its upkeep: next to the calls that commit, snapshots are saved
and deleted, manifests are published, moved, frozen and deleted, and history
is compacted. Along a run all batches that were ever committed are recorded.
-/
import Tasty.Journal.Commands
import Tasty.Journal.Restores
import Tasty.Journal.Transitions

namespace Tasty.Journal

open List

variable [Sha256]

variable {epoch : WriterEpoch} {id : SnapshotId} {key : String}

/-- The operations that change no event. -/
inductive Maintenance where
  | putPayload (epoch : WriterEpoch) (bytes : Bytes)
  | gcPayloads (epoch : WriterEpoch)
  | saveSnapshot (epoch : WriterEpoch) (snapshot : NewSnapshot)
  | saveLiveSnapshot (epoch : WriterEpoch) (snapshot : NewSnapshot)
      (consumer : String)
  | deleteSnapshot (epoch : WriterEpoch) (id : SnapshotId)
  | compactHistory (epoch : WriterEpoch) (version : UInt32)
  | saveRestoreManifest (epoch : WriterEpoch) (m : NewRestoreManifest)
  | saveRestoreCheckpoint (epoch : WriterEpoch) (snapshot : NewSnapshot)
      (m : NewRestoreManifest)
  | freezeRestoreAlias (epoch : WriterEpoch) (key sourceKey : String)
      (requestDigest : Bytes)
  | rebaseRestoreManifest (epoch : WriterEpoch) (key : String)
      (stream : StreamId) (target : SnapshotId)
  | deleteRestoreManifest (epoch : WriterEpoch) (key : String)
      (incarnation : Nat)

/-- The tables after an operation. -/
def EventStore.maintain (s : EventStore) (db : Database) :
    Maintenance → Except StoreError Database
  | .putPayload epoch bytes => Prod.fst <$> s.putPayload db epoch bytes
  | .gcPayloads epoch => Prod.fst <$> s.gcPayloads db epoch
  | .saveSnapshot epoch snapshot =>
    Prod.fst <$> s.saveSnapshot db epoch snapshot
  | .saveLiveSnapshot epoch snapshot consumer =>
    Prod.fst <$> s.saveLiveSnapshot db epoch snapshot consumer
  | .deleteSnapshot epoch id => s.deleteSnapshot db epoch id
  | .compactHistory epoch version =>
    Prod.fst <$> s.compactHistory db epoch version
  | .saveRestoreManifest epoch m => s.saveRestoreManifest db epoch m
  | .saveRestoreCheckpoint epoch snapshot m =>
    Prod.fst <$> s.saveRestoreCheckpoint db epoch snapshot m
  | .freezeRestoreAlias epoch key sourceKey requestDigest =>
    Prod.fst <$> s.freezeRestoreAlias db epoch key sourceKey requestDigest
  | .rebaseRestoreManifest epoch key stream target =>
    Prod.fst <$> s.rebaseRestoreManifest db epoch key stream target
  | .deleteRestoreManifest epoch key incarnation =>
    Prod.fst <$> s.deleteRestoreManifest db epoch key incarnation

/-- A journal, with the batches that were ever committed. -/
structure Store where
  journal : State
  history : List StoredBatch

def Store.empty : Store := ⟨.empty, []⟩

/-- The batches that are new are recorded. -/
def Store.record (st : Store) (journal : State) : Store :=
  ⟨journal, st.history
    ++ (journal.db.batches.drop st.journal.db.batches.length).map
      journal.db.stored⟩

inductive Act where
  | call (c : Call)
  | importCommit (r : CommitRequest) (prepare : Prepare)
  | maintain (op : Maintenance)

/-- An act of a store. Upkeep is done while no group is under way, which has
the lock of the database; what fails changes nothing. -/
def Store.act (s : EventStore) (st : Store) (a : Act) : Store :=
  match st.journal.group, a with
  | _, .call c => st.record (st.journal.call s c)
  | none, .importCommit r prepare =>
    match s.commitWithRestoreCheckpoint st.journal.db r prepare with
    | .ok (db, outcome) =>
      st.record { st.journal with
        db, applied := st.journal.applied ++ r.made (.ok outcome) }
    | .error _ => st
  | none, .maintain op =>
    match s.maintain st.journal.db op with
    | .ok db => st.record { st.journal with db }
    | .error _ => st
  | some _, _ => st

/-- The snapshot that an act saves, if it gets to save one. -/
def Act.snapshot (s : EventStore) (db : Database) : Act → Option NewSnapshot
  | .maintain (.saveSnapshot _ snapshot)
  | .maintain (.saveLiveSnapshot _ snapshot _)
  | .maintain (.saveRestoreCheckpoint _ snapshot _) => some snapshot
  | .importCommit r prepare =>
    match db.importBatch r s.journalId s.maxPendingEffects with
    | .error _ => none
    | .ok (_, batch) =>
      match prepare batch with
      | .error _ => none
      | .ok (snapshot, _) => some snapshot
  | _ => none

/-- The manifest that an act deletes. -/
def Act.deleted (s : EventStore) (db : Database) : Act → Option String
  | .maintain (.deleteRestoreManifest epoch key incarnation) =>
    match s.deleteRestoreManifest db epoch key incarnation with
    | .ok (_, true) => some key
    | _ => none
  | _ => none

def Act.changes (s : EventStore) (db : Database) (a : Act) : Changes where
  saved := fun n => a.snapshot s db = some n
  deleted := fun key => a.deleted s db = some key

/-- An act of any store, among those that are allowed. -/
def Store.Step (allowed : EventStore → Store → Act → Prop)
    (st st' : Store) : Prop :=
  ∃ s a, allowed s st a ∧ st' = st.act s a

def Store.Run (allowed : EventStore → Store → Act → Prop) :
    Store → Store → Prop :=
  Relation.ReflTransGen (Store.Step allowed)

-- ==== commits

/-- A commit saves no snapshot and deletes no manifest. -/
def Changes.none : Changes := ⟨fun _ => False, fun _ => False⟩

omit [Sha256] in
theorem Later.of_none {c : Changes} {db db' : Database}
    (h : Later .none db db') : Later c db db' :=
  { h with
    snapshots := fun s hs => by
      rcases h.snapshots s hs with hs | ⟨-, -, n, hn, -⟩
      · exact .inl hs
      · exact hn.elim
    stored := fun key _ => h.stored key id
    frozen := fun key _ => h.frozen key id }

section Commits

variable {db db' : Database} {batchId : BatchId} {commandId : Option String}

variable {as : List StreamAppend}

omit [Sha256] in
theorem appendStreams_revisions {index : Nat}
    {revisions revisions' : BTreeMap StreamId Revision}
    (h : db.appendStreams batchId commandId as index revisions
      = .ok (db', revisions')) :
    ∃ rows, db'.batchRevisions = db.batchRevisions ++ rows
      ∧ ∀ r ∈ rows, r.batchId = batchId := by
  induction as generalizing db index revisions with
  | nil =>
    cases h
    exact ⟨[], (append_nil _).symm, fun _ hr => nomatch hr⟩
  | cons a as ih =>
    obtain ⟨⟨db₁, last⟩, happend, h⟩ := bind_ok h
    obtain ⟨events, -, -, -, -, -, heq⟩ := appendStream_ok happend
    obtain ⟨rows, hrows, hbatch⟩ := ih h
    rw [heq] at hrows
    refine ⟨_ :: rows, by rw [hrows, append_assoc]; rfl, ?_⟩
    intro r hr
    rcases mem_cons.1 hr with rfl | hr
    · rfl
    · exact hbatch r hr

/-- A batch is of the next number, with the events and revisions of it. -/
theorem Keeps.appendBatch {cut : BatchCut}
    (h : db.appendBatch as epoch commandId = .ok (db', cut)) :
    Keeps .none db db' := by
  obtain ⟨-, ⟨events, hevents, hbatch⟩, hpinned, heq⟩ := appendBatch_ok h
  have h := then_ok h
  obtain ⟨_, -, h⟩ := bind_ok h
  obtain ⟨id, hid, h⟩ := bind_ok h
  obtain ⟨⟨db₁, _⟩, hstreams, h⟩ := bind_ok h
  cases h
  have hrange : db.lastBatch + 1 < 2 ^ 63 := by
    unfold nextRowid at hid
    split at hid
    · assumption
    · cases hid
  cases nextRowid_ok hid
  obtain ⟨rows, hrows, hrevision⟩ := appendStreams_revisions hstreams
  intro h
  have hrepin := (Keeps.pinned (c := .none) hpinned h).1
  rw [heq]
  constructor
  · exact
      { hrepin with
        batches := h.batches.append rfl
        batchRange := hrange
        cuts := fun s hs => by
          obtain ⟨b, hb, hid⟩ := h.cuts s hs
          exact ⟨b, mem_append_left _ hb, hid⟩
        manifests := hrepin.manifests }
  · exact
      { Later.refl .none db with
        lastBatch := Nat.le_succ _
        batches := ⟨_, rfl, fun b hb => by
          rw [mem_singleton.1 hb]
          exact Nat.lt_succ_self _⟩
        revisions := ⟨rows, hrows, fun r hr => by
          rw [hrevision r hr]
          exact Nat.lt_succ_self _⟩
        snapshots := fun _ hs => .inl hs
        events := fun b hb _ => by
          show db'.events.filter _ = _
          have hnone : events.filter (fun e => e.batchId = b) = [] := by
            refine filter_eq_nil_iff.2 fun e he heq => ?_
            have hnew : b = db.lastBatch + 1 :=
              (of_decide_eq_true heq).symm.trans (hbatch e he)
            rw [hnew] at hb
            exact Nat.not_succ_le_self _ hb
          rw [hevents, filter_append, hnone, append_nil] }

theorem kept_sound : Kept fun db _ db' => Keeps .none db db' where
  refl := fun db => .refl .none db
  trans := fun h h' => h.trans h'
  epoch := fun _ _ => .of_stock rfl rfl
  archived := fun _ => .of_stock rfl rfl
  command := fun h => by
    obtain ⟨rfl, -⟩ := insertCommand_ok h
    exact .of_stock rfl rfl
  batch := fun h => .appendBatch h
  update := fun h => by
    obtain ⟨c, -, -, -, rfl⟩ := updateCommand_ok h
    exact .of_stock rfl rfl
  effect := fun h => by
    obtain ⟨row, rfl, -⟩ := insertEffect_ok h
    exact .of_stock rfl rfl
  transition := fun h => by
    obtain ⟨e, hmade⟩ := applyTransition_ok h
    rw [hmade.frame]
    exact .of_stock rfl rfl

end Commits

-- ==== operations

section Operations

variable {s : EventStore} {db db' : Database} {c : Changes}

omit [Sha256] in
theorem fst_eq_ok {α : Type} {x : Except StoreError (Database × α)}
    (h : Prod.fst <$> x = .ok db') : ∃ a, x = .ok (db', a) := by
  cases x with
  | error e => cases h
  | ok r =>
    cases h
    exact ⟨r.2, rfl⟩

theorem Keeps.advanceCheckpoint {consumer : String} {version : UInt32}
    {batchId : BatchId}
    (h : db.advanceCheckpoint consumer version batchId = .ok db') :
    Keeps c db db' := by
  have h := then_ok (then_ok (then_ok (then_ok h)))
  cases h
  exact .of_stock rfl rfl

theorem Keeps.saveLiveSnapshot {n : NewSnapshot}
    {consumer : String} (hn : c.saved n)
    (h : s.saveLiveSnapshot db epoch n consumer = .ok (db', id)) :
    Keeps c db db' := by
  have h := then_ok (then_ok h)
  obtain ⟨db₁, hcheckpoint, h⟩ := bind_ok h
  obtain ⟨⟨db₂, id'⟩, hinsert, h⟩ := bind_ok h
  obtain ⟨db₃, hholder, h⟩ := bind_ok h
  obtain ⟨db₄, hretain, h⟩ := bind_ok h
  obtain ⟨⟨db₅, removed⟩, hcollect, h⟩ := bind_ok h
  cases h
  have hsaved := (Keeps.advanceCheckpoint hcheckpoint).trans
    (.insertSnapshot hn hinsert)
  have hheld := hsaved.trans (.replaceHolder (not_holds_live _) hholder)
  exact (hheld.trans (.retainSnapshots hretain)).trans
    (.collectPayloads hcollect)

theorem Keeps.deleteSnapshot (h : s.deleteSnapshot db epoch id = .ok db') : Keeps c db db' := by
  have h := then_ok (then_ok (then_ok (then_ok h)))
  exact .dropSnapshot h

variable {m : NewRestoreManifest}

theorem Keeps.saveRestoreCheckpoint {n : NewSnapshot} (hn : c.saved n)
    (h : s.saveRestoreCheckpoint db epoch n m = .ok (db', id)) :
    Keeps c db db' := by
  have h := then_ok (then_ok h)
  obtain ⟨⟨db₁, id'⟩, hinsert, h⟩ := bind_ok h
  obtain ⟨db₂, hsave, h⟩ := bind_ok h
  obtain ⟨db₃, hretain, h⟩ := bind_ok h
  obtain ⟨⟨db₄, removed⟩, hcollect, h⟩ := bind_ok h
  cases h
  have hsaved := (Keeps.insertSnapshot hn hinsert).trans (.saveIn hsave)
  exact (hsaved.trans (.retainSnapshots hretain)).trans
    (.collectPayloads hcollect)

variable {requestDigest : Bytes} {selected : RestoreManifest}

theorem freezeRestoreAlias_ok {sourceKey : String}
        (h : s.freezeRestoreAlias db epoch key sourceKey requestDigest
      = .ok (db', selected)) :
    (db' = db ∧ db.isFrozen key = true ∧ db.readIn key = .ok (some selected))
      ∨ ∃ db₁, db.readIn sourceKey = .ok (some selected)
        ∧ db.saveIn ⟨key, selected.incarnation, selected.runtimeEpoch,
            selected.sequence, selected.snapshot.snapshotId, selected.view,
            db.pinnedBy (manifestHolder sourceKey)⟩ = .ok db₁
        ∧ db' = { db₁ with
            aliasInputs :=
              db₁.aliasInputs ++ [⟨key, sourceKey, requestDigest⟩] } := by
  obtain ⟨used, -, h⟩ := bind_ok h
  have h := then_ok h
  dsimp only at h
  split at h
  · rename_i input hinput
    obtain ⟨-, h⟩ := guard_ok h
    obtain ⟨manifest, hread, h⟩ := bind_ok h
    split at h
    · cases h
    · cases h
      have hfrozen : db.isFrozen key = true := any_eq_true.2
        ⟨input, Table.find_mem hinput, decide_eq_true (Table.find_key hinput)⟩
      exact .inl ⟨rfl, hfrozen, hread⟩
  · obtain ⟨-, h⟩ := guard_ok h
    obtain ⟨found, hread, h⟩ := bind_ok h
    split at h
    · cases h
    · have h := then_ok h
      obtain ⟨db₁, hsave, h⟩ := bind_ok h
      cases h
      exact .inr ⟨db₁, hread, hsave, rfl⟩

theorem saveIn_manifest (h : db.saveIn m = .ok db') :
    db'.manifest m.restoreKey = some (m.row (db.lastPayload + 1)) := by
  obtain ⟨-, s, -, -, -, db₁, view, db₂, hview, -, heq⟩ := saveIn_ok h
  obtain ⟨rfl, -, -⟩ := insertPayload_ok hview
  rw [heq]
  unfold Database.manifest
  rw [Table.find_upsert, if_pos]
  rfl

theorem Keeps.freezeRestoreAlias {sourceKey : String}
    (h : s.freezeRestoreAlias db epoch key sourceKey requestDigest
      = .ok (db', selected)) : Keeps c db db' := by
  rcases freezeRestoreAlias_ok h with ⟨rfl, -, -⟩ | ⟨db₁, -, hsave, rfl⟩
  · exact .refl c _
  · refine (Keeps.saveIn hsave).trans (.freeze ?_)
    rw [saveIn_manifest hsave]
    rfl

theorem Keeps.rebaseRestoreManifest {stream : StreamId} {target : SnapshotId} {moved : Bool}
    (h : s.rebaseRestoreManifest db epoch key stream target
      = .ok (db', moved)) : Keeps c db db' := by
  have h := then_ok h
  dsimp only at h
  split at h
  · cases h
    exact .refl c _
  · split at h
    · cases h
      exact .refl c _
    · rename_i hfrozen
      obtain ⟨old, hold, h⟩ := bind_ok h
      obtain ⟨new, hnew, h⟩ := bind_ok h
      split at h
      · cases h
        exact .refl c _
      · obtain ⟨_, hcursor, h⟩ := bind_ok h
        have h := then_ok (then_ok h)
        obtain ⟨db₁, hmove, h⟩ := bind_ok h
        cases h
        exact .moveManifest (rebaseRow_mem hold) (rebaseRow_mem hnew)
          (requireCursor_ok hcursor)
          (Bool.eq_false_iff.2 fun hf => hfrozen (.inl hf)) hmove

theorem Keeps.deleteRestoreManifest {incarnation : Nat} {removed : Bool}
    (hkey : removed = true → c.deleted key)
    (h : s.deleteRestoreManifest db epoch key incarnation
      = .ok (db', removed)) : Keeps c db db' := by
  have h := then_ok h
  obtain ⟨incarnation', -, h⟩ := bind_ok h
  dsimp only at h
  split at h
  · rename_i hany
    cases h
    exact .deleteManifest (hkey rfl) hany
  · cases h
    exact .refl c _

theorem importBatch_ok {r : CommitRequest} {journalId : String} {limit : Nat}
    {batch : StoredBatch}
    (h : db.importBatch r journalId limit = .ok (db', batch)) :
    Keeps .none db db' := by
  have h := then_ok h
  obtain ⟨⟨db₁, cut, bytes⟩, hwrite, h⟩ := bind_ok h
  dsimp only at h
  split at h
  · cases h
  · obtain ⟨stored, -, h⟩ := bind_ok h
    cases h
    exact kept_sound.writeAll hwrite

theorem Keeps.of_none (h : Keeps .none db db') : Keeps c db db' := by
  intro hdb
  obtain ⟨hdb', hlater⟩ := h hdb
  exact ⟨hdb', hlater.of_none⟩

theorem Keeps.commitWithRestoreCheckpoint {r : CommitRequest}
    {prepare : Prepare} {outcome : CommitOutcome}
    (hsaved : ∀ n, (Act.importCommit r prepare).snapshot s db = some n →
      c.saved n)
    (h : s.commitWithRestoreCheckpoint db r prepare = .ok (db', outcome)) :
    Keeps c db db' := by
  have h := then_ok h
  obtain ⟨known, -, h⟩ := bind_ok h
  dsimp only at h
  split at h
  · cases h
    exact .refl c _
  · obtain ⟨⟨db₁, batch⟩, himport, h⟩ := bind_ok h
    obtain ⟨⟨n, m⟩, hprepare, h⟩ := bind_ok h
    have h := then_ok h
    obtain ⟨-, h⟩ := guard_ok h
    obtain ⟨⟨db₂, id⟩, hinsert, h⟩ := bind_ok h
    obtain ⟨db₃, hsave, h⟩ := bind_ok h
    obtain ⟨db₄, hretain, h⟩ := bind_ok h
    cases h
    have hn : c.saved n := hsaved n (by
      show (match db.importBatch r s.journalId s.maxPendingEffects with
        | .error _ => none
        | .ok (_, batch) => _) = _
      rw [himport]
      dsimp only
      rw [hprepare])
    have hcommit := (importBatch_ok himport).of_none.trans
      (Keeps.insertSnapshot (c := c) hn hinsert)
    exact (hcommit.trans (.saveIn hsave)).trans (.retainSnapshots hretain)

theorem Keeps.maintain {op : Maintenance} (h : s.maintain db op = .ok db') :
    Keeps ((Act.maintain op).changes s db) db db' := by
  cases op with
  | putPayload epoch bytes =>
    obtain ⟨id, h⟩ := fst_eq_ok h
    have h := then_ok h
    exact .insertPayload h
  | gcPayloads epoch =>
    obtain ⟨removed, h⟩ := fst_eq_ok h
    have h := then_ok h
    exact .collectPayloads h
  | saveSnapshot epoch snapshot =>
    obtain ⟨id, h⟩ := fst_eq_ok h
    have h := then_ok h
    exact .insertSnapshot rfl h
  | saveLiveSnapshot epoch snapshot consumer =>
    obtain ⟨id, h⟩ := fst_eq_ok h
    exact .saveLiveSnapshot rfl h
  | deleteSnapshot epoch id => exact .deleteSnapshot h
  | compactHistory epoch version =>
    obtain ⟨compaction, h⟩ := fst_eq_ok h
    have h := then_ok h
    exact .compactHistory h
  | saveRestoreManifest epoch m =>
    have h := then_ok h
    exact .saveIn h
  | saveRestoreCheckpoint epoch snapshot m =>
    obtain ⟨id, h⟩ := fst_eq_ok h
    exact .saveRestoreCheckpoint rfl h
  | freezeRestoreAlias epoch key sourceKey requestDigest =>
    obtain ⟨selected, h⟩ := fst_eq_ok h
    exact .freezeRestoreAlias h
  | rebaseRestoreManifest epoch key stream target =>
    obtain ⟨moved, h⟩ := fst_eq_ok h
    exact .rebaseRestoreManifest h
  | deleteRestoreManifest epoch key incarnation =>
    obtain ⟨removed, h⟩ := fst_eq_ok h
    refine .deleteRestoreManifest (fun hremoved => ?_) h
    show Act.deleted s db _ = some key
    unfold Act.deleted
    dsimp only
    rw [h, hremoved]

end Operations

-- ==== acts

/-- The relation of the commits. -/
abbrev SoundlyLeads (db : Database) (_ : List EffectTransition)
    (db' : Database) : Prop :=
  Keeps .none db db'

theorem Store.act_keeps (s : EventStore) (st : Store) (a : Act)
    (hstaged : st.journal.Staged SoundlyLeads) :
    Keeps (a.changes s st.journal.db) st.journal.db
        (st.act s a).journal.db ∧ (st.act s a).journal.Staged SoundlyLeads := by
  have hself : Keeps (a.changes s st.journal.db) st.journal.db st.journal.db
      ∧ st.journal.Staged SoundlyLeads := ⟨.refl _ _, hstaged⟩
  cases a with
  | call call =>
    obtain ⟨⟨ts, -, hkeeps⟩, hstaged'⟩ := kept_sound.call s call hstaged
    exact ⟨hkeeps.of_none, hstaged'⟩
  | importCommit r prepare =>
    unfold Store.act
    cases hgroup : st.journal.group with
    | some g => exact hself
    | none =>
      dsimp only
      split
      · rename_i db outcome hok
        refine ⟨.commitWithRestoreCheckpoint (fun _ hn => hn) hok, ?_⟩
        intro g hg
        cases hgroup.symm.trans hg
      · exact hself
  | maintain op =>
    unfold Store.act
    cases hgroup : st.journal.group with
    | some g => exact hself
    | none =>
      dsimp only
      split
      · rename_i db hok
        refine ⟨.maintain hok, ?_⟩
        intro g hg
        cases hgroup.symm.trans hg
      · exact hself

/-- A store whose tables are sound, also as a group sees them. -/
structure Store.Sound (st : Store) : Prop where
  tables : st.journal.db.Sound
  staged : st.journal.Staged SoundlyLeads

theorem Store.Sound.empty : Store.empty.Sound where
  tables := .empty
  staged := fun _ hg => nomatch hg

theorem Store.Sound.act {st : Store} (h : st.Sound) (s : EventStore)
    (a : Act) : (st.act s a).Sound
      ∧ Later (a.changes s st.journal.db) st.journal.db
        (st.act s a).journal.db := by
  obtain ⟨hkeeps, hstaged⟩ := st.act_keeps s a h.staged
  obtain ⟨htables, hlater⟩ := hkeeps h.tables
  exact ⟨⟨htables, hstaged⟩, hlater⟩

variable {allowed : EventStore → Store → Act → Prop}

theorem Store.Sound.run
    {st st' : Store} (h : st.Sound) (hrun : st.Run allowed st') :
    st'.Sound := by
  induction hrun with
  | refl => exact h
  | tail _ hstep ih =>
    obtain ⟨s, a, -, rfl⟩ := hstep
    exact (ih.act s a).1

/-- The store after acts. -/
def Store.play (s : EventStore) (st : Store) (acts : List Act) : Store :=
  acts.foldl (Store.act s) st

/-- Each act passes a check at the store that it is done on. -/
def Store.passes (check : EventStore → Store → Act → Bool) (s : EventStore)
    (st : Store) : List Act → Bool
  | [] => true
  | a :: rest => check s st a && (st.act s a).passes check s rest

theorem Store.run_play {check : EventStore → Store → Act → Bool}
    (hcheck : ∀ s st a, check s st a = true → allowed s st a)
    {s : EventStore} {st : Store} {acts : List Act}
    (h : st.passes check s acts = true) : st.Run allowed (st.play s acts) := by
  induction acts generalizing st with
  | nil => exact .refl
  | cons a rest ih =>
    obtain ⟨ha, hrest⟩ := Bool.and_eq_true_iff.1 h
    exact .head ⟨s, a, hcheck s st a ha, rfl⟩ (ih hrest)

theorem Store.act_history (s : EventStore) (st : Store) (a : Act) :
    (st.act s a).history = st.history
      ++ ((st.act s a).journal.db.batches.drop st.journal.db.batches.length).map
        (st.act s a).journal.db.stored := by
  have hself : st.history = st.history
      ++ (st.journal.db.batches.drop st.journal.db.batches.length).map
        st.journal.db.stored := by
    rw [drop_length, map_nil, append_nil]
  unfold Store.act
  split
  · rfl
  · split
    · rfl
    · exact hself
  · split
    · rfl
    · exact hself
  · exact hself

end Tasty.Journal
