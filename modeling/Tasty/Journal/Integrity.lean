/-
The integrity of appends over runs: the log and the commands of a journal
are intact, and a request that is rejected, or known, leaves no trace. One
that fails with an error of the database takes its group with it.
-/
import Tasty.Journal.Execution

namespace Tasty.Journal

-- ==== what is kept

/-- The log stays intact. -/
def LogLeads (db : Database) (_ : List EffectTransition)
    (db' : Database) : Prop :=
  db.log.Intact → db'.log.Intact

theorem logLeads_same {db db' : Database} {ts : List EffectTransition}
    (h : db'.log = db.log) : LogLeads db ts db' := by
  intro hlog
  rw [h]
  exact hlog

theorem kept_log : Kept LogLeads where
  refl := fun _ => id
  trans := fun h h' hlog => h' (h hlog)
  epoch := fun _ _ => logLeads_same rfl
  archived := fun _ => logLeads_same rfl
  command := fun h => by
    obtain ⟨rfl, -⟩ := insertCommand_ok h
    exact logLeads_same rfl
  batch := fun h hlog => hlog.appendBatch h
  update := fun h => by
    obtain ⟨c, -, -, -, rfl⟩ := updateCommand_ok h
    exact logLeads_same rfl
  effect := fun h => by
    obtain ⟨row, rfl, -⟩ := insertEffect_ok h
    exact logLeads_same rfl
  transition := fun h => by
    obtain ⟨e, hmade⟩ := applyTransition_ok h
    rw [hmade.frame]
    exact logLeads_same rfl

theorem kept_commands : Kept CommandsLead where
  refl := fun _ => commandsLead_same rfl
  trans := fun h h' hnamed => by
    obtain ⟨hnamed', hlater⟩ := h hnamed
    obtain ⟨hnamed'', hlater'⟩ := h' hnamed'
    refine ⟨hnamed'', fun c hc => ?_⟩
    obtain ⟨c', hc', hfollows⟩ := hlater c hc
    obtain ⟨c'', hc'', hfollows'⟩ := hlater' c' hc'
    exact ⟨c'', hc'', hfollows.trans hfollows'⟩
  epoch := fun _ _ => commandsLead_same rfl
  archived := fun _ => commandsLead_same rfl
  command := commandsLead_insert
  batch := fun h => by
    obtain ⟨-, -, -, heq⟩ := appendBatch_ok h
    rw [heq]
    exact commandsLead_same rfl
  update := commandsLead_update
  effect := fun h => by
    obtain ⟨row, rfl, -⟩ := insertEffect_ok h
    exact commandsLead_same rfl
  transition := fun h => by
    obtain ⟨e, hmade⟩ := applyTransition_ok h
    rw [hmade.frame]
    exact commandsLead_same rfl

theorem empty_named : Named Database.empty.commands :=
  ⟨List.nodup_nil, fun _ hc => nomatch hc⟩

variable {j : State}

theorem State.Reachable.named (h : j.Reachable) :
    Named j.db.commands ∧ ∀ g, j.group = some g →
      Named g.db.commands
        ∧ ∀ c ∈ j.db.commands, ∃ c' ∈ g.db.commands, c.Follows c' := by
  obtain ⟨hlead, hstaged⟩ := kept_commands.reachable h
  have hnamed := (hlead empty_named).1
  exact ⟨hnamed, fun g hg => (hstaged g hg).1 hnamed⟩

theorem State.Reachable.log (h : j.Reachable) :
    j.db.log.Intact ∧ ∀ g, j.group = some g → g.db.log.Intact := by
  obtain ⟨hlead, hstaged⟩ := kept_log.reachable h
  have hlog := hlead Log.empty_intact
  exact ⟨hlog, fun g hg => (hstaged g hg).1 hlog⟩

theorem State.Run.commands {j' : State} (hj : j.Reachable) (hrun : j.Run j') :
    ∀ c ∈ j.db.commands, ∃ c' ∈ j'.db.commands, c.Follows c' := by
  obtain ⟨⟨ts, -, hlead⟩, -⟩ :=
    kept_commands.run hrun (kept_commands.reachable hj).2
  exact (hlead hj.named.1).2

-- ==== requests that fail

/-- A request that is known or rejected leaves its group as it was, an error
of the database aborts it. -/
theorem append_traceless (g : CommitGroup) (r : CommitRequest) (fails : Bool) :
    (∀ record, (g.append r fails).1 = .ok (.duplicate record) →
        (g.append r fails).2 = g)
      ∧ (∀ e, (g.append r fails).1 = .error e → e ≠ .sqlite →
        (g.append r fails).2 = g)
      ∧ ((g.append r fails).1 = .error .sqlite →
        (g.append r fails).2 = { g with poisoned := true }) := by
  unfold CommitGroup.append
  split
  · exact ⟨fun _ h => (nomatch h), fun _ _ _ => rfl, fun h => (nomatch h)⟩
  · rename_i hpoisoned
    split
    · exact ⟨fun _ h => (nomatch h), fun _ _ _ => rfl, fun h => (nomatch h)⟩
    · split
      · refine ⟨fun _ h => (nomatch h), fun e h hne => ?_, fun _ => rfl⟩
        cases h
        exact absurd rfl hne
      · split
        · exact ⟨fun _ h => (nomatch h), fun _ h => (nomatch h),
            fun h => (nomatch h)⟩
        · exact ⟨fun _ _ => rfl, fun _ h => (nomatch h), fun h => (nomatch h)⟩
        · refine ⟨fun _ h => (nomatch h), fun e' h hne => ?_, fun h => ?_⟩
          · cases h
            have hg : { g with poisoned := false } = g := by
              rw [← Bool.eq_false_iff.2 hpoisoned]
            simp only [hne, decide_false]
            exact hg
          · cases h
            simp

theorem aborted_traceless {g : CommitGroup} (h : g.poisoned = true) :
    (∀ r fails, g.append r fails = (.error .groupAborted, g))
      ∧ ∀ db fails, g.finish db fails = (.error .groupAborted, db) := by
  refine ⟨fun r fails => ?_, fun db fails => ?_⟩
  · unfold CommitGroup.append
    rw [if_pos h]
  · unfold CommitGroup.finish
    rw [if_pos h]

variable (s : EventStore)

/-- A commit that does not write leaves the tables. -/
theorem commit_traceless (db : Database) (r : CommitRequest) (fails : Bool)
    (h : ∀ batch, (s.commit db r fails).1 ≠ .ok (.committed batch)) :
    (s.commit db r fails).2 = db := by
  unfold EventStore.commit at h ⊢
  cases hbegin : s.beginCommitGroup db r.writerEpoch with
  | error e => rfl
  | ok g =>
    rw [hbegin] at h
    have hbegin := then_ok hbegin
    cases hbegin
    dsimp only at h ⊢
    rcases append_cases _ r fails with ⟨db', batch, bytes, heq, -⟩ |
      ⟨record, heq⟩ | ⟨e, heq | heq⟩
    · rw [heq] at h ⊢
      cases fails with
      | true => rfl
      | false => exact absurd rfl (h batch)
    · rw [heq]
      rfl
    · rw [heq]
    · rw [heq]

theorem commit_known {db : Database} (h : Named db.commands)
    {r : CommitRequest} (hwriter : s.writeTx db r.writerEpoch = .ok ())
    {c c' : NewCommand} {key : CommandKey} (hc : c ∈ db.commands)
    (hkey : c.key = some key) (hr : r.command = some c')
    (hkey' : c'.key = some key) :
    s.commit db r false = if c.requestDigest = c'.requestDigest
      then (.ok (.duplicate (db.record c)), db)
      else (.error (.keyConflict key.callerScope key.idempotencyKey), db) := by
  unfold EventStore.commit EventStore.beginCommitGroup
  rw [hwriter]
  dsimp only [bind, Except.bind]
  rw [append_known _ rfl rfl h hc hkey hr hkey']
  by_cases hd : c.requestDigest = c'.requestDigest
  · rw [if_pos hd, if_pos hd]
    rfl
  · rw [if_neg hd, if_neg hd]

/-- What a request is answered whose key one of the commands has: that
command, when it is the same request, and an error otherwise. -/
def CommandAnswered (s : EventStore) (j : State) (c : NewCommand) : Prop :=
  ∀ (key : CommandKey) (r : CommitRequest) (c' : NewCommand),
    c.key = some key → r.command = some c' → c'.key = some key →
    (j.group = none → s.writeTx j.db r.writerEpoch = .ok () →
        ∃ c₁ ∈ j.db.commands, c.Follows c₁
          ∧ s.commit j.db r false
            = if c.requestDigest = c'.requestDigest
                then (.ok (.duplicate (j.db.record c₁)), j.db)
                else (.error (.keyConflict key.callerScope
                  key.idempotencyKey), j.db))
      ∧ ∀ g, j.group = some g → g.poisoned = false →
        r.writerEpoch = g.epoch →
        ∃ c₁ ∈ g.db.commands, c.Follows c₁
          ∧ g.append r false
            = if c.requestDigest = c'.requestDigest
                then (.ok (.duplicate (g.db.record c₁)), g)
                else (.error (.keyConflict key.callerScope
                  key.idempotencyKey), g)

theorem command_answered {j' : State} (hj : j.Reachable) (hrun : j.Run j')
    {c : NewCommand} (hc : c ∈ j.db.commands) : CommandAnswered s j' c := by
  obtain ⟨hnamed, hviews⟩ := State.Reachable.named (hj.trans hrun)
  obtain ⟨c₁, hc₁, hfollows⟩ := hrun.commands hj c hc
  intro key r c' hkey hr hkey'
  refine ⟨fun _ hwriter => ⟨c₁, hc₁, hfollows, ?_⟩,
    fun g hg hpoisoned hepoch => ?_⟩
  · rw [← hfollows.requestDigest]
    exact commit_known s hnamed hwriter hc₁ (hfollows.key.trans hkey) hr hkey'
  · obtain ⟨hnamed', hlater⟩ := hviews g hg
    obtain ⟨c₂, hc₂, hfollows'⟩ := hlater c₁ hc₁
    have hboth := hfollows.trans hfollows'
    refine ⟨c₂, hc₂, hboth, ?_⟩
    rw [← hboth.requestDigest]
    exact append_known g hpoisoned hepoch hnamed' hc₂ (hboth.key.trans hkey)
      hr hkey'

/-- The integrity of appends. In every journal, and in what its group sees,
the log is intact. A request that is known leaves no trace, nor does one that
fails otherwise than by an error of the database; such an error aborts the
group, of which then nothing is left. From a journal to every later one, each
command is there, its key names no other one and answers every request with
it, and its status does not go back, nor changes when it is final. -/
theorem append_integrity {j j' : State} (hj : j.Reachable)
    (hrun : j.Run j') :
    j.db.log.Intact ∧ (∀ g, j.group = some g → g.db.log.Intact)
      ∧ (∀ (g : CommitGroup) (r : CommitRequest) (fails : Bool),
        (∀ record, (g.append r fails).1 = .ok (.duplicate record) →
            (g.append r fails).2 = g)
          ∧ (∀ e, (g.append r fails).1 = .error e → e ≠ .sqlite →
            (g.append r fails).2 = g)
          ∧ ((g.append r fails).1 = .error .sqlite →
            (g.append r fails).2 = { g with poisoned := true }))
      ∧ (∀ g : CommitGroup, g.poisoned = true →
        (∀ r fails, g.append r fails = (.error .groupAborted, g))
          ∧ ∀ db fails, g.finish db fails = (.error .groupAborted, db))
      ∧ (∀ (s : EventStore) (db : Database) (r : CommitRequest)
          (fails : Bool),
        (∀ batch, (s.commit db r fails).1 ≠ .ok (.committed batch)) →
          (s.commit db r fails).2 = db)
      ∧ Named j.db.commands
      ∧ (∀ c ∈ j.db.commands, ∃ c' ∈ j'.db.commands, c.Follows c')
      ∧ (∀ c ∈ j.db.commands, ∀ c' ∈ j'.db.commands,
        c.key.isSome = true → c'.key = c.key → c.Follows c')
      ∧ ∀ (s : EventStore), ∀ c ∈ j.db.commands, CommandAnswered s j' c := by
  obtain ⟨hlog, hviews⟩ := hj.log
  refine ⟨hlog, hviews, append_traceless, fun g => aborted_traceless,
    commit_traceless, hj.named.1, hrun.commands hj, ?_,
    fun s c hc => command_answered s hj hrun hc⟩
  intro c hc c' hc' hsome hkey
  obtain ⟨c₁, hc₁, hfollows⟩ := hrun.commands hj c hc
  have hnamed := (State.Reachable.named (hj.trans hrun)).1
  have heq : c' = c₁ := hnamed.keys c₁ hc₁ c' hc'
    (by rw [hfollows.key]; exact hsome) (hkey.trans hfollows.key.symm)
  rw [heq]
  exact hfollows

section Samples

/-- A request with a command and an event. -/
def sampleRequest (commandId : String) (key : Option CommandKey)
    (eventId : String) : CommitRequest :=
  { CommitRequest.new 1 with
    command := some ⟨commandId, key, [1], [], .completed, none⟩
    appends := [⟨"stream", .any,
      [⟨eventId, ⟨"event", 1, []⟩, 0, none, "a", "test", []⟩]⟩] }

/-- The first request of a group. -/
def groupCalls : List Call :=
  [.acquireWriter, .beginCommitGroup 1,
    .append (sampleRequest "c1" (some ⟨"local", "k"⟩) "e1") false]

theorem append_integrity_committed :
    ∃ j j' : State, j.db.commands.length = 1
      ∧ j'.group.isSome = true ∧ j.db.log.Intact
      ∧ CommandAnswered sampleStore j'
        ⟨"c1", some ⟨"local", "k"⟩, [1], [], .completed, none⟩ := by
  let j := State.empty.play sampleStore (groupCalls ++ [.finish false])
  let j' := j.play sampleStore [.beginCommitGroup 1]
  have hintegrity := append_integrity
    (State.run_play sampleStore .empty (groupCalls ++ [.finish false]))
    (State.run_play sampleStore j [.beginCommitGroup 1])
  refine ⟨j, j', by decide, by decide, hintegrity.1, ?_⟩
  exact hintegrity.2.2.2.2.2.2.2.2 sampleStore _ (by decide)

/-- A request that fails with an error of the database takes those before it
with it: they are not committed, as they would be without it. -/
theorem failed_request_takes_group : ¬ ∀ (j : State) (s : EventStore)
    (g : CommitGroup) (r : CommitRequest) (e : StoreError), j.Reachable →
      j.group = some g → (g.append r false).1 = .error e →
      ((j.call s (.append r false)).call s (.finish false)).db
        = (j.call s (.finish false)).db := by
  intro h
  let r := sampleRequest "c1" none "e2"
  have heq := h (State.empty.play sampleStore groupCalls) sampleStore _ r
    .sqlite (State.run_play _ _ _) rfl rfl
  exact absurd (congrArg (fun db => db.commands.length) heq) (by decide)

end Samples

end Tasty.Journal
