/-
What all calls keep: a relation between the tables before and after that
each write of a request satisfies holds along every run, of the committed
tables and of what a group sees.
-/
import Tasty.Journal.Group
import Tasty.Lib.Except

namespace Tasty.Journal

open List

variable {db db' : Database} {r : CommitRequest} {g : CommitGroup} {j : State}

/-- A relation of tables, and of the transitions of effects that lead from
one to the other, that each write keeps. -/
structure Kept
    (R : Database → List EffectTransition → Database → Prop) : Prop where
  refl : ∀ db, R db [] db
  trans : ∀ {db db' db'' ts ts'}, R db ts db' → R db' ts' db'' →
    R db (ts ++ ts') db''
  epoch : ∀ db epoch, R db [] { db with writerEpoch := epoch }
  archived : ∀ db, R db [] { db with archived := true }
  command : ∀ {db db' c}, db.insertCommand c = .ok db' → R db [] db'
  batch : ∀ {db db' appends epoch commandId cut},
    db.appendBatch appends epoch commandId = .ok (db', cut) → R db [] db'
  update : ∀ {db db' u}, db.updateCommand u = .ok db' → R db [] db'
  effect : ∀ {db db' e cause commandId},
    db.insertEffect e cause commandId = .ok db' → R db [] db'
  transition : ∀ {db db' t journalId epoch},
    db.applyTransition t journalId epoch = .ok db' → R db [t] db'

variable {journalId : String}

namespace Kept

variable {R : Database → List EffectTransition → Database → Prop}
  (h : Kept R)

include h

-- ==== a request

theorem insertNew {db db' : Database} {c : Option NewCommand}
    (hok : db.insertNew c = .ok db') : R db [] db' := by
  cases c with
  | none =>
    cases hok
    exact h.refl db
  | some c => exact h.command hok

variable {commandId : Option String} {batch : Option BatchCut}

theorem appendNew
    (hok : db.appendNew r commandId = .ok (db', batch)) : R db [] db' := by
  unfold Database.appendNew at hok
  split at hok
  · cases hok
    exact h.refl db
  · obtain ⟨⟨db₁, cut⟩, hbatch, hok⟩ := bind_ok hok
    cases hok
    exact h.batch hbatch

theorem updateCommands {us : List CommandUpdate} {db db' : Database}
    (hok : db.updateCommands us = .ok db') : R db [] db' := by
  induction us generalizing db with
  | nil =>
    cases hok
    exact h.refl _
  | cons u us ih =>
    obtain ⟨db₁, hu, hok⟩ := bind_ok hok
    exact h.trans (h.update hu) (ih hok)

theorem insertEffects {cause : Option BatchId}
    {es : List NewEffect} {db db' : Database}
    (hok : db.insertEffects cause commandId es = .ok db') : R db [] db' := by
  induction es generalizing db with
  | nil =>
    cases hok
    exact h.refl _
  | cons e es ih =>
    obtain ⟨db₁, he, hok⟩ := bind_ok hok
    exact h.trans (h.effect he) (ih hok)

theorem applyTransitions {epoch : WriterEpoch}
    {ts : List EffectTransition} {db db' : Database}
    (hok : db.applyTransitions journalId epoch ts = .ok db') : R db ts db' := by
  induction ts generalizing db with
  | nil =>
    cases hok
    exact h.refl _
  | cons t ts ih =>
    obtain ⟨db₁, ht, hok⟩ := bind_ok hok
    exact h.trans (h.transition ht) (ih hok)

theorem writeAll {bytes : Nat}
    (hok : db.writeAll r journalId = .ok (db', batch, bytes)) :
    R db r.effectTransitions db' := by
  obtain ⟨n, -, hok⟩ := bind_ok hok
  obtain ⟨db₁, hcommand, hok⟩ := bind_ok hok
  obtain ⟨⟨db₂, batch'⟩, hbatch, hok⟩ := bind_ok hok
  obtain ⟨db₃, hupdates, hok⟩ := bind_ok hok
  obtain ⟨db₄, heffects, hok⟩ := bind_ok hok
  obtain ⟨db₅, htransitions, hok⟩ := bind_ok hok
  cases hok
  have hnew := h.trans (h.insertNew hcommand) (h.appendNew hbatch)
  have hwork := h.trans (h.updateCommands hupdates) (h.insertEffects heffects)
  exact h.trans (h.trans hnew hwork) (h.applyTransitions htransitions)

end Kept

-- ==== one append

/-- A request that is answered with a known command changed nothing, and one
that was written has done so with `write_all`. -/
theorem appendIn_ok {limit bytes : Nat} {outcome : CommitOutcome}
    (h : db.appendIn r journalId limit = .ok (db', outcome, bytes)) :
    (∃ record, db.known r = .ok (some record)
        ∧ outcome = .duplicate record ∧ db' = db)
      ∨ ∃ batch, db.known r = .ok none ∧ outcome = .committed batch
        ∧ db.writeAll r journalId = .ok (db', batch, bytes) := by
  obtain ⟨known, hknown, h⟩ := bind_ok h
  cases known with
  | some record =>
    cases h
    exact .inl ⟨record, hknown, rfl, rfl⟩
  | none =>
    have h := then_ok h
    obtain ⟨⟨db₁, batch, n⟩, hwrite, h⟩ := bind_ok h
    cases h
    exact .inr ⟨batch, hknown, rfl, hwrite⟩

/-- What `append` does to a group: it writes the request; it answers with
the command that is known; or the request fails, and only an error of the
database leaves a trace, which aborts the group. -/
theorem append_cases (g : CommitGroup) (r : CommitRequest) (fails : Bool) :
    (∃ db batch bytes, g.append r fails = (.ok (.committed batch),
          g.wrote db bytes)
        ∧ g.db.writeAll r g.journalId = .ok (db, batch, bytes))
      ∨ (∃ record, g.append r fails = (.ok (.duplicate record), g))
      ∨ ∃ e, g.append r fails = (.error e, g)
          ∨ g.append r fails = (.error e, { g with poisoned := true }) := by
  unfold CommitGroup.append
  split
  · exact .inr (.inr ⟨_, .inl rfl⟩)
  · rename_i hpoisoned
    split
    · exact .inr (.inr ⟨_, .inl rfl⟩)
    · split
      · exact .inr (.inr ⟨_, .inr rfl⟩)
      · split
        · rename_i db batch bytes hok
          rcases appendIn_ok hok with ⟨_, -, hout, -⟩ | ⟨_, -, hout, hwrite⟩
          · cases hout
          · cases hout
            exact .inl ⟨db, batch, bytes, rfl, hwrite⟩
        · exact .inr (.inl ⟨_, rfl⟩)
        · rename_i e _
          by_cases he : e = .sqlite
          · simp only [he, decide_true]
            exact .inr (.inr ⟨_, .inr rfl⟩)
          · simp only [he, decide_false]
            have hg : { g with poisoned := false } = g := by
              rw [← Bool.eq_false_iff.2 hpoisoned]
            rw [hg]
            exact .inr (.inr ⟨_, .inl rfl⟩)

/-- A group that does not finish leaves the committed tables. -/
theorem finish_error {fails : Bool}
    {e : StoreError} (h : g.finish db fails = (.error e, db')) : db' = db := by
  unfold CommitGroup.finish at h
  split at h
  · cases h
    rfl
  · split at h
    · cases h
    · split at h
      · cases h
        rfl
      · cases h

-- ==== runs

/-- The group of a journal sees the committed tables with what its requests
have written; with no request written nothing is staged. -/
def State.Staged (R : Database → List EffectTransition → Database → Prop)
    (j : State) : Prop :=
  ∀ g, j.group = some g →
    R j.db j.staged g.db ∧ (g.logical = 0 → j.staged = [])

/-- From one journal to another the committed tables are related by the
transitions that were applied in between. -/
def State.Leads (R : Database → List EffectTransition → Database → Prop)
    (j j' : State) : Prop :=
  (∃ ts, j'.applied = j.applied ++ ts ∧ R j.db ts j'.db) ∧ j'.Staged R

namespace Kept

variable {R : Database → List EffectTransition → Database → Prop}
  (h : Kept R)

include h

theorem leads_self (hj : j.Staged R) : j.Leads R j :=
  ⟨⟨[], (append_nil _).symm, h.refl _⟩, hj⟩

theorem commit (s : EventStore) (db : Database) (r : CommitRequest)
    (fails : Bool) :
    R db (r.made (s.commit db r fails).1) (s.commit db r fails).2 := by
  unfold EventStore.commit
  split
  · exact h.refl db
  · rename_i g hbegin
    have hbegin := then_ok hbegin
    cases hbegin
    split
    · exact h.refl db
    · rename_i outcome g' happend
      rcases append_cases _ r fails with ⟨db', batch, bytes, heq, hwrite⟩ |
        ⟨record, heq⟩ | ⟨e, heq | heq⟩
      · rw [heq] at happend
        cases happend
        cases fails with
        | true => exact h.refl db
        | false => exact h.writeAll hwrite
      · rw [heq] at happend
        cases happend
        exact h.refl db
      · rw [heq] at happend
        cases happend
      · rw [heq] at happend
        cases happend

theorem append (hj : j.Staged R)
    (hg : j.group = some g) (r : CommitRequest) (fails : Bool) :
    R j.db (j.staged ++ r.made (g.append r fails).1) (g.append r fails).2.db
      ∧ ((g.append r fails).2.logical = 0 →
        j.staged ++ r.made (g.append r fails).1 = []) := by
  obtain ⟨hview, hnone⟩ := hj g hg
  rcases append_cases g r fails with ⟨db', batch, bytes, heq, hwrite⟩ |
    ⟨record, heq⟩ | ⟨e, heq | heq⟩
  · rw [heq]
    refine ⟨h.trans hview (h.writeAll hwrite), fun hlogical => ?_⟩
    cases hlogical
  all_goals
    rw [heq]
    show R j.db (j.staged ++ []) _ ∧ (_ → j.staged ++ [] = [])
    rw [append_nil]
    exact ⟨hview, hnone⟩

theorem finish (hj : j.Staged R) (hg : j.group = some g) {fails : Bool}
    (hok : g.finish j.db fails = (.ok (), db)) : R j.db j.staged db := by
  obtain ⟨hview, hnone⟩ := hj g hg
  unfold CommitGroup.finish at hok
  split at hok
  · cases hok
  · split at hok
    · rename_i hlogical
      cases hok
      rw [hnone hlogical]
      exact h.refl _
    · split at hok
      · cases hok
      · cases hok
        exact hview

omit h in
theorem staged_none (db : Database) (applied staged : List EffectTransition) :
    State.Staged R ⟨db, none, applied, staged⟩ :=
  fun _ hg => nomatch hg

/-- Each call keeps the relation. -/
theorem call (s : EventStore) (c : Call) {j : State} (hj : j.Staged R) :
    j.Leads R (j.call s c) := by
  obtain ⟨db, group, applied, staged⟩ := j
  cases group with
  | none =>
    -- the committed tables change, or a group begins with them
    cases c with
    | acquireWriter =>
      unfold State.call
      dsimp only
      split
      · rename_i epoch db' hok
        refine ⟨⟨[], (append_nil _).symm, ?_⟩, staged_none _ _ _⟩
        unfold Database.registerEpoch at hok
        split at hok
        · cases hok
        · obtain ⟨next, -, hok⟩ := bind_ok hok
          cases hok
          exact h.epoch db epoch
      · exact h.leads_self hj
    | archive epoch =>
      unfold State.call
      dsimp only
      split
      · rename_i db' hok
        refine ⟨⟨[], (append_nil _).symm, ?_⟩, staged_none _ _ _⟩
        have hok := then_ok hok
        cases hok
        exact h.archived db
      · exact h.leads_self hj
    | commit r fails =>
      exact ⟨⟨_, rfl, h.commit s db r fails⟩, staged_none _ _ _⟩
    | beginCommitGroup epoch =>
      unfold State.call
      dsimp only
      split
      · rename_i g hok
        have hok := then_ok hok
        cases hok
        refine ⟨⟨[], (append_nil _).symm, h.refl _⟩, ?_⟩
        intro g' hg'
        cases hg'
        exact ⟨h.refl _, fun _ => rfl⟩
      · exact h.leads_self hj
    | transitionEffect epoch t =>
      unfold State.call
      dsimp only
      split
      · rename_i db' hok
        have hok := then_ok (then_ok hok)
        exact ⟨⟨_, rfl, h.transition hok⟩, staged_none _ _ _⟩
      · exact h.leads_self hj
    | append r fails => exact h.leads_self hj
    | finish fails => exact h.leads_self hj
    | abandon => exact h.leads_self hj
  | some g =>
    cases c with
    | append r fails =>
      refine ⟨⟨[], (append_nil _).symm, h.refl _⟩, ?_⟩
      intro g' hg'
      cases hg'
      exact h.append hj rfl r fails
    | finish fails =>
      unfold State.call
      dsimp only
      split
      · rename_i db' hok
        exact ⟨⟨_, rfl, h.finish hj rfl hok⟩, staged_none _ _ _⟩
      · rename_i e db' hok
        rw [finish_error hok]
        exact ⟨⟨[], (append_nil _).symm, h.refl _⟩, staged_none _ _ _⟩
    | abandon =>
      exact ⟨⟨[], (append_nil _).symm, h.refl _⟩, staged_none _ _ _⟩
    | acquireWriter => exact h.leads_self hj
    | archive epoch => exact h.leads_self hj
    | commit r fails => exact h.leads_self hj
    | beginCommitGroup epoch => exact h.leads_self hj
    | transitionEffect epoch t => exact h.leads_self hj

/-- Every run keeps the relation. -/
theorem run {j' : State} (hrun : j.Run j') (hj : j.Staged R) :
    j.Leads R j' := by
  induction hrun with
  | refl => exact h.leads_self hj
  | tail _ hstep ih =>
    obtain ⟨s, c, rfl⟩ := hstep
    obtain ⟨⟨ts, happlied, hts⟩, hstaged⟩ := ih
    obtain ⟨⟨ts', happlied', hts'⟩, hstaged'⟩ := h.call s c hstaged
    refine ⟨⟨ts ++ ts', ?_, h.trans hts hts'⟩, hstaged'⟩
    rw [happlied', happlied, append_assoc]

/-- What holds of a new journal and is kept holds of every journal. -/
theorem reachable (hj : j.Reachable) :
    R .empty j.applied j.db ∧ j.Staged R := by
  have hempty : State.empty.Staged R := fun g hg => nomatch hg
  obtain ⟨⟨ts, happlied, hts⟩, hstaged⟩ := h.run hj hempty
  rw [happlied]
  exact ⟨hts, hstaged⟩

end Kept

end Tasty.Journal
