/-
Ids over command runs: every workspace, pane, tab and surface was reserved
by one operation, and one that has gone never returns.
-/
import Tasty.Core.Undo

namespace Tasty.Core

variable {m m' m'' : JournalModel} {x : EntityId}

/-- Whatever commands are accepted, undo and the reset of an engine among
them, an id that was in the model and is not any more never returns. -/
theorem gone_never_returns (hm : Reachable m) (hheld : m.holds x = true)
    (hkind : x.kind ≠ .category) (hrun : Runs m m')
    (hgone : m'.holds x = false) (hrun' : Runs m' m'') :
    m''.holds x = false := by
  induction hrun' with
  | refl => exact hgone
  | tail hlast hnext ih =>
    obtain ⟨facts, hstep⟩ := hnext
    refine Bool.eq_false_iff.2 fun hback => ?_
    rcases hstep.applies.holds hback with hbefore | ⟨e, he, hnew⟩
    · rw [ih] at hbefore
      cases hbefore
    · -- a batch introduces only ids that were never in the model
      exact hstep.creates_fresh hm (hrun.trans hlast) hheld hkind he hnew

/-- A workspace is closed and restored, which makes a new surface. -/
theorem gone_never_returns_restored : ∃ m : JournalModel,
    m.holds ⟨.surface, 14⟩ = true ∧ m.holds ⟨.surface, 4⟩ = false := by
  let later := undoRun.drop creationRun.length
  obtain ⟨⟨_, m⟩, hrun, hcheck⟩ := exists_of_check (by decide +kernel :
    (runCommands JournalModel.default creationRun).toOption.any
      (fun r => r.2.holds ⟨.surface, 4⟩
        && (runCommands r.2 (later.take 1)).toOption.any
          (fun r => !r.2.holds ⟨.surface, 4⟩
            && (runCommands r.2 (later.drop 1)).toOption.any
              (fun r => r.2.holds ⟨.surface, 14⟩))) = true)
  obtain ⟨hheld, hcheck⟩ := Bool.and_eq_true_iff.1 hcheck
  obtain ⟨⟨_, m'⟩, hclose, hcheck⟩ := exists_of_check hcheck
  obtain ⟨hgone, hcheck⟩ := Bool.and_eq_true_iff.1 hcheck
  obtain ⟨⟨_, m''⟩, hrestore, hnew⟩ := exists_of_check hcheck
  rw [Bool.not_eq_true'] at hgone
  exact ⟨m'', hnew, gone_never_returns (runCommands_runs hrun) hheld
    (by decide) (runCommands_runs hclose) hgone (runCommands_runs hrestore)⟩

end Tasty.Core
