/-
What a transition of an effect writes: the effect, and what the transition
records of an attempt. It ends the current attempt, reconciles it, begins the
next one under a claim, or concerns no attempt.
-/
import Tasty.Journal.Runs

namespace Tasty.Journal

variable {db db' : Database} {e : EffectRow} {epoch : WriterEpoch}
  {t : EffectTransition}

-- ==== claims

/-- A claim that is taken is held by the effect, and nothing that was held
is lost. -/
structure Takes {κ : Type} (claim : κ) (effectId : String)
    (held held' : List (Held κ)) : Prop where
  mem : ⟨claim, effectId⟩ ∈ held'
  kept : ∀ h ∈ held, h ∈ held'
  unique : Table.Unique Held.claim held → Table.Unique Held.claim held'

theorem takeHeld_ok {κ : Type} [DecidableEq κ] {claim : κ} {effectId : String}
    {held held' : List (Held κ)}
    (h : takeHeld claim effectId held = .ok held') :
    Takes claim effectId held held' := by
  unfold takeHeld at h
  split at h
  · rename_i found hfound
    obtain ⟨heffect, h⟩ := guard_not_ok h
    cases h
    refine ⟨?_, fun _ hh => hh, id⟩
    have hmem := Table.find_mem hfound
    have hclaim : found.claim = claim := Table.find_key hfound
    rw [← hclaim, ← heffect]
    exact hmem
  · rename_i hnone
    cases h
    refine ⟨List.mem_append_right _ (List.mem_singleton_self _),
      fun _ hh => List.mem_append_left _ hh, fun hunique => ?_⟩
    exact hunique.append
      (Table.clashes_eq_false.2 fun r hr => Table.find_eq_none.1 hnone r hr)

/-- The tables of the effects. -/
structure Work where
  effects : List EffectRow
  attempts : List AttemptRow
  activationClaims : List (Held ActivationKey)
  obligationClaims : List (Held ObligationClaim)

def Database.work (db : Database) : Work :=
  ⟨db.effects, db.attempts, db.activationClaims, db.obligationClaims⟩

/-- The effect holds the claim. -/
def Work.Holds (w : Work) (effectId : String) : AttemptClaim → Prop
  | .activation key => ⟨key, effectId⟩ ∈ w.activationClaims
  | .obligation claim => ⟨claim, effectId⟩ ∈ w.obligationClaims

/-- The claims are held by one effect each, and none is lost. -/
structure Claimed (db db' : Database) (claim : AttemptClaim)
    (effectId : String) : Prop where
  frame : db' = { db with
    activationClaims := db'.activationClaims
    obligationClaims := db'.obligationClaims }
  activations : ∀ h ∈ db.activationClaims, h ∈ db'.activationClaims
  obligations : ∀ h ∈ db.obligationClaims, h ∈ db'.obligationClaims
  activationsUnique : Table.Unique Held.claim db.activationClaims →
    Table.Unique Held.claim db'.activationClaims
  obligationsUnique : Table.Unique Held.claim db.obligationClaims →
    Table.Unique Held.claim db'.obligationClaims
  holds : db'.work.Holds effectId claim

theorem takeFor_ok {claim : EffectClaim} {key : AttemptClaim}
    (h : db.takeFor claim e epoch = .ok (db', key)) :
    Claimed db db' key e.effectId := by
  unfold Database.takeFor at h
  split at h
  · obtain ⟨-, h⟩ := guard_not_ok h
    obtain ⟨runtimeEpoch, -, h⟩ := bind_ok h
    obtain ⟨generation, -, h⟩ := bind_ok h
    dsimp only at h
    split at h
    · cases h
    · rename_i held hheld
      cases h
      obtain ⟨hmem, hkept, hunique⟩ := takeHeld_ok hheld
      exact ⟨rfl, hkept, fun _ hh => hh, hunique, id, hmem⟩
  · obtain ⟨-, h⟩ := guard_not_ok h
    have h := then_ok (then_ok h)
    split at h
    · cases h
    · rename_i held hheld
      cases h
      obtain ⟨hmem, hkept, hunique⟩ := takeHeld_ok hheld
      exact ⟨rfl, fun _ hh => hh, hkept, id, hunique, hmem⟩
  · cases h

-- ==== transitions

/-- The result that a transition reports of an attempt. -/
def EffectTransition.report (t : EffectTransition) (r : AttemptRow) :
    AttemptRow :=
  { r with outcome := some t.target, result := t.result }

/-- What the reconciliation of an attempt records. -/
def EffectTransition.reconcile (t : EffectTransition) (r : AttemptRow) :
    AttemptRow :=
  { r with reconciledOutcome := some t.target, reconciledResult := t.result }

/-- The row of an attempt that begins. -/
def AttemptRow.begun (effectId : String) (attempt : Nat) (journalId : String)
    (claim : AttemptClaim) (epoch : WriterEpoch) : AttemptRow :=
  ⟨effectId, attempt, journalId, claim, epoch, none, none, none, none⟩

/-- How a transition changes the attempts of its effect, and the number of
the current one. -/
inductive EffectTransition.Does (t : EffectTransition) (e : EffectRow)
    (db db' : Database) : Nat → Prop
  | report (hsource : t.source = .running)
      (hattempt : t.attempt = some e.attempt)
      (heq : db' = { db with
        attempts := Table.update (AttemptRow.isOf t.effectId e.attempt)
          t.report db.attempts }) : Does t e db db' e.attempt
  | reconcile (hsource : t.source = .uncertain)
      (heq : db' = { db with
        attempts := Table.update (AttemptRow.isOf t.effectId e.attempt)
          t.reconcile db.attempts }) : Does t e db db' e.attempt
  | begin (claim : AttemptClaim) (journalId : String) (epoch : WriterEpoch)
      (htarget : t.target = .running) (db₁ : Database)
      (hclaimed : Claimed db db₁ claim t.effectId)
      (heq : db' = { db₁ with
        attempts := db₁.attempts
          ++ [AttemptRow.begun t.effectId (e.attempt + 1) journalId claim
            epoch] }) : Does t e db db' (e.attempt + 1)
  | none (hsource : t.source ≠ .running) (hsource' : t.source ≠ .uncertain)
      (htarget : t.target ≠ .running) (heq : db' = db) :
      Does t e db db' e.attempt

/-- A transition that is made: of the state and the generation of its
effect, allowed, and with evidence where that is required. -/
structure EffectTransition.Made (t : EffectTransition) (e : EffectRow)
    (db db' : Database) : Prop where
  found : Table.find EffectRow.effectId t.effectId db.effects = some e
  source : e.state = t.source
  generation : e.resourceGeneration = t.resourceGeneration
  allowed : t.source.canTransitionTo t.target = true
  evidence : t.source = .uncertain → t.target = .cancelled → t.result ≠ none
  writes : ∃ attempt db₁, t.Does e db db₁ attempt
    ∧ db' = { db₁ with
      effects := Table.update (fun e => e.effectId = t.effectId)
        (t.apply attempt) db.effects }

theorem validate_ok {state : EffectState}
    {generation : Nat} (h : t.validate state generation = .ok ()) :
    state = t.source ∧ generation = t.resourceGeneration
      ∧ t.source.canTransitionTo t.target = true
      ∧ (t.source = .uncertain → t.target = .cancelled → t.result ≠ none) := by
  obtain ⟨hstate, h⟩ := guard_ok h
  obtain ⟨hgeneration, h⟩ := guard_ok h
  obtain ⟨hallowed, h⟩ := guard_ok h
  obtain ⟨hevidence, -⟩ := guard_ok h
  refine ⟨not_not.1 hstate, not_not.1 hgeneration, ?_, ?_⟩
  · simpa using hallowed
  · intro hsource htarget hresult
    exact hevidence ⟨hsource, htarget, hresult⟩

theorem openAttempt_ok {attempt : Nat} {journalId : String}
    (hid : e.effectId = t.effectId)
    (h : db.openAttempt t e attempt journalId epoch = .ok db') :
    ∃ claim db₁, Claimed db db₁ claim t.effectId
      ∧ db' = { db₁ with
        attempts := db₁.attempts
          ++ [AttemptRow.begun t.effectId attempt journalId claim epoch] } := by
  unfold Database.openAttempt at h
  split at h
  · cases h
  · rename_i claim _
    obtain ⟨⟨db₁, key⟩, htake, h⟩ := bind_ok h
    obtain ⟨epoch', hepoch, h⟩ := bind_ok h
    obtain ⟨-, hepoch⟩ := guard_not_ok hepoch
    cases hepoch
    have h := then_ok h
    cases h
    have hclaimed := takeFor_ok htake
    rw [hid] at hclaimed
    exact ⟨key, db₁, hclaimed, rfl⟩

theorem applyTransition_ok {journalId : String}
    (h : db.applyTransition t journalId epoch = .ok db') :
    ∃ e, t.Made e db db' := by
  unfold Database.applyTransition at h
  split at h
  · cases h
  · rename_i e hfound
    have hid : e.effectId = t.effectId := Table.find_key hfound
    obtain ⟨⟨⟩, hvalid, h⟩ := bind_ok h
    obtain ⟨hsource, hgeneration, hallowed, hevidence⟩ := validate_ok hvalid
    obtain ⟨db₁, hend, h⟩ := bind_ok h
    obtain ⟨⟨db₂, attempt⟩, hbegin, h⟩ := bind_ok h
    cases h
    refine ⟨e, hfound, hsource, hgeneration, hallowed, hevidence, attempt, ?_⟩
    unfold Database.endAttempt Database.closeAttempt at hend
    unfold Database.beginAttempt at hbegin
    by_cases hrunning : t.source = .running
    · -- the current attempt reports
      rw [if_pos hrunning] at hend
      obtain ⟨hattempt, hend⟩ := guard_ok hend
      cases hend
      have htarget : t.target ≠ .running := by
        intro htarget
        rw [hrunning, htarget] at hallowed
        cases hallowed
      rw [if_neg htarget] at hbegin
      cases hbegin
      exact ⟨_, .report hrunning (not_not.1 hattempt) rfl, rfl⟩
    · rw [if_neg hrunning] at hend
      by_cases huncertain : t.source = .uncertain
      · -- it is reconciled
        rw [if_pos huncertain] at hend
        cases hend
        have htarget : t.target ≠ .running := by
          intro htarget
          rw [huncertain, htarget] at hallowed
          cases hallowed
        rw [if_neg htarget] at hbegin
        cases hbegin
        exact ⟨_, .reconcile huncertain rfl, rfl⟩
      · rw [if_neg huncertain] at hend
        cases hend
        by_cases htarget : t.target = .running
        · -- the next attempt begins
          rw [if_pos htarget] at hbegin
          split at hbegin
          · cases hbegin
          · rename_i next hnext
            unfold checkedNext32 at hnext
            split at hnext
            · cases hnext
              obtain ⟨db₃, hopen, hbegin⟩ := bind_ok hbegin
              cases hbegin
              obtain ⟨claim, db₄, hclaimed, rfl⟩ := openAttempt_ok hid hopen
              have heffects : db₄.effects = db.effects := by
                rw [hclaimed.frame]
              refine ⟨_, .begin claim journalId epoch htarget db₄ hclaimed rfl,
                ?_⟩
              dsimp only
              rw [heffects]
            · cases hnext
        · rw [if_neg htarget] at hbegin
          cases hbegin
          exact ⟨_, .none hrunning huncertain htarget rfl, rfl⟩

/-- The tables that transitions leave as they are. -/
theorem EffectTransition.Does.frame {t : EffectTransition} {e : EffectRow}
    {db db' : Database} {attempt : Nat} (h : t.Does e db db' attempt) :
    db' = { db with
      attempts := db'.attempts
      activationClaims := db'.activationClaims
      obligationClaims := db'.obligationClaims } := by
  cases h with
  | report _ _ heq => rw [heq]
  | reconcile _ heq => rw [heq]
  | begin claim journalId epoch _ db₁ hclaimed heq =>
    rw [heq, hclaimed.frame]
  | none _ _ _ heq => rw [heq]

theorem EffectTransition.Made.frame (h : t.Made e db db') :
    db' = { db with
      effects := db'.effects
      attempts := db'.attempts
      activationClaims := db'.activationClaims
      obligationClaims := db'.obligationClaims } := by
  obtain ⟨attempt, db₁, hdoes, heq⟩ := h.writes
  rw [heq, hdoes.frame]

theorem insertEffect_ok {e : NewEffect}
    {cause : Option BatchId} {commandId : Option String}
    (h : db.insertEffect e cause commandId = .ok db') :
    ∃ row : EffectRow, db' = { db with effects := db.effects ++ [row] }
      ∧ Table.clashes EffectRow.effectId row db.effects = false
      ∧ (row.state = .pending ∨ row.state = .deferred) ∧ row.attempt = 0 := by
  unfold Database.insertEffect at h
  obtain ⟨hinitial, h⟩ := guard_ok h
  obtain ⟨generation, -, h⟩ := bind_ok h
  obtain ⟨_, hunique, h⟩ := bind_ok h
  cases h
  obtain ⟨hunique, -⟩ := guard_not_ok hunique
  refine ⟨_, rfl, by simpa using hunique, ?_, rfl⟩
  dsimp only
  by_cases hpending : e.initial = .pending
  · exact .inl hpending
  · exact .inr (not_not.1 fun h => hinitial ⟨hpending, h⟩)

end Tasty.Journal
