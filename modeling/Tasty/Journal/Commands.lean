/-
Commands and their retry keys: a key names one command for ever, a request
with the key of a command is answered with it or rejected, and the status of
a command does not go back.
-/
import Tasty.Journal.Runs

namespace Tasty.Journal

open List

/-- The same command, later on. -/
structure NewCommand.Follows (c c' : NewCommand) : Prop where
  commandId : c'.commandId = c.commandId
  key : c'.key = c.key
  requestDigest : c'.requestDigest = c.requestDigest
  resolved : c'.resolved = c.resolved
  stage : c.status.stage ≤ c'.status.stage
  terminal : c.status.isTerminal = true → c' = c

namespace NewCommand.Follows

theorem refl (c : NewCommand) : c.Follows c :=
  ⟨rfl, rfl, rfl, rfl, Nat.le_refl _, fun _ => rfl⟩

theorem trans {c c' c'' : NewCommand} (h : c.Follows c')
    (h' : c'.Follows c'') : c.Follows c'' where
  commandId := h'.commandId.trans h.commandId
  key := h'.key.trans h.key
  requestDigest := h'.requestDigest.trans h.requestDigest
  resolved := h'.resolved.trans h.resolved
  stage := Nat.le_trans h.stage h'.stage
  terminal := fun hc => by
    have heq := h.terminal hc
    rw [heq] at h'
    exact h'.terminal hc

end NewCommand.Follows

/-- No two commands have the same identity, or the same key. -/
structure Named (commands : List NewCommand) : Prop where
  ids : Table.Unique NewCommand.commandId commands
  keys : ∀ c ∈ commands, ∀ c' ∈ commands, c.key.isSome = true →
    c'.key = c.key → c' = c

/-- Every command is there later on, and commands are named apart. -/
def CommandsLead (db : Database) (_ : List EffectTransition)
    (db' : Database) : Prop :=
  Named db.commands → Named db'.commands
    ∧ ∀ c ∈ db.commands, ∃ c' ∈ db'.commands, c.Follows c'

section Writes

variable {db db' : Database}

variable {c : NewCommand}

theorem insertCommand_ok (h : db.insertCommand c = .ok db') :
    db' = { db with commands := db.commands ++ [c] }
      ∧ Table.clashes NewCommand.commandId c db.commands = false
      ∧ keyTaken c db.commands = false := by
  obtain ⟨_, hunique, h⟩ := bind_ok h
  cases h
  obtain ⟨hunique, -⟩ := guard_not_ok hunique
  rw [Bool.and_eq_true, Bool.not_eq_true', Bool.not_eq_true'] at hunique
  exact ⟨rfl, hunique⟩

theorem updateCommand_ok {u : CommandUpdate}
    (h : db.updateCommand u = .ok db') :
    ∃ c, Table.find NewCommand.commandId u.commandId db.commands = some c
      ∧ c.status.isTerminal = false ∧ c.status.stage ≤ u.status.stage
      ∧ db' = { db with
          commands := Table.update (fun c => c.commandId = u.commandId)
            u.apply db.commands } := by
  unfold Database.updateCommand at h
  split at h
  · cases h
  · rename_i c hc
    obtain ⟨hterminal, h⟩ := guard_ok h
    obtain ⟨hstage, h⟩ := guard_ok h
    cases h
    exact ⟨c, hc, Bool.eq_false_iff.2 hterminal, Nat.le_of_not_lt hstage, rfl⟩

theorem Named.insert {commands : List NewCommand} (h : Named commands)
    (hid : Table.clashes NewCommand.commandId c commands = false)
    (hkey : keyTaken c commands = false) : Named (commands ++ [c]) := by
  have hnew : ∀ c' ∈ commands, c.key.isSome = true → c'.key ≠ c.key := by
    intro c' hc' hsome
    unfold keyTaken at hkey
    rw [hsome, Bool.true_and] at hkey
    exact Table.clashes_eq_false.1 hkey c' hc'
  refine ⟨h.ids.append hid, ?_⟩
  intro c₁ hc₁ c₂ hc₂ hsome heq
  rcases mem_append.1 hc₁ with hc₁ | hc₁ <;>
    rcases mem_append.1 hc₂ with hc₂ | hc₂
  · exact h.keys c₁ hc₁ c₂ hc₂ hsome heq
  · cases mem_singleton.1 hc₂
    exact absurd heq.symm (hnew c₁ hc₁ (heq ▸ hsome))
  · cases mem_singleton.1 hc₁
    exact absurd heq (hnew c₂ hc₂ hsome)
  · rw [mem_singleton.1 hc₁, mem_singleton.1 hc₂]

theorem Named.update {commands : List NewCommand} (h : Named commands)
    (u : CommandUpdate) :
    Named (Table.update (fun c => c.commandId = u.commandId) u.apply
      commands) := by
  have hids := h.ids.update (p := fun c => c.commandId = u.commandId)
    (f := u.apply) fun _ _ _ => rfl
  refine ⟨hids, ?_⟩
  intro c₁ hc₁ c₂ hc₂ hsome heq
  have hold : ∀ c ∈ Table.update (fun c => c.commandId = u.commandId) u.apply
      commands, ∃ c' ∈ commands, c'.commandId = c.commandId
        ∧ c'.key = c.key := by
    intro c hc
    rcases Table.mem_update.1 hc with ⟨hc, -⟩ | ⟨c', hc', -, rfl⟩
    · exact ⟨c, hc, rfl, rfl⟩
    · exact ⟨c', hc', rfl, rfl⟩
  obtain ⟨d₁, hd₁, hid₁, hkey₁⟩ := hold c₁ hc₁
  obtain ⟨d₂, hd₂, hid₂, hkey₂⟩ := hold c₂ hc₂
  have hd : d₂ = d₁ := h.keys d₁ hd₁ d₂ hd₂ (hkey₁ ▸ hsome)
    (hkey₂.trans (heq.trans hkey₁.symm))
  refine hids.eq_of_key hc₂ hc₁ ?_
  rw [← hid₂, ← hid₁, hd]

theorem commandsLead_insert (h : db.insertCommand c = .ok db') : CommandsLead db [] db' := by
  obtain ⟨rfl, hid, hkey⟩ := insertCommand_ok h
  intro hnamed
  refine ⟨hnamed.insert hid hkey, fun c hc => ?_⟩
  exact ⟨c, mem_append_left _ hc, .refl c⟩

theorem commandsLead_update {u : CommandUpdate}
    (h : db.updateCommand u = .ok db') : CommandsLead db [] db' := by
  obtain ⟨c, hc, hterminal, hstage, rfl⟩ := updateCommand_ok h
  intro hnamed
  refine ⟨hnamed.update u, fun c' hc' => ?_⟩
  by_cases hid : c'.commandId = u.commandId
  · -- it is the command that was found
    have heq : c' = c := hnamed.ids.eq_of_key hc' (Table.find_mem hc)
      (hid.trans (Table.find_key hc).symm)
    rw [heq] at hid ⊢
    refine ⟨u.apply c, Table.mem_update.2 (.inr
      ⟨c, Table.find_mem hc, decide_eq_true hid, rfl⟩), ?_⟩
    refine ⟨rfl, rfl, rfl, rfl, hstage, fun hend => ?_⟩
    rw [hterminal] at hend
    cases hend
  · exact ⟨c', Table.mem_update.2 (.inl ⟨hc', decide_eq_false hid⟩), .refl c'⟩

theorem commandsLead_same {ts : List EffectTransition}
    (h : db'.commands = db.commands) : CommandsLead db ts db' := by
  intro hnamed
  rw [h]
  exact ⟨hnamed, fun c hc => ⟨c, hc, .refl c⟩⟩

end Writes

-- ==== the keys

section Keys

variable {db : Database}

theorem findByKey_of_mem (h : Named db.commands) {c : NewCommand}
    (hc : c ∈ db.commands) {key : CommandKey} (hkey : c.key = some key) :
    db.findByKey key = some (db.record c) := by
  unfold Database.findByKey
  cases hfind : Table.find NewCommand.key (some key) db.commands with
  | none => exact absurd hkey (Table.find_eq_none.1 hfind c hc)
  | some c' =>
    have hkey' : c'.key = c.key := (Table.find_key hfind).trans hkey.symm
    have heq : c' = c := h.keys c hc c' (Table.find_mem hfind)
      (by rw [hkey]; rfl) hkey'
    rw [heq]
    rfl

theorem append_known (g : CommitGroup) (hpoisoned : g.poisoned = false)
    {r : CommitRequest} (hepoch : r.writerEpoch = g.epoch)
    (h : Named g.db.commands) {c c' : NewCommand} {key : CommandKey}
    (hc : c ∈ g.db.commands) (hkey : c.key = some key)
    (hr : r.command = some c') (hkey' : c'.key = some key) :
    g.append r false = if c.requestDigest = c'.requestDigest
      then (.ok (.duplicate (g.db.record c)), g)
      else (.error (.keyConflict key.callerScope key.idempotencyKey), g) := by
  have hfind := findByKey_of_mem h hc hkey
  have hknown : g.db.known r = if c.requestDigest = c'.requestDigest
      then .ok (some (g.db.record c))
      else .error (.keyConflict key.callerScope key.idempotencyKey) := by
    unfold Database.known
    rw [hr]
    dsimp only
    rw [hkey']
    dsimp only
    rw [hfind]
    dsimp only
    show (if c.requestDigest ≠ c'.requestDigest then _ else _) = _
    rw [ite_not]
  unfold CommitGroup.append
  rw [if_neg (by rw [hpoisoned]; exact Bool.false_ne_true),
    if_neg (fun hne => hne hepoch), if_neg Bool.false_ne_true]
  unfold Database.appendIn
  rw [hknown]
  by_cases hd : c.requestDigest = c'.requestDigest
  · rw [if_pos hd, if_pos hd]
    rfl
  · rw [if_neg hd, if_neg hd]
    show (Except.error _, { g with poisoned := decide _ }) = _
    have hg : { g with poisoned := false } = g := by rw [← hpoisoned]
    simp [hg]

end Keys

end Tasty.Journal
