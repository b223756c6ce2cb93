/-
Expired rows over whole runs: whether and when they are purged makes no
difference to what a later call answers, as long as the clock does not run
back. A delete is the exception: it looks at an expired row that is still
there as at any other.
-/
import Tasty.Memory.SameWrites

namespace Tasty.Memory

open MemoryStore List

open Table (Unique)

-- ==== the calls

inductive Op where
  | get (scope : Scope) (key : String)
  | list (scope : Scope) (opts : ListOpts)
  | count (scope : Scope) (prefix? : Option String)
  | getSecret (owner : String) (scope : Scope) (key : String)
  | listSecret (owner : String) (scope : Scope) (opts : ListOpts)
  | countSecret (owner : String) (scope : Scope) (prefix? : Option String)
  | put (owner : String) (scope : Scope) (key : String)
      (value : MemoryValue) (opts : PutOpts)
  | putSecret (owner : String) (scope : Scope) (key : String)
      (value : MemoryValue) (opts : PutOpts)
  | delete (owner : String) (scope : Scope) (key : String)
      (cas : Option Nat)
  | deleteSecret (owner : String) (scope : Scope) (key : String)
      (cas : Option Nat)
  | purgeExpired
  | purgeScope (scope : Scope)
  | prunePrefixKeepRecent (p : String) (keepRecent : Nat)
  | prunePrefixOlderThan (p : String) (cutoffMs : Nat)

inductive Answer where
  | entry (r : Except MemoryError (Option MemoryEntry))
  | entries (r : Except MemoryError (List MemoryEntry))
  | number (r : Except MemoryError Nat)
  | done (r : Except MemoryError Unit)
  | purged (r : Except MemoryError PurgeStats)

namespace MemoryStore

def step (layer : ValueText) (env : Env) (s : MemoryStore) :
    Op → MemoryStore × Answer
  | .get scope key => (s, .entry (s.get layer env scope key))
  | .list scope opts => (s, .entries (s.list layer env scope opts))
  | .count scope prefix? => (s, .number (s.count env scope prefix?))
  | .getSecret owner scope key =>
    (s, .entry (s.getSecret layer env owner scope key))
  | .listSecret owner scope opts =>
    (s, .entries (s.listSecret layer env owner scope opts))
  | .countSecret owner scope prefix? =>
    (s, .number (s.countSecret env owner scope prefix?))
  | .put owner scope key value opts =>
    (s.put layer env owner scope key value opts).map id .number
  | .putSecret owner scope key value opts =>
    (s.putSecret layer env owner scope key value opts).map id .number
  | .delete owner scope key cas =>
    (s.delete env owner scope key cas).map id .done
  | .deleteSecret owner scope key cas =>
    (s.deleteSecret env owner scope key cas).map id .done
  | .purgeExpired => (s.purgeExpired env).map id .purged
  | .purgeScope scope => (s.purgeScope env scope).map id .purged
  | .prunePrefixKeepRecent p keepRecent =>
    (s.prunePrefixKeepRecent env p keepRecent).map id .number
  | .prunePrefixOlderThan p cutoffMs =>
    (s.prunePrefixOlderThan env p cutoffMs).map id .number

end MemoryStore

namespace Op

def isPurge : Op → Bool
  | .purgeExpired => true
  | _ => false

/-- A call that deletes whatever rows it finds and answers how many. -/
def isMaintenance : Op → Bool
  | .purgeExpired | .purgeScope _ | .prunePrefixKeepRecent _ _
  | .prunePrefixOlderThan _ _ => true
  | _ => false

/-- A delete that finds an expired row. -/
def deletesExpired (now : Int) (s : MemoryStore) : Op → Bool
  | .delete _ scope key _ =>
    MemoryStore.overExpired Row.place (scope.asToken, key) now s.memory
  | .deleteSecret owner scope key _ =>
    MemoryStore.overExpired Row.secretPlace (owner, scope.asToken, key) now
      s.memorySecret
  | _ => false

/-- What counts the latest keys of a prefix counts no expired ones. -/
def CountsLive (now : Int) (s : MemoryStore) : Op → Prop
  | .prunePrefixKeepRecent p _ => MemoryStore.PrefixLive now p s.memory
  | _ => True

end Op

-- ==== one call

section OneCall

variable {layer : ValueText} {env : Env} {s s' : MemoryStore}

theorem step_wrote (op : Op) : Wrote env.now s (s.step layer env op).1 := by
  cases op with
  | get | list | count | getSecret | listSecret | countSecret => exact .refl
  | put => exact put_wrote
  | putSecret => exact putSecret_wrote
  | delete => exact delete_wrote
  | deleteSecret => exact deleteSecret_wrote
  | purgeExpired | purgeScope => exact purged_wrote _ _ _
  | prunePrefixKeepRecent | prunePrefixOlderThan => exact pruned_wrote _

theorem step_faithful (hs : s.Faithful) (op : Op) :
    (s.step layer env op).1.Faithful :=
  (step_wrote op).faithful hs

theorem getRow_eq {κ : Type} [DecidableEq κ] {place : Row → κ} {now : Int}
    {rows : List Row} (h : Unique place rows) (secret : Bool) (k : κ) :
    getRow layer secret place k now rows
      = match Table.find place k (live now rows) with
        | none => .ok none
        | some r => (r.entry layer secret).map some := by
  rw [find_live h, getRow]
  cases hfind : Table.find place k rows with
  | none => rfl
  | some r =>
    dsimp only
    rw [Option.filter_some]
    cases r.isExpired now with
    | true => rfl
    | false => rfl

/-- A call on two stores with the same live rows leaves them so, and is
answered alike unless it deletes an expired row. -/
theorem step_same (layer : ValueText) (hs : s.Faithful) (hs' : s'.Faithful)
    (hsame : LiveSame env.now s s') (op : Op)
    (hcounts : op.CountsLive env.now s) (hcounts' : op.CountsLive env.now s') :
    LiveSame env.now (s.step layer env op).1 (s'.step layer env op).1
      ∧ (op.isMaintenance = true ∨ op.deletesExpired env.now s = true
        ∨ op.deletesExpired env.now s' = true
        ∨ (s.step layer env op).2 = (s'.step layer env op).2) := by
  cases op with
  | get scope key =>
    refine ⟨hsame, .inr (.inr (.inr (congrArg Answer.entry ?_)))⟩
    unfold MemoryStore.get
    rw [getRow_eq hs.unique, getRow_eq hs'.unique, hsame.memory]
  | getSecret owner scope key =>
    refine ⟨hsame, .inr (.inr (.inr (congrArg Answer.entry ?_)))⟩
    unfold MemoryStore.getSecret
    rw [getRow_eq hs.uniqueSecret, getRow_eq hs'.uniqueSecret,
      hsame.memorySecret]
  | list scope opts =>
    refine ⟨hsame, .inr (.inr (.inr (congrArg Answer.entries ?_)))⟩
    unfold MemoryStore.list
    rw [hsame.memory]
  | listSecret owner scope opts =>
    refine ⟨hsame, .inr (.inr (.inr (congrArg Answer.entries ?_)))⟩
    unfold MemoryStore.listSecret
    rw [hsame.memorySecret]
  | count scope prefix? =>
    refine ⟨hsame, .inr (.inr (.inr (congrArg Answer.number ?_)))⟩
    unfold MemoryStore.count
    rw [hsame.memory]
  | countSecret owner scope prefix? =>
    refine ⟨hsame, .inr (.inr (.inr (congrArg Answer.number ?_)))⟩
    unfold MemoryStore.countSecret
    rw [hsame.memorySecret]
  | put owner scope key value opts =>
    obtain ⟨hanswer, hlive⟩ := put_same layer owner key
      scope value opts hs hs' hsame
    exact ⟨hlive, .inr (.inr (.inr (congrArg Answer.number hanswer)))⟩
  | putSecret owner scope key value opts =>
    obtain ⟨hanswer, hlive⟩ := putSecret_same layer owner
      key scope value opts hs hs' hsame
    exact ⟨hlive, .inr (.inr (.inr (congrArg Answer.number hanswer)))⟩
  | delete owner scope key cas =>
    have hfind := existing_same hs.unique hs'.unique
      hsame.memory (scope.asToken, key)
    have hquiet (hnone : ((Table.find Row.place (scope.asToken, key)
        s.memory).filter fun r => !r.isExpired env.now) = none) :
        LiveSame env.now (s.delete env owner scope key cas).1
          (s'.delete env owner scope key cas).1 :=
      (delete_quiet hs hnone).trans
        (hsame.trans (delete_quiet hs' (hfind ▸ hnone)).symm)
    by_cases h : Op.deletesExpired env.now s
        (.delete owner scope key cas) = true
    · exact ⟨hquiet (filter_find h), .inr (.inl h)⟩
    · by_cases h' : Op.deletesExpired env.now s'
          (.delete owner scope key cas) = true
      · exact ⟨hquiet (hfind.trans (filter_find h')), .inr (.inr (.inl h'))⟩
      · obtain ⟨hanswer, hlive⟩ := delete_same owner cas hs hs'
          hsame (Bool.eq_false_iff.2 h) (Bool.eq_false_iff.2 h')
        exact ⟨hlive, .inr (.inr (.inr (congrArg Answer.done hanswer)))⟩
  | deleteSecret owner scope key cas =>
    have hfind := existing_same hs.uniqueSecret
      hs'.uniqueSecret hsame.memorySecret (owner, scope.asToken, key)
    have hquiet (hnone : ((Table.find Row.secretPlace
        (owner, scope.asToken, key) s.memorySecret).filter fun r =>
          !r.isExpired env.now) = none) :
        LiveSame env.now (s.deleteSecret env owner scope key cas).1
          (s'.deleteSecret env owner scope key cas).1 :=
      (deleteSecret_quiet hs hnone).trans (hsame.trans
        (deleteSecret_quiet hs' (hfind ▸ hnone)).symm)
    by_cases h : Op.deletesExpired env.now s
        (.deleteSecret owner scope key cas) = true
    · exact ⟨hquiet (filter_find h), .inr (.inl h)⟩
    · by_cases h' : Op.deletesExpired env.now s'
          (.deleteSecret owner scope key cas) = true
      · exact ⟨hquiet (hfind.trans (filter_find h')), .inr (.inr (.inl h'))⟩
      · obtain ⟨hanswer, hlive⟩ := deleteSecret_same cas hs
          hs' hsame (Bool.eq_false_iff.2 h) (Bool.eq_false_iff.2 h')
        exact ⟨hlive, .inr (.inr (.inr (congrArg Answer.done hanswer)))⟩
  | purgeExpired =>
    exact ⟨purgeExpired_quiet.trans
      (hsame.trans purgeExpired_quiet.symm), .inl rfl⟩
  | purgeScope scope =>
    refine ⟨writeStep_live hsame ?_ ?_, .inl rfl⟩
    · rw [live_delete, live_delete, hsame.memory]
    · rw [live_delete, live_delete, hsame.memorySecret]
  | prunePrefixKeepRecent p keepRecent =>
    exact ⟨prunePrefixKeepRecent_same hsame keepRecent hcounts
      hcounts', .inl rfl⟩
  | prunePrefixOlderThan p cutoffMs =>
    refine ⟨writeStep_live hsame ?_ hsame.memorySecret, .inl rfl⟩
    rw [live_delete, live_delete, hsame.memory]

theorem put_over_expired {owner key : String} {scope : Scope}
    {value : MemoryValue} {opts : PutOpts} {v : Nat}
    (hexp : overExpired Row.place (scope.asToken, key) env.now s.memory = true)
    (h : (s.put layer env owner scope key value opts).2 = .ok v) :
    v = 1 ∧ (Table.find Row.place (scope.asToken, key)
      (s.put layer env owner scope key value opts).1.memory).map Row.owner
        = some owner := by
  unfold MemoryStore.put at h ⊢
  cases hchecks : putChecks layer s.config owner key value with
  | error e =>
    rw [hchecks] at h
    cases h
  | ok bytes =>
    rw [hchecks] at h
    dsimp only [writeStep] at h ⊢
    cases hfault : env.fault with
    | some e =>
      rw [hfault] at h
      cases h
    | none =>
      rw [hfault] at h
      dsimp only at h ⊢
      generalize hnew : newRow env owner scope key value opts
        bytes = new at h ⊢
      have hplace : new.place = (scope.asToken, key) := by
        rw [← hnew]
        rfl
      have howner : new.owner = owner := by
        rw [← hnew]
        rfl
      rw [← hplace] at hexp ⊢
      have hany : (Table.find Row.place new.place s.memory).any
          (Row.isExpired env.now) = true := hexp
      unfold putRegularRows at h ⊢
      dsimp only at h ⊢
      rw [filter_find hexp, if_pos rfl, hany] at h ⊢
      cases hquota : checkRegularQuota s.regularUsedBytes
          s.config.regularQuotaTotalBytes env.now new s.memory with
      | error e =>
        rw [hquota] at h
        cases h
      | ok _ =>
        rw [hquota] at h
        cases hversion : checkVersion none opts.cas with
        | error e =>
          rw [hversion] at h
          cases h
        | ok _ =>
          rw [hversion] at h
          cases h
          refine ⟨rfl, ?_⟩
          show (Table.find Row.place new.place (Table.delete _ s.memory
            ++ [new])).map Row.owner = some owner
          rw [Table.find_append, if_pos rfl,
            Table.find_eq_none.2 fun r hr => of_decide_eq_false
              (Table.mem_delete.1 hr).2]
          exact congrArg some howner

end OneCall

-- ==== whole runs

abbrev Call := Env × Op

/-- A call with the store that it met and its answer. -/
structure Done where
  store : MemoryStore
  env : Env
  op : Op
  answer : Answer

/-- The calls of a run but for its purges. -/
def trace (layer : ValueText) (s : MemoryStore) : List Call → List Done
  | [] => []
  | (env, op) :: calls =>
    let rest := trace layer (s.step layer env op).1 calls
    if op.isPurge then rest
    else ⟨s, env, op, (s.step layer env op).2⟩ :: rest

/-- The clock does not run back. -/
def Nondecreasing (start : Int) (calls : List Call) : Prop :=
  (start :: calls.map fun c => c.1.now).Pairwise (· ≤ ·)

/-- The same call with the same answer, unless it is one that answers what
it deleted and there was an expired row to delete. -/
structure Agrees (a b : Done) : Prop where
  env : a.env = b.env
  op : a.op = b.op
  answer : a.op.isMaintenance = true
    ∨ a.op.deletesExpired a.env.now a.store = true
    ∨ b.op.deletesExpired b.env.now b.store = true ∨ a.answer = b.answer

section Runs

variable {layer : ValueText} {s s' : MemoryStore} {start : Int}

variable {calls : List Call}

theorem Nondecreasing.head {env : Env} {op : Op}
    (h : Nondecreasing start ((env, op) :: calls)) :
    start ≤ env.now ∧ Nondecreasing env.now calls := by
  obtain ⟨hall, hrest⟩ := pairwise_cons.1 h
  exact ⟨hall _ mem_cons_self, hrest⟩

theorem trace_purges (layer : ValueText) (hs : s.Faithful)
    {purges : List Call} {call : Call}
    (hpurges : ∀ c ∈ purges, ¬ (!c.2.isPurge) = true)
    (hclock : Nondecreasing start (purges ++ call :: calls)) :
    ∃ s₁ : MemoryStore, s₁.Faithful ∧ LiveSame call.1.now s₁ s
      ∧ start ≤ call.1.now ∧ Nondecreasing call.1.now calls
      ∧ trace layer s (purges ++ call :: calls)
        = trace layer s₁ (call :: calls) := by
  induction purges generalizing s start with
  | nil =>
    obtain ⟨hle, hrest⟩ := hclock.head
    exact ⟨s, hs, .refl _ _, hle, hrest, rfl⟩
  | cons purge purges ih =>
    obtain ⟨env, op⟩ := purge
    obtain ⟨hle, hrest⟩ := hclock.head
    have hpurge : op.isPurge = true := by
      simpa using hpurges _ mem_cons_self
    obtain ⟨s₁, hs₁, hlive, hle₁, hafter, htrace⟩ := ih
      (step_faithful hs op)
      (fun c hc => hpurges c (mem_cons_of_mem _ hc)) hrest
    cases op with
    | purgeExpired =>
      have hquiet : LiveSame env.now (s.step layer env .purgeExpired).1 s :=
        purgeExpired_quiet
      exact ⟨s₁, hs₁, hlive.trans (hquiet.later hle₁),
        Int.le_trans hle hle₁, hafter, htrace⟩
    | _ => cases hpurge

theorem trace_cons {env : Env} {op : Op} (h : op.isPurge = false)
    (calls : List Call) :
    trace layer s ((env, op) :: calls)
      = ⟨s, env, op, (s.step layer env op).2⟩
        :: trace layer (s.step layer env op).1 calls := by
  rw [trace, h]
  rfl

theorem trace_agrees (hs : s.Faithful) (hs' : s'.Faithful)
    (hsame : LiveSame start s s') {calls' : List Call}
    (hcalls : (calls.filter fun c => !c.2.isPurge)
      = calls'.filter fun c => !c.2.isPurge)
    (hclock : Nondecreasing start calls) (hclock' : Nondecreasing start calls')
    (hcounts : ∀ d ∈ trace layer s calls, d.op.CountsLive d.env.now d.store)
    (hcounts' : ∀ d ∈ trace layer s' calls',
      d.op.CountsLive d.env.now d.store) :
    List.Forall₂ Agrees (trace layer s calls) (trace layer s' calls') := by
  induction hkept : calls.filter (fun c => !c.2.isPurge)
    generalizing s s' start calls calls' with
  | nil =>
    have hnil (s : MemoryStore) (calls : List Call)
        (h : calls.filter (fun c => !c.2.isPurge) = []) :
        trace layer s calls = [] := by
      induction calls generalizing s with
      | nil => rfl
      | cons c calls ih =>
        have hc : c.2.isPurge = true := by
          simpa using filter_eq_nil_iff.1 h c mem_cons_self
        have hrest : calls.filter (fun c => !c.2.isPurge) = [] :=
          filter_eq_nil_iff.2 fun x hx =>
            filter_eq_nil_iff.1 h x (mem_cons_of_mem _ hx)
        rw [trace, hc, if_pos rfl]
        exact ih _ hrest
    rw [hnil s calls hkept, hnil s' calls' (hcalls ▸ hkept)]
    exact .nil
  | cons call kept ih =>
    obtain ⟨purges, rest, rfl, hpurges, hcall, hrest⟩ :=
      filter_eq_cons_iff.1 hkept
    obtain ⟨purges', rest', rfl, hpurges', -, hrest'⟩ :=
      filter_eq_cons_iff.1 (hcalls.symm.trans hkept)
    obtain ⟨s₁, hs₁, hlive, hle, hafter, htrace⟩ :=
      trace_purges layer hs hpurges hclock
    obtain ⟨s₁', hs₁', hlive', -, hafter', htrace'⟩ :=
      trace_purges layer hs' hpurges' hclock'
    obtain ⟨env, op⟩ := call
    have hop : op.isPurge = false := by simpa using hcall
    rw [htrace, trace_cons hop] at hcounts ⊢
    rw [htrace', trace_cons hop] at hcounts' ⊢
    obtain ⟨hstep, hanswer⟩ := step_same layer hs₁ hs₁'
      (hlive.trans ((hsame.later hle).trans hlive'.symm)) op
      (hcounts _ mem_cons_self) (hcounts' _ mem_cons_self)
    refine .cons ⟨rfl, rfl, hanswer⟩ ?_
    exact ih (step_faithful hs₁ op) (step_faithful hs₁' op) hstep
      (hrest.trans hrest'.symm) hafter hafter'
      (fun d hd => hcounts d (mem_cons_of_mem _ hd))
      (fun d hd => hcounts' d (mem_cons_of_mem _ hd)) hrest

theorem answer_of_mem {d : Done} (hd : d ∈ trace layer s calls) :
    d.answer = (d.store.step layer d.env d.op).2 := by
  induction calls generalizing s with
  | nil => cases hd
  | cons call calls ih =>
    obtain ⟨env, op⟩ := call
    rw [trace] at hd
    split at hd
    · exact ih hd
    · rcases mem_cons.1 hd with rfl | hd
      · rfl
      · exact ih hd

end Runs

/-- Whether and when expired rows are purged changes no later answer, as
long as the clock does not run back and no expired row is counted among the
latest of a prefix; only a delete of an expired row tells whether it is
still there, and changes no other answer. A put over an expired row starts
at version one and makes the caller its owner. -/
theorem expired_rows_invisible (layer : ValueText) (config : MemoryConfig)
    (memory memorySecret : List Row) (hunique : Unique Row.place memory)
    (hsecret : Unique Row.secretPlace memorySecret) (start : Int)
    (calls calls' : List Call)
    (hcalls : (calls.filter fun c => !c.2.isPurge)
      = calls'.filter fun c => !c.2.isPurge)
    (hclock : Nondecreasing start calls)
    (hclock' : Nondecreasing start calls')
    (hcounts : ∀ d ∈ trace layer (.prepare config memory memorySecret) calls,
      d.op.CountsLive d.env.now d.store)
    (hcounts' : ∀ d ∈ trace layer (.prepare config memory memorySecret)
      calls', d.op.CountsLive d.env.now d.store) :
    List.Forall₂ Agrees
        (trace layer (.prepare config memory memorySecret) calls)
        (trace layer (.prepare config memory memorySecret) calls')
      ∧ ∀ d ∈ trace layer (.prepare config memory memorySecret) calls,
        ∀ owner scope key value opts v,
          d.op = .put owner scope key value opts →
          MemoryStore.overExpired Row.place (scope.asToken, key) d.env.now
            d.store.memory = true →
          d.answer = .number (.ok v) →
          v = 1 ∧ (Table.find Row.place (scope.asToken, key)
            (d.store.step layer d.env d.op).1.memory).map Row.owner
              = some owner := by
  have hs : (MemoryStore.prepare config memory memorySecret).Faithful :=
    ⟨hunique, hsecret, rfl⟩
  refine ⟨trace_agrees hs hs (.refl start _) hcalls hclock hclock' hcounts
    hcounts', ?_⟩
  intro d hd owner scope key value opts v hop hexp hanswer
  rw [answer_of_mem hd, hop] at hanswer
  rw [hop]
  refine put_over_expired hexp ?_
  injection hanswer

-- ==== one row that has expired

def roomy : MemoryConfig where
  entryMaxBytes := 1048576
  secretQuotaPerOwnerBytes := 10485760
  regularQuotaTotalBytes := 1073741824

/-- A text layer for stores that hold no JSON. -/
def noJson : ValueText where
  toVec _ := .error "no json"
  fromSlice _ := .error "no json"
  utf8Error _ := "not utf8"

/-- A put of a log entry by the app, which expires at the given time. -/
def putLog (key : String) (expiresAt : Option Int) : Op :=
  .put "app" .global key (.text "x") ⟨expiresAt, none⟩

/-- A store with an entry that expires at five, behind one that stays. -/
def logs : MemoryStore :=
  ((MemoryStore.prepare roomy [] []).step noJson ⟨1, none⟩
    (putLog "log.1" none)).1.step noJson ⟨1, none⟩ (putLog "log.2" (some 5))
    |>.1

def purgedAt (t : Int) (s : MemoryStore) : MemoryStore :=
  (s.purgeExpired ⟨t, none⟩).1

/-- Before a purge a delete finds the expired row, a clock that is set back
shows it again, and it is counted among the latest of its prefix. -/
theorem not_expired_rows_invisible :
    ((logs.delete ⟨10, none⟩ "app" .global "log.2" none).2 = .ok ()
        ∧ ((purgedAt 10 logs).delete ⟨10, none⟩ "app" .global "log.2" none).2
          = .error (.notFound "global" "log.2"))
      ∧ (logs.count ⟨3, none⟩ .global none = .ok 2
        ∧ (purgedAt 10 logs).count ⟨3, none⟩ .global none = .ok 1)
      ∧ ((logs.prunePrefixKeepRecent ⟨10, none⟩ "log." 1).1.count ⟨10, none⟩
            .global none = .ok 0
        ∧ ((purgedAt 10 logs).prunePrefixKeepRecent ⟨10, none⟩ "log." 1).1.count
            ⟨10, none⟩ .global none = .ok 1) := by
  decide +kernel

def unpurgedCalls : List Call :=
  [(⟨1, none⟩, putLog "log.2" (some 5)), (⟨10, none⟩, putLog "log.2" none)]

def purgedCalls : List Call :=
  [(⟨1, none⟩, putLog "log.2" (some 5)), (⟨9, none⟩, .purgeExpired),
    (⟨10, none⟩, putLog "log.2" none)]

/-- A put over an expired row, in a run with a purge and in one without. -/
theorem expired_rows_invisible_put :
    List.Forall₂ Agrees (trace noJson (.prepare roomy [] []) purgedCalls)
      (trace noJson (.prepare roomy [] []) unpurgedCalls) := by
  have hclock : Nondecreasing 0 purgedCalls := by
    unfold Nondecreasing
    decide
  have hclock' : Nondecreasing 0 unpurgedCalls := by
    unfold Nondecreasing
    decide
  refine (expired_rows_invisible noJson roomy [] [] .nil .nil 0 purgedCalls
    unpurgedCalls rfl hclock hclock' ?_ ?_).1
  · intro d hd
    rcases List.mem_cons.1 hd with rfl | hd
    · trivial
    · obtain rfl := List.mem_singleton.1 hd
      trivial
  · intro d hd
    rcases List.mem_cons.1 hd with rfl | hd
    · trivial
    · obtain rfl := List.mem_singleton.1 hd
      trivial

end Tasty.Memory
