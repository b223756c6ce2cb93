/-
What a session may do is what the history of the calls says: the
permissions it was issued with and the grants that stand.
-/
import Tasty.Ipc.SessionRuns

namespace Tasty.Ipc

open List

open Manifest (Permission)
open Memory

variable {layer : SessionText} {owner : String} {history : List Done}
  {d : Done} {token : SessionToken} {since : UInt64} {mem : MemoryStore}
  {env : SessionEnv}

variable {issue : Issue} {now : UInt64} {op : SessionOp}
  {answer : SessionAnswer} {session : AgentSession}

-- ==== the history told

theorem not_issued_nil : ¬ Issued [] token issue := by
  intro h
  obtain ⟨d, hd, -⟩ := h
  cases hd

theorem Told.nil : Told [] where
  once := fun _ _ _ h => absurd h not_issued_nil
  known := fun _ hd => absurd hd not_mem_nil
  named := fun _ _ h => absurd h not_issued_nil

theorem Told.snoc (h : Told history)
    (hissue : ∀ token issue, d.issueOf token = some issue →
      (∀ issue', ¬ Issued history token issue')
        ∧ ∀ p ∈ issue.permissions, ∃ text, Permission.fromToken text = some p)
    (hknown : ∀ token, (d.revokes token = true
      ∨ ∃ permission expiry, d.grantOf token permission = some expiry) →
        ∃ issue, Issued history token issue) : Told (history ++ [d]) where
  once := fun token issue issue' hi hi' => by
    rcases issued_snoc.1 hi with hi | hi
    · rcases issued_snoc.1 hi' with hi' | hi'
      · exact h.once token issue issue' hi hi'
      · exact absurd hi ((hissue token issue' hi').1 issue)
    · rcases issued_snoc.1 hi' with hi' | hi'
      · exact absurd hi' ((hissue token issue hi).1 issue')
      · exact Option.some.inj (hi'.symm.trans hi)
  known := fun d' hd' token hnames => by
    have hissued : ∃ issue, Issued history token issue := by
      rcases mem_append.1 hd' with hd' | hd'
      · exact h.known d' hd' token hnames
      · rw [mem_singleton.1 hd'] at hnames
        exact hknown token hnames
    obtain ⟨issue, hissued⟩ := hissued
    exact ⟨issue, issued_snoc.2 (.inl hissued)⟩
  named := fun token issue hi => by
    rcases issued_snoc.1 hi with hi | hi
    · exact h.named token issue hi
    · exact (hissue token issue hi).2

theorem Told.silent (h : Told history) (hd : ∀ token, d.Silent token) :
    Told (history ++ [d]) := by
  refine h.snoc (fun token issue hissue => ?_) (fun token hnames => ?_)
  · rw [(hd token).issueOf] at hissue
    cases hissue
  · rcases hnames with hrevokes | ⟨permission, expiry, hgrant⟩
    · rw [(hd token).revokes] at hrevokes
      cases hrevokes
    · rw [(hd token).grantOf] at hgrant
      cases hgrant

theorem Keeps.silent (h : Keeps layer owner history since mem)
    (hd : ∀ token, d.Silent token) :
    Keeps layer owner (history ++ [d]) since mem :=
  { h with cells := fun token => (h.cells token).silent (hd token) }

theorem Told.unknown (h : Told history)
    (hnot : ∀ issue, ¬ Issued history token issue) :
    ¬ Revoked history token
      ∧ ∀ permission now, ¬ Granted history token permission now := by
  constructor
  · intro hrevoked
    obtain ⟨d, hd, hrevokes⟩ := hrevoked
    obtain ⟨issue, hissue⟩ := h.known d hd token (.inl hrevokes)
    exact hnot issue hissue
  · intro permission now hgranted
    obtain ⟨earlier, d, later, expiry, rfl, hgrant, -⟩ := hgranted
    obtain ⟨issue, hissue⟩ := h.known d
      (mem_append_right _ mem_cons_self) token
      (.inr ⟨permission, expiry, hgrant⟩)
    exact hnot issue hissue

-- ==== calls that are silent

theorem silent_of_error {e : SessionError}
    (h : answer = .changed (.error e) ∨ answer = .issued (.error e))
    (token : SessionToken) : (Done.mk now op answer).Silent token := by
  rcases h with rfl | rfl
  all_goals
    constructor
    all_goals
      cases op <;> first | rfl | exact fun _ => rfl

theorem silent_of_ne (h : op.token ≠ some token) : (Done.mk now op answer).Silent token := by
  have hne {token' : SessionToken} (htoken : op.token = some token') :
      token' ≠ token := fun heq => h (heq ▸ htoken)
  constructor
  · unfold Done.issueOf
    split
    · rename_i hop _
      exact if_neg (hne (congrArg SessionOp.token hop))
    · rfl
  · unfold Done.revokes
    split
    · rename_i hop _
      exact decide_eq_false (hne (congrArg SessionOp.token hop))
    · rfl
  · intro permission
    unfold Done.grantOf
    split
    · rename_i hop _
      exact if_neg fun heq => hne (congrArg SessionOp.token hop) heq.1
    · rfl
  · intro permission
    unfold Done.takesBack
    split
    · rename_i hop _
      exact decide_eq_false fun heq =>
        hne (congrArg SessionOp.token hop) heq.1
    · rfl

-- ==== the calls that tell

/-- The history and the memory after a call. -/
def After (layer : SessionText) (owner : String) (history : List Done)
    (env : SessionEnv) (op : SessionOp) (r : MemoryStore × SessionAnswer) :
    Prop :=
  Told (history ++ [⟨env.nowMs, op, r.2⟩])
    ∧ Keeps layer owner (history ++ [⟨env.nowMs, op, r.2⟩]) env.nowMs r.1

theorem After.of_silent {r : MemoryStore × SessionAnswer}
    (htold : Told history) (h : Keeps layer owner history env.nowMs r.1)
    (hd : ∀ token, (Done.mk env.nowMs op r.2).Silent token) :
    After layer owner history env op r :=
  ⟨htold.silent hd, h.silent hd⟩

theorem After.of_put {access : Env} {mem' : MemoryStore} {u : Unit}
    (issue : Issue) (h : Keeps layer owner history env.nowMs mem)
    (htoken : op.token = some token)
    (hput : SessionStore.put layer mem owner access token session
      = (mem', .ok u)) (htold : Told (history ++ [⟨env.nowMs, op, answer⟩]))
    (hrecords : Records (history ++ [⟨env.nowMs, op, answer⟩]) env.nowMs token
      session issue) : After layer owner history env op (mem', answer) := by
  have hkeeps := h.put hrecords (fun token' hne => ?_)
    (congrArg Prod.snd hput)
  · rw [hput] at hkeeps
    exact ⟨htold, hkeeps⟩
  · refine (h.cells token').silent (silent_of_ne ?_)
    rw [htoken]
    exact fun heq => hne (Option.some.inj heq).symm

variable {ttlMs : Option UInt64}

theorem issue_after {agentId : String} {parent : Option String}
    {permissions : List Permission}
    (htold : Told history) (h : Keeps layer owner history env.nowMs mem)
    (hfresh : ∀ issue, ¬ Issued history token issue)
    (hnamed : ∀ p ∈ permissions, ∃ text, Permission.fromToken text = some p) :
    After layer owner history env
      (.issue agentId parent permissions ttlMs token)
      ((SessionStore.issue layer env mem owner agentId parent permissions
        ttlMs token).map id .issued) := by
  unfold SessionStore.issue
  by_cases hempty : agentId = ""
  · rw [if_pos hempty]
    exact .of_silent htold h (silent_of_error (.inr rfl))
  rw [if_neg hempty]
  dsimp only
  cases hput : SessionStore.put layer mem owner (env.access 0) token
      { agentId, parent
        permissions := permissions.map Permission.asToken
        tempGrants := []
        createdAtMs := env.nowMs
        expiresAtMs := expiryOf ttlMs env.nowMs
        revoked := false } with
  | mk mem' answer =>
    cases answer with
    | error e =>
      obtain ⟨rfl, -⟩ := put_error hput
      exact .of_silent htold h (silent_of_error (.inr rfl))
    | ok u =>
      obtain ⟨hnotRevoked, hnotGranted⟩ := htold.unknown hfresh
      have hissue (answered : SessionToken × AgentSession) :
          (Done.mk env.nowMs (.issue agentId parent permissions ttlMs
            token) (.issued (.ok answered))).issueOf token
          = some ⟨agentId, parent, permissions,
            expiryOf ttlMs env.nowMs⟩ := if_pos rfl
      refine .of_put ⟨agentId, parent, permissions,
        expiryOf ttlMs env.nowMs⟩ h rfl hput ?_ ?_
      · refine htold.snoc (fun token' issue hissue' => ?_) fun _ hnames => ?_
        · by_cases htoken : token = token'
          · subst htoken
            cases (hissue _).symm.trans hissue'
            exact ⟨hfresh, hnamed⟩
          · cases (if_neg htoken).symm.trans hissue'
        · rcases hnames with hrevokes | ⟨_, _, hgrant⟩
          · cases hrevokes
          · cases hgrant
      · refine ⟨issued_snoc.2 (.inr (hissue _)), rfl, rfl, rfl, rfl, ?_,
          fun permission now _ => ?_⟩
        · rw [revoked_snoc]
          exact iff_of_false Bool.false_ne_true
            (not_or.2 ⟨hnotRevoked, Bool.false_ne_true⟩)
        · rw [granted_snoc]
          refine iff_of_false (fun hlive => ?_) (not_or.2 ⟨?_, ?_⟩)
          · obtain ⟨g, hg, -⟩ := hlive
            cases hg
          · intro hgrant
            obtain ⟨expiry, hgrant, -⟩ := hgrant
            cases hgrant
          · exact fun hgranted => hnotGranted _ _ hgranted.1

theorem grantPermission_after {permission : String}
    (hlayer : SessionsReadBack layer) (htold : Told history)
    (h : Keeps layer owner history env.nowMs mem) :
    After layer owner history env (.grantPermission token permission ttlMs)
      ((SessionStore.grantPermission layer env mem owner token permission
        ttlMs).map id .changed) := by
  have hrefused (text : SessionError) : After layer owner history env
      (.grantPermission token permission ttlMs)
      (mem, .changed (.error text)) :=
    .of_silent htold h (silent_of_error (.inl rfl))
  unfold SessionStore.grantPermission
  split
  · exact hrefused _
  rcases h.getRaw hlayer (env.access 0) token with ⟨m, hraw⟩ | ⟨hraw, -, hgone⟩
    | ⟨session, issue, r, hraw, hrow, hholds, hrecords⟩
  · rw [hraw]
    exact hrefused _
  · rw [hraw]
    exact hrefused _
  · rw [hraw]
    dsimp only
    split
    · exact hrefused _
    have hkept := hrecords.evict
    cases hevict : session.evictExpiredGrants env.nowMs with
    | mk session' evicted =>
      rw [hevict] at hkept
      dsimp only
      split
      · refine .of_silent htold h fun token => ⟨rfl, rfl, fun _ => rfl,
          fun _ => rfl⟩
      cases hput : SessionStore.put layer mem owner (env.access 1) token
          { session' with
            tempGrants := SessionStore.mergeGrant permission
              (expiryOf ttlMs env.nowMs) session'.tempGrants } with
      | mk mem' answer =>
        cases answer with
        | error e =>
          obtain ⟨rfl, -⟩ := put_error hput
          exact hrefused _
        | ok u =>
          refine .of_put issue h rfl hput ?_ ?_
          · refine htold.snoc (fun _ _ hissue => nomatch hissue)
              fun token' hnames => ?_
            rcases hnames with hrevokes | ⟨permission', expiry, hgrant⟩
            · cases hrevokes
            · by_cases hsame : token = token' ∧ permission = permission'
              · exact hsame.1 ▸ ⟨issue, hrecords.issued⟩
              · cases (if_neg hsame).symm.trans hgrant
          · refine ⟨issued_snoc.2 (.inl hkept.issued), hkept.agentId,
              hkept.parent, hkept.permissions, hkept.expiresAtMs, ?_,
              fun permission' now hnow => ?_⟩
            · rw [revoked_snoc, hkept.revoked]
              exact (or_iff_left Bool.false_ne_true).symm
            · rw [grantLive_mergeGrant, granted_snoc,
                hkept.grants permission' now hnow]
              refine or_congr ?_ (and_iff_left rfl).symm
              constructor
              · intro hgrant
                obtain ⟨rfl, hover⟩ := hgrant
                exact ⟨_, if_pos ⟨rfl, rfl⟩, hover⟩
              · intro hgrant
                obtain ⟨expiry, hgrant, hover⟩ := hgrant
                by_cases hsame : token = token
                    ∧ permission = permission'
                · cases (if_pos hsame).symm.trans hgrant
                  exact ⟨hsame.2, hover⟩
                · cases (if_neg hsame).symm.trans hgrant

theorem filter_of_length {α : Type} {p : α → Bool} {l : List α}
    (h : (l.length != (l.filter p).length) = false) : l.filter p = l := by
  rw [bne_eq_false_iff_eq] at h
  exact filter_eq_self.2 (length_filter_eq_length_iff.1 h.symm)

theorem revokePermission_after {permission : String}
    (hlayer : SessionsReadBack layer) (htold : Told history)
    (h : Keeps layer owner history env.nowMs mem) :
    After layer owner history env (.revokePermission token permission)
      ((SessionStore.revokePermission layer env mem owner token
        permission).map id .changed) := by
  have hsilent (answer : SessionAnswer) (token' : SessionToken)
      (hne : token' ≠ token) :
      (Done.mk env.nowMs (.revokePermission token permission)
        answer).Silent token' :=
    silent_of_ne fun heq => hne (Option.some.inj heq).symm
  have hrefused (e : SessionError) : After layer owner history env
      (.revokePermission token permission) (mem, .changed (.error e)) :=
    .of_silent htold h (silent_of_error (.inl rfl))
  have htold' (removed : Bool) : Told (history ++ [⟨env.nowMs,
      .revokePermission token permission, .changed (.ok removed)⟩]) := by
    refine htold.snoc (fun _ _ hissue => nomatch hissue) fun _ hnames => ?_
    rcases hnames with hrevokes | ⟨_, _, hgrant⟩
    · cases hrevokes
    · cases hgrant
  unfold SessionStore.revokePermission
  rcases h.getRaw hlayer (env.access 0) token with ⟨m, hraw⟩
    | ⟨hraw, hrow, hgone⟩ | ⟨session, issue, r, hraw, hrow, hholds, hrecords⟩
  · rw [hraw]
    exact hrefused _
  · rw [hraw]
    show After layer owner history env _ (mem, .changed (.ok false))
    refine ⟨htold' false, { h with cells := fun token' => ?_ }⟩
    by_cases htoken : token' = token
    · rw [htoken, show (mem, SessionAnswer.changed (.ok false)).1.rowAt .global
        (sessionKey token) = none from hrow]
      refine ⟨fun _ issue now hnow hissued => ?_, nofun⟩
      rcases issued_snoc.1 hissued with hissued | hissued
      · rw [revoked_snoc]
        exact (hgone issue now hnow hissued).imp .inl id
      · cases hissued
    · exact (h.cells token').silent (hsilent _ token' htoken)
  · rw [hraw]
    dsimp only
    have htaken (removed : Bool) : Records (history ++ [⟨env.nowMs,
        .revokePermission token permission, .changed (.ok removed)⟩]) env.nowMs
        token { session with
          tempGrants := session.tempGrants.filter
            (·.permission ≠ permission) } issue := by
      refine { hrecords with
        issued := issued_snoc.2 (.inl hrecords.issued)
        revoked := ?_
        grants := fun permission' now hnow => ?_ }
      · rw [revoked_snoc]
        exact hrecords.revoked.trans (or_iff_left Bool.false_ne_true).symm
      · have htakes : (Done.mk env.nowMs (.revokePermission token permission)
            (.changed (.ok removed))).takesBack token permission' = false
            ↔ permission' ≠ permission := by
          refine decide_eq_false_iff_not.trans (not_congr ?_)
          exact (and_iff_right rfl).trans eq_comm
        rw [granted_snoc, grantLive_filter,
          hrecords.grants permission' now hnow, htakes]
        refine (or_iff_right fun hgrant => ?_).symm
        obtain ⟨_, hgrant, -⟩ := hgrant
        cases hgrant
    have hkept (removed : Bool) := (htaken removed).evict
    cases hevict : AgentSession.evictExpiredGrants { session with
        tempGrants := session.tempGrants.filter (·.permission ≠ permission) }
        env.nowMs with
    | mk session' evicted =>
      rw [hevict] at hkept
      dsimp only
      split
      · cases hput : SessionStore.put layer mem owner (env.access 1) token
            session' with
        | mk mem' answer =>
          cases answer with
          | error e =>
            obtain ⟨rfl, -⟩ := put_error hput
            exact hrefused e
          | ok u => exact .of_put issue h rfl hput (htold' _) (hkept _)
      · rename_i hsame
        rw [Bool.or_eq_true, not_or, Bool.not_eq_true, Bool.not_eq_true]
          at hsame
        have hnone : { session with tempGrants :=
            session.tempGrants.filter (·.permission ≠ permission) }
            = session := by rw [filter_of_length hsame.1]
        have htaken := htaken (session.tempGrants.length
          != (session.tempGrants.filter (·.permission ≠ permission)).length)
        rw [hnone] at htaken
        refine ⟨htold' _, { h with cells := fun token' => ?_ }⟩
        by_cases htoken : token' = token
        · rw [htoken]
          show Cell layer owner _ _ token
            (mem.rowAt .global (sessionKey token))
          rw [hrow]
          exact ⟨nofun, fun r' hr' => by
            cases hr'
            exact ⟨session, issue, hholds, htaken⟩⟩
        · exact (h.cells token').silent (hsilent _ token' htoken)

theorem revoke_after (hlayer : SessionsReadBack layer) (htold : Told history)
    (h : Keeps layer owner history env.nowMs mem) :
    After layer owner history env (.revoke token)
      ((SessionStore.revoke layer env mem owner token).map id .changed) := by
  have hrefused (e : SessionError) : After layer owner history env
      (.revoke token) (mem, .changed (.error e)) :=
    .of_silent htold h (silent_of_error (.inl rfl))
  unfold SessionStore.revoke
  rcases h.getRaw hlayer (env.access 0) token with ⟨m, hraw⟩ | ⟨hraw, -, -⟩
    | ⟨session, issue, r, hraw, hrow, hholds, hrecords⟩
  · rw [hraw]
    exact hrefused _
  · rw [hraw]
    exact .of_silent htold h fun _ => ⟨rfl, rfl, fun _ => rfl, fun _ => rfl⟩
  · rw [hraw]
    dsimp only
    cases hput : SessionStore.put layer mem owner (env.access 1) token
        { session with revoked := true } with
    | mk mem' answer =>
      cases answer with
      | error e =>
        obtain ⟨rfl, -⟩ := put_error hput
        exact hrefused e
      | ok u =>
        have hrevokes : (Done.mk env.nowMs (.revoke token)
            (.changed (.ok true))).revokes token = true :=
          decide_eq_true rfl
        refine .of_put issue h rfl hput ?_ ?_
        · refine htold.snoc (fun _ _ hissue => nomatch hissue)
            fun token' hnames => ?_
          rcases hnames with hrevokes | ⟨_, _, hgrant⟩
          · exact of_decide_eq_true hrevokes ▸ ⟨issue, hrecords.issued⟩
          · cases hgrant
        · refine { hrecords with
            issued := issued_snoc.2 (.inl hrecords.issued)
            revoked := iff_of_true rfl (revoked_snoc.2 (.inr hrevokes))
            grants := fun permission now hnow => ?_ }
          rw [granted_snoc]
          refine (hrecords.grants permission now hnow).trans ?_
          refine (and_iff_left rfl).symm.trans (or_iff_right ?_).symm
          intro hgrant
          obtain ⟨_, hgrant, -⟩ := hgrant
          cases hgrant

-- ==== the runs

/-- One call more. -/
theorem step_after (hlayer : SessionsReadBack layer) (htold : Told history)
    (h : Keeps layer owner history env.nowMs mem) (op : SessionOp)
    (hfresh : ∀ token, op.generated = some token →
      ∀ issue, ¬ Issued history token issue) (hnamed : op.Named) :
    After layer owner history env op (sessionStep layer owner env mem op) := by
  have hread {op : SessionOp} {r : MemoryStore × SessionAnswer}
      (hkeeps : Keeps layer owner history env.nowMs r.1)
      (hop : ∀ token answer, (Done.mk env.nowMs op answer).Silent token) :
      After layer owner history env op r :=
    .of_silent htold hkeeps fun token => hop token r.2
  cases op with
  | issue agentId parent permissions ttlMs token =>
    exact issue_after htold h (hfresh token rfl) hnamed
  | grantPermission token permission ttlMs =>
    exact grantPermission_after hlayer htold h
  | revokePermission token permission =>
    exact revokePermission_after hlayer htold h
  | revoke token => exact revoke_after hlayer htold h
  | resolve token =>
    exact hread (h.resolve hlayer htold token).1
      fun _ _ => ⟨rfl, rfl, fun _ => rfl, fun _ => rfl⟩
  | findByAgentId agentId =>
    exact hread (h.findByAgentId hlayer agentId)
      fun _ _ => ⟨rfl, rfl, fun _ => rfl, fun _ => rfl⟩
  | list =>
    exact hread (h.list hlayer htold)
      fun _ _ => ⟨rfl, rfl, fun _ => rfl, fun _ => rfl⟩

theorem generated_of_issued (h : Issued history token issue) :
    token ∈ history.filterMap (·.op.generated) := by
  obtain ⟨d, hd, hissue⟩ := h
  refine mem_filterMap.2 ⟨d, hd, ?_⟩
  unfold Done.issueOf at hissue
  split at hissue
  · rename_i hop _
    split at hissue
    · rename_i htoken
      rw [hop, ← htoken]
      rfl
    · cases hissue
  · cases hissue

theorem run_keeps (hlayer : SessionsReadBack layer)
    {calls : List (SessionEnv × SessionOp)} (htold : Told history)
    (h : Keeps layer owner history since mem)
    (hclock : (since :: calls.map (·.1.nowMs)).Pairwise (· ≤ ·))
    (hfresh : (history.filterMap (·.op.generated)
      ++ calls.filterMap (·.2.generated)).Nodup)
    (hnamed : ∀ c ∈ calls, c.2.Named) {last : UInt64} (hsince : since ≤ last)
    (hlast : ∀ c ∈ calls, c.1.nowMs ≤ last) :
    Told (calls.foldl (sessionTell layer owner) (mem, history)).2
      ∧ Keeps layer owner
        (calls.foldl (sessionTell layer owner) (mem, history)).2 last
        (calls.foldl (sessionTell layer owner) (mem, history)).1 := by
  induction calls generalizing mem history since with
  | nil => exact ⟨htold, h.later hsince⟩
  | cons call calls ih =>
    obtain ⟨env, op⟩ := call
    rw [map_cons, pairwise_cons] at hclock
    obtain ⟨hfirst, hclock⟩ := hclock
    have hcons : filterMap (·.2.generated) ((env, op) :: calls)
        = op.generated.toList ++ calls.filterMap (·.2.generated) := by
      rw [filterMap_cons]
      cases op.generated <;> rfl
    rw [hcons] at hfresh
    obtain ⟨htold', hkeeps'⟩ := step_after hlayer htold
      (h.later (hfirst env.nowMs mem_cons_self)) op
      (fun token hop issue hissued => by
        rw [hop] at hfresh
        exact (nodup_append.1 hfresh).2.2 token
          (generated_of_issued hissued) token mem_cons_self rfl)
      (hnamed _ mem_cons_self)
    refine ih htold' hkeeps' hclock ?_
      (fun c hc => hnamed c (mem_cons_of_mem _ hc))
      (hlast _ mem_cons_self)
      fun c hc => hlast c (mem_cons_of_mem _ hc)
    have htold : filterMap (·.op.generated) (history
        ++ [(⟨env.nowMs, op, (sessionStep layer owner env mem op).2⟩ : Done)])
        = history.filterMap (·.op.generated) ++ op.generated.toList := by
      rw [filterMap_append, filterMap_cons]
      cases op.generated <;> rfl
    rw [htold, append_assoc]
    exact hfresh

-- ==== other tokens

section Others

variable {token' : SessionToken} {access : Env}

variable {r : MemoryStore × Except SessionError Unit}

theorem put_other (hne : token' ≠ token)
    (hput : SessionStore.put layer mem owner access token session = r) :
    r.1.rowAt .global (sessionKey token')
      = mem.rowAt .global (sessionKey token') := by
  subst hput
  unfold SessionStore.put
  cases hres : mem.put layer.toValueText access owner .global
      (sessionKey token) (.json session.toValue) .default with
  | mk mem' answer =>
    cases answer with
    | error e =>
      have hsame := MemoryStore.put_error (congrArg Prod.snd hres)
      rw [hres] at hsame
      exact congrArg (MemoryStore.rowAt · _ _) hsame
    | ok version =>
      obtain ⟨-, r, -, hfind⟩ :=
        MemoryStore.put_rowAt (congrArg Prod.snd hres)
      rw [hres] at hfind
      exact (hfind _).trans (if_neg fun heq =>
        hne (sessionKey_inj (Prod.mk.inj heq).2))

theorem delete_other (hne : token' ≠ token)
    (hdelete : SessionStore.delete mem owner access (sessionKey token) = r) :
    r.1.rowAt .global (sessionKey token')
      = mem.rowAt .global (sessionKey token') := by
  subst hdelete
  unfold SessionStore.delete
  cases hres : mem.delete access owner .global (sessionKey token) none with
  | mk mem' answer =>
    cases answer with
    | error e =>
      have hsame := MemoryStore.delete_error (congrArg Prod.snd hres)
      rw [hres] at hsame
      exact congrArg (MemoryStore.rowAt · _ _) hsame
    | ok version =>
      have hfind := MemoryStore.delete_rowAt (congrArg Prod.snd hres)
      rw [hres] at hfind
      exact (hfind _).trans (if_neg fun heq =>
        hne (sessionKey_inj (Prod.mk.inj heq).2))

theorem getRaw_congr {mem' : MemoryStore}
    (h : mem'.rowAt .global (sessionKey token)
      = mem.rowAt .global (sessionKey token)) :
    SessionStore.getRaw layer mem' access token
      = SessionStore.getRaw layer mem access token := by
  have hget : mem'.get layer.toValueText access .global (sessionKey token)
      = mem.get layer.toValueText access .global (sessionKey token) := by
    unfold MemoryStore.rowAt at h
    unfold MemoryStore.get MemoryStore.getRow
    rw [h]
  unfold SessionStore.getRaw
  rw [hget]

theorem step_other (hop : op.token = some token) (hne : token' ≠ token) :
    (sessionStep layer owner env mem op).1.rowAt .global (sessionKey token')
      = mem.rowAt .global (sessionKey token') := by
  cases op with
  | issue agentId parent permissions ttlMs generated =>
    cases hop
    show (SessionStore.issue layer env mem owner agentId parent permissions
      ttlMs token).1.rowAt _ _ = _
    unfold SessionStore.issue
    split
    · rfl
    · dsimp only
      split
      · exact put_other hne ‹_›
      · exact put_other hne ‹_›
  | grantPermission token permission ttlMs =>
    cases hop
    show (SessionStore.grantPermission layer env mem owner token permission
      ttlMs).1.rowAt _ _ = _
    unfold SessionStore.grantPermission
    split
    · rfl
    split
    · rfl
    · rfl
    split
    · rfl
    dsimp only
    split
    · rfl
    · split
      · exact put_other hne ‹_›
      · exact put_other hne ‹_›
  | revokePermission token permission =>
    cases hop
    show (SessionStore.revokePermission layer env mem owner token
      permission).1.rowAt _ _ = _
    unfold SessionStore.revokePermission
    split
    · rfl
    · rfl
    dsimp only
    split
    · split
      · exact put_other hne ‹_›
      · exact put_other hne ‹_›
    · rfl
  | revoke token =>
    cases hop
    show (SessionStore.revoke layer env mem owner token).1.rowAt _ _ = _
    unfold SessionStore.revoke
    split
    · rfl
    · rfl
    · split
      · exact put_other hne ‹_›
      · exact put_other hne ‹_›
  | resolve token =>
    cases hop
    show (SessionStore.resolve layer env mem owner token).1.rowAt _ _ = _
    unfold SessionStore.resolve
    split
    · rfl
    · rfl
    split
    · rfl
    split
    · split
      · exact delete_other hne ‹_›
      · exact delete_other hne ‹_›
    split
    · split
      · exact put_other hne ‹_›
      · exact put_other hne ‹_›
    · rfl
  | findByAgentId agentId => cases hop
  | list => cases hop

end Others

-- ==== the authority

/-- The session of a token that the history lets live. -/
def Authority (history : List Done) (token : SessionToken) (now : UInt64)
    (issue : Issue) : Prop :=
  Issued history token issue ∧ ¬ Revoked history token
    ∧ isOver issue.expiresAtMs now = false

/-- What the history permits: what the session was issued with, and what
was granted to it, is not taken back since and is not over. -/
def Permits (history : List Done) (token : SessionToken) (now : UInt64)
    (issue : Issue) (p : Permission) : Prop :=
  p ∈ issue.permissions
    ∨ ∃ text, Permission.fromToken text = some p
      ∧ Granted history token text now

/-- An answer to `resolve` that is right by the history. -/
structure Resolves (history : List Done) (token : SessionToken)
    (now : UInt64) (result : Except SessionError (Option AgentSession)) :
    Prop where
  lives : ∀ answer, result = .ok answer →
    (answer.isSome = true ↔ ∃ issue, Authority history token now issue)
  session : ∀ session, result = .ok (some session) →
    ∀ issue, Issued history token issue →
      session.agentId = issue.agentId ∧ session.parent = issue.parent
        ∧ ∀ p, p ∈ session.permissionSet
          ↔ Permits history token now issue p
  error : ∀ e, result = .error e → ∃ m, e = .memory m

theorem Records.permits (h : Records history now token session issue)
    (hlive : ∀ g ∈ session.tempGrants, g.isExpired now = false)
    (hnamed : ∀ p ∈ issue.permissions,
      ∃ text, Permission.fromToken text = some p) (p : Permission) :
    p ∈ session.permissionSet ↔ Permits history token now issue p := by
  have hissued : (∃ text ∈ session.permissions,
      Permission.fromToken text = some p) ↔ p ∈ issue.permissions := by
    have hback : ∀ q ∈ issue.permissions,
        Permission.fromToken q.asToken = some q := by
      intro q hq
      obtain ⟨text, htext⟩ := hnamed q hq
      rw [Permission.asToken_of_fromToken htext, htext]
    rw [h.permissions]
    constructor
    · intro hp
      obtain ⟨text, htext, hp⟩ := hp
      obtain ⟨q, hq, rfl⟩ := mem_map.1 htext
      rw [hback q hq] at hp
      exact Option.some.inj hp ▸ hq
    · intro hp
      exact ⟨p.asToken, mem_map.2 ⟨p, hp, rfl⟩, hback p hp⟩
  have hgranted : (∃ text ∈ session.tempGrants.map TempGrant.permission,
      Permission.fromToken text = some p)
      ↔ ∃ text, Permission.fromToken text = some p
        ∧ Granted history token text now := by
    constructor
    · intro hp
      obtain ⟨text, htext, hp⟩ := hp
      obtain ⟨g, hg, rfl⟩ := mem_map.1 htext
      exact ⟨g.permission, hp, (h.grants g.permission now
        (UInt64.le_refl now)).1 ⟨g, hg, rfl, hlive g hg⟩⟩
    · intro hp
      obtain ⟨text, hp, hgranted⟩ := hp
      obtain ⟨g, hg, rfl, -⟩ :=
        (h.grants text now (UInt64.le_refl now)).2 hgranted
      exact ⟨g.permission, mem_map.2 ⟨g, hg, rfl⟩, hp⟩
  unfold AgentSession.permissionSet Permits
  rw [mem_filterMap, ← hissued, ← hgranted]
  simp only [mem_append, or_and_right, exists_or]

theorem Answers.resolves {result : Except SessionError (Option AgentSession)}
    (htold : Told history) (h : Answers history now token result) :
    Resolves history token now result := by
  cases h with
  | refused m =>
    exact ⟨nofun, nofun, fun e he => by
      cases he
      exact ⟨m, rfl⟩⟩
  | gone hgone =>
    refine ⟨fun answer hanswer => ?_, nofun, nofun⟩
    cases hanswer
    refine iff_of_false Bool.false_ne_true fun hauth => ?_
    obtain ⟨issue, hissued, hrevoked, hover⟩ := hauth
    rcases hgone issue now (UInt64.le_refl now) hissued with hdead | hdead
    · exact hrevoked hdead
    · rw [hover] at hdead
      cases hdead
  | alive session issue hrecords hlive hgrants =>
    rw [Bool.or_eq_false_iff] at hlive
    refine ⟨fun answer hanswer => ?_, fun session' hsession issue' hissued =>
      ?_, nofun⟩
    · cases hanswer
      refine iff_of_true rfl ⟨issue, hrecords.issued, fun hrevoked => ?_, ?_⟩
      · rw [hrecords.revoked.2 hrevoked] at hlive
        exact absurd hlive.1 Bool.noConfusion
      · rw [← hrecords.expiresAtMs]
        exact hlive.2
    · cases hsession
      obtain rfl := htold.once token issue issue' hrecords.issued hissued
      exact ⟨hrecords.agentId, hrecords.parent, hrecords.permits hgrants
        (htold.named token issue' hissued)⟩

theorem Keeps.peek (hlayer : SessionsReadBack layer)
    (h : Keeps layer owner history env.nowMs mem)
    (hfault : (env.access 1).fault = none) :
    (∀ peek, peekSession layer (env.access 0) mem token env.nowMs = .ok peek →
      peek ≠ .needsWrite →
        (SessionStore.resolve layer env mem owner token).2 = .ok peek.session)
      ∧ ∀ e, peekSession layer (env.access 0) mem token env.nowMs = .error e →
        (SessionStore.resolve layer env mem owner token).2 = .error e := by
  unfold peekSession SessionStore.resolve
  rcases h.getRaw hlayer (env.access 0) token with ⟨m, hraw⟩ | ⟨hraw, -, -⟩
    | ⟨session, issue, r, hraw, hrow, hholds, hrecords⟩
  · rw [hraw]
    refine ⟨nofun, fun e he => ?_⟩
    cases he
    rfl
  · rw [hraw]
    refine ⟨fun peek hpeek _ => ?_, nofun⟩
    cases hpeek
    rfl
  rw [hraw]
  dsimp only
  by_cases hrevoked : session.revoked = true
  · rw [if_pos (by rw [hrevoked, Bool.true_or]), if_pos hrevoked]
    refine ⟨fun peek hpeek _ => ?_, nofun⟩
    cases hpeek
    rfl
  rw [if_neg hrevoked]
  by_cases hexpired : session.isExpired env.nowMs = true
  · rw [if_pos (by rw [hexpired, Bool.or_true]), if_pos hexpired]
    refine ⟨fun peek hpeek _ => ?_, nofun⟩
    cases hpeek
    have hkey : validateKey (sessionKey token) = .ok () := by
      unfold SessionStore.getRaw at hraw
      split at hraw
      · cases hraw
      · cases hraw
      · rename_i hget
        exact (MemoryStore.get_eq_ok hget).1
    have hdelete : (mem.delete (env.access 1) owner .global
        (sessionKey token) none).2 = .ok () :=
      MemoryStore.delete_own hfault hholds.valid hkey hrow hholds.own
    unfold SessionStore.delete
    cases hres : mem.delete (env.access 1) owner .global (sessionKey token)
        none with
    | mk mem' answer =>
      rw [hres] at hdelete
      cases hdelete
      rfl
  rw [if_neg hexpired, if_neg (by
    rw [Bool.eq_false_iff.2 hrevoked, Bool.eq_false_iff.2 hexpired]
    exact Bool.false_ne_true)]
  by_cases hover : session.tempGrants.any (·.isExpired env.nowMs) = true
  · rw [if_pos hover]
    refine ⟨fun peek hpeek hne => ?_, nofun⟩
    cases hpeek
    exact absurd rfl hne
  · rw [if_neg hover]
    refine ⟨fun peek hpeek _ => ?_, nofun⟩
    cases hpeek
    have hkept : session.tempGrants.filter
        (fun g => !g.isExpired env.nowMs) = session.tempGrants := by
      refine filter_eq_self.2 fun g hg => ?_
      rw [Bool.not_eq_true']
      by_contra hg'
      exact hover (any_eq_true.2 ⟨g, hg, Bool.not_eq_false _ ▸ hg'⟩)
    have hevict : session.evictExpiredGrants env.nowMs = (session, false) := by
      unfold AgentSession.evictExpiredGrants
      dsimp only
      rw [hkept, bne_self_eq_false]
    rw [hevict]
    rfl

/-- No entry of the memory is one that a listing of sessions finds. -/
def NoSessions (mem : MemoryStore) : Prop :=
  ∀ r ∈ mem.memory, r.scope = Scope.global.asToken →
    likePrefix SESSION_KEY_PREFIX r.key = false

theorem NoSessions.keeps (hmem : mem.Faithful) (h : NoSessions mem)
    (since : UInt64) : Keeps layer owner [] since mem where
  faithful := hmem
  cells := fun token => by
    refine ⟨fun _ _ _ _ hissued => absurd hissued not_issued_nil,
      fun r hr => ?_⟩
    · have hkey : r.place = (Scope.global.asToken, sessionKey token) :=
        Table.find_key hr
      have hnone := h r (Table.find_mem hr) (Prod.mk.inj hkey).1
      rw [show r.key = sessionKey token from (Prod.mk.inj hkey).2] at hnone
      unfold likePrefix sessionKey at hnone
      rw [String.toList_append, map_append,
        isPrefixOf_iff_prefix.2 (prefix_append _ _)] at hnone
      cases hnone
  keys := fun r hr hscope hkey => by
    rw [h r hr hscope] at hkey
    cases hkey

/-- A text layer that knows some sessions and their texts. -/
def tableLayer (table : List (AgentSession × List UInt8)) : SessionText where
  toVec v :=
    match (AgentSession.read v).bind (List.lookup · table) with
    | some bytes => .ok bytes
    | none => .error "another value"
  fromSlice bytes :=
    match table.find? (·.2 = bytes) with
    | some (session, _) => .ok session.toValue
    | none => .error "another text"
  utf8Error _ := "not utf8"
  sessionError _ := "no session"

theorem tableLayer_readsBack {table : List (AgentSession × List UInt8)}
    (h : (table.map Prod.snd).Nodup) : SessionsReadBack (tableLayer table) := by
  intro session bytes v hvec hslice
  unfold tableLayer at hvec hslice
  dsimp only at hvec hslice
  rw [session.read_toValue, Option.bind_some] at hvec
  split at hvec
  · rename_i hlookup
    cases hvec
    obtain ⟨before, after, htable, -⟩ := lookup_eq_some_iff.1 hlookup
    have hmem : (session, bytes) ∈ table := by
      rw [htable]
      exact mem_append_right _ mem_cons_self
    split at hslice
    · rename_i session' bytes' hfind
      cases hslice
      have hmem' := mem_of_find?_eq_some hfind
      have hbytes : bytes' = bytes := of_decide_eq_true
        (List.find?_some hfind :)
      rw [(Prod.mk.inj (inj_on_of_nodup_map h hmem' hmem hbytes)).1]
    · cases hslice
  · cases hvec

def zeroToken : SessionToken where
  text := String.ofList (List.replicate 64 '0')
  length := by rw [String.toList_ofList, List.length_replicate]
  digits := fun c hc => by
    rw [String.toList_ofList] at hc
    rw [List.eq_of_mem_replicate hc]
    decide

def issuedSession : AgentSession where
  agentId := "child:1"
  parent := none
  permissions := ["surface.read"]
  tempGrants := []
  createdAtMs := 0
  expiresAtMs := none
  revoked := false

def grantedSession : AgentSession :=
  { issuedSession with tempGrants := [⟨"fs.write", some 1010⟩] }

def sessionTexts : List (AgentSession × List UInt8) :=
  [(issuedSession, asBytes ("\x7b\"agent_id\":\"child:1\","
      ++ "\"created_at_ms\":0,\"expires_at_ms\":null,\"parent\":null,"
      ++ "\"permissions\":[\"surface.read\"],\"revoked\":false,"
      ++ "\"temp_grants\":[]\x7d")),
    (grantedSession, asBytes ("\x7b\"agent_id\":\"child:1\","
      ++ "\"created_at_ms\":0,\"expires_at_ms\":null,\"parent\":null,"
      ++ "\"permissions\":[\"surface.read\"],\"revoked\":false,"
      ++ "\"temp_grants\":[\x7b\"expires_at_ms\":1010,"
      ++ "\"permission\":\"fs.write\"\x7d]\x7d"))]

def clockAt (nowMs : UInt64) : SessionEnv := ⟨nowMs, fun _ => ⟨1, none⟩⟩

def issueAndGrant : List (SessionEnv × SessionOp) :=
  [(clockAt 0, .issue "child:1" none [.surfaceRead] none zeroToken),
    (clockAt 10, .grantPermission zeroToken "fs.write" (some 1000))]

theorem issueAndGrant_named : ∀ c ∈ issueAndGrant, c.2.Named := by
  intro c hc
  rcases mem_cons.1 hc with rfl | hc
  · intro p hp
    rw [mem_singleton.1 hp]
    exact ⟨"surface.read", rfl⟩
  · rw [mem_singleton.1 hc]
    trivial

end Tasty.Ipc
