/-
What the answered calls on sessions say by themselves: which tokens were
issued, which sessions were revoked, and which grants stand. A store keeps
a history when each record is what its history says, up to grants that are
over, and when no record is missing that its history still needs.
-/
import Tasty.Ipc.Session
import Tasty.Memory.Access

namespace Tasty.Ipc

open SessionStore List

open Agent (Value)
open Manifest (Permission)
open Memory

-- ==== the calls

inductive SessionOp where
  | issue (agentId : String) (parent : Option String)
      (permissions : List Permission) (ttlMs : Option UInt64)
      (generated : SessionToken)
  | grantPermission (token : SessionToken) (permission : String)
      (ttlMs : Option UInt64)
  | revokePermission (token : SessionToken) (permission : String)
  | revoke (token : SessionToken)
  | resolve (token : SessionToken)
  | findByAgentId (agentId : String)
  | list

inductive SessionAnswer where
  | issued (r : Except SessionError (SessionToken × AgentSession))
  | changed (r : Except SessionError Bool)
  | resolved (r : Except SessionError (Option AgentSession))
  | found (r : Except SessionError (Option (SessionToken × AgentSession)))
  | listed (r : Except SessionError (List AgentSession))

namespace SessionOp

/-- The token that a call is about, if it is about one. -/
def token : SessionOp → Option SessionToken
  | issue _ _ _ _ generated => some generated
  | grantPermission token _ _ => some token
  | revokePermission token _ => some token
  | revoke token => some token
  | resolve token => some token
  | findByAgentId _ => none
  | list => none

/-- The token that a call draws. -/
def generated : SessionOp → Option SessionToken
  | issue _ _ _ _ generated => some generated
  | _ => none

/-- The permissions that a session is issued with have tokens. -/
def Named : SessionOp → Prop
  | issue _ _ permissions _ _ =>
    ∀ p ∈ permissions, ∃ text, Permission.fromToken text = some p
  | _ => True

end SessionOp

def sessionStep (layer : SessionText) (owner : String) (env : SessionEnv)
    (mem : MemoryStore) : SessionOp → MemoryStore × SessionAnswer
  | .issue agentId parent permissions ttlMs generated =>
    (SessionStore.issue layer env mem owner agentId parent permissions
      ttlMs generated).map id .issued
  | .grantPermission token permission ttlMs =>
    (SessionStore.grantPermission layer env mem owner token permission
      ttlMs).map id .changed
  | .revokePermission token permission =>
    (SessionStore.revokePermission layer env mem owner token
      permission).map id .changed
  | .revoke token =>
    (SessionStore.revoke layer env mem owner token).map id .changed
  | .resolve token =>
    (SessionStore.resolve layer env mem owner token).map id .resolved
  | .findByAgentId agentId =>
    (SessionStore.findByAgentId layer env mem owner agentId).map id .found
  | .list => (SessionStore.list layer env mem owner).map id .listed

/-- A call that has been answered. -/
structure Done where
  nowMs : UInt64
  op : SessionOp
  answer : SessionAnswer

/-- A call on a memory, and the history with its answer. -/
def sessionTell (layer : SessionText) (owner : String)
    (state : MemoryStore × List Done) (call : SessionEnv × SessionOp) :
    MemoryStore × List Done :=
  let r := sessionStep layer owner call.1 state.1 call.2
  (r.1, state.2 ++ [⟨call.1.nowMs, call.2, r.2⟩])

/-- A run of calls with what they were answered. -/
def sessionRun (layer : SessionText) (owner : String) (mem : MemoryStore)
    (calls : List (SessionEnv × SessionOp)) : MemoryStore × List Done :=
  calls.foldl (sessionTell layer owner) (mem, [])

-- ==== the history

/-- What a session was issued with. -/
structure Issue where
  agentId : String
  parent : Option String
  permissions : List Permission
  expiresAtMs : Option UInt64

namespace Done

variable (d : Done) (token : SessionToken) (permission : String)

def issueOf : Option Issue :=
  match d.op, d.answer with
  | .issue agentId parent permissions ttlMs generated, .issued (.ok _) =>
    if generated = token then
      some ⟨agentId, parent, permissions, expiryOf ttlMs d.nowMs⟩
    else none
  | _, _ => none

/-- The expiry of a grant that was made. -/
def grantOf : Option (Option UInt64) :=
  match d.op, d.answer with
  | .grantPermission token' permission' ttlMs, .changed (.ok true) =>
    if token' = token ∧ permission' = permission then
      some (expiryOf ttlMs d.nowMs)
    else none
  | _, _ => none

/-- A grant that was revoked, or that there was none of. -/
def takesBack : Bool :=
  match d.op, d.answer with
  | .revokePermission token' permission', .changed (.ok _) =>
    token' = token ∧ permission' = permission
  | _, _ => false

def revokes : Bool :=
  match d.op, d.answer with
  | .revoke token', .changed (.ok true) => token' = token
  | _, _ => false

/-- A call that says nothing of a token. -/
structure Silent : Prop where
  issueOf : d.issueOf token = none
  revokes : d.revokes token = false
  grantOf : ∀ permission, d.grantOf token permission = none
  takesBack : ∀ permission, d.takesBack token permission = false

end Done

variable {history : List Done} {d : Done} {token : SessionToken}
  {permission : String} {now since : UInt64}

def Issued (history : List Done) (token : SessionToken) (issue : Issue) :
    Prop :=
  ∃ d ∈ history, d.issueOf token = some issue

def Revoked (history : List Done) (token : SessionToken) : Prop :=
  ∃ d ∈ history, d.revokes token = true

/-- A grant that has not been revoked since and is not over. -/
def Granted (history : List Done) (token : SessionToken)
    (permission : String) (now : UInt64) : Prop :=
  ∃ earlier d later expiry, history = earlier ++ d :: later
    ∧ d.grantOf token permission = some expiry ∧ isOver expiry now = false
    ∧ ∀ d' ∈ later, d'.takesBack token permission = false

theorem issued_snoc {issue : Issue} :
    Issued (history ++ [d]) token issue
      ↔ Issued history token issue ∨ d.issueOf token = some issue := by
  simp [Issued, or_and_right, exists_or]

theorem revoked_snoc :
    Revoked (history ++ [d]) token
      ↔ Revoked history token ∨ d.revokes token = true := by
  simp [Revoked, or_and_right, exists_or]

theorem granted_snoc :
    Granted (history ++ [d]) token permission now
      ↔ (∃ expiry, d.grantOf token permission = some expiry
          ∧ isOver expiry now = false)
        ∨ Granted history token permission now
          ∧ d.takesBack token permission = false := by
  constructor
  · intro h
    obtain ⟨earlier, d', later, expiry, heq, hgrant, hover, hkept⟩ := h
    rcases eq_nil_or_concat later with rfl | ⟨later', last, rfl⟩
    · obtain ⟨-, hd⟩ := append_inj' heq rfl
      cases hd
      exact .inl ⟨expiry, hgrant, hover⟩
    · rw [concat_eq_append] at heq hkept
      have hsplit : history ++ [d] = (earlier ++ d' :: later') ++ [last] := by
        rw [heq, append_assoc, cons_append]
      obtain ⟨hhistory, hlast⟩ := append_inj' hsplit rfl
      cases hlast
      refine .inr ⟨⟨earlier, d', later', expiry, hhistory, hgrant, hover,
        fun x hx => hkept x (mem_append_left _ hx)⟩, ?_⟩
      exact hkept d (mem_append_right _ mem_cons_self)
  · intro h
    rcases h with ⟨expiry, hgrant, hover⟩ | ⟨h, htakes⟩
    · exact ⟨history, d, [], expiry, rfl, hgrant, hover, fun _ hx => nomatch hx⟩
    · obtain ⟨earlier, d', later, expiry, rfl, hgrant, hover, hkept⟩ := h
      refine ⟨earlier, d', later ++ [d], expiry, ?_, hgrant, hover, ?_⟩
      · rw [append_assoc, cons_append]
      · intro x hx
        rcases mem_append.1 hx with hx | hx
        · exact hkept x hx
        · rw [mem_singleton.1 hx]
          exact htakes

theorem isOver_mono {expiry : Option UInt64} (hle : since ≤ now)
    (h : isOver expiry since = true) : isOver expiry now = true := by
  unfold isOver at h ⊢
  cases expiry with
  | none => cases h
  | some exp =>
    have hexp : exp ≤ since := of_decide_eq_true h
    exact decide_eq_true (UInt64.le_trans hexp hle)

-- ==== what a record says

/-- A grant of this permission that is not over. -/
def GrantLive (grants : List TempGrant) (permission : String)
    (now : UInt64) : Prop :=
  ∃ g ∈ grants, g.permission = permission ∧ g.isExpired now = false

/-- A record is what the history says of its token, from a time on. -/
structure Records (history : List Done) (since : UInt64)
    (token : SessionToken) (session : AgentSession) (issue : Issue) :
    Prop where
  issued : Issued history token issue
  agentId : session.agentId = issue.agentId
  parent : session.parent = issue.parent
  permissions : session.permissions
    = issue.permissions.map Permission.asToken
  expiresAtMs : session.expiresAtMs = issue.expiresAtMs
  revoked : session.revoked = true ↔ Revoked history token
  grants : ∀ permission now, since ≤ now →
    (GrantLive session.tempGrants permission now
      ↔ Granted history token permission now)

/-- The history has nothing that lives of this token. -/
def Gone (history : List Done) (since : UInt64) (token : SessionToken) :
    Prop :=
  ∀ issue now, since ≤ now → Issued history token issue →
    Revoked history token ∨ isOver issue.expiresAtMs now = true

section Silence

variable {session : AgentSession} {issue : Issue}

theorem Records.later {since' : UInt64}
    (h : Records history since token session issue) (hle : since ≤ since') :
    Records history since' token session issue :=
  { h with
    grants := fun permission now hnow =>
      h.grants permission now (UInt64.le_trans hle hnow) }

theorem Gone.later {since' : UInt64} (h : Gone history since token)
    (hle : since ≤ since') : Gone history since' token :=
  fun issue now hnow => h issue now (UInt64.le_trans hle hnow)

theorem Records.silent (h : Records history since token session issue)
    (hd : d.Silent token) :
    Records (history ++ [d]) since token session issue :=
  { h with
    issued := issued_snoc.2 (.inl h.issued)
    revoked := by
      rw [revoked_snoc, hd.revokes, h.revoked]
      simp
    grants := fun permission now hnow => by
      rw [granted_snoc, hd.grantOf, hd.takesBack, h.grants permission now hnow]
      simp }

theorem Gone.silent (h : Gone history since token) (hd : d.Silent token) :
    Gone (history ++ [d]) since token := by
  intro issue now hnow hissued
  rw [issued_snoc, hd.issueOf] at hissued
  rw [revoked_snoc, hd.revokes]
  simpa using h issue now hnow (hissued.resolve_right nofun)

theorem Records.gone (h : Records history since token session issue)
    (hunique : ∀ issue', Issued history token issue' → issue' = issue)
    (hdead : (session.revoked || session.isExpired since) = true) :
    Gone history since token := by
  intro issue' now hnow hissued
  rw [hunique issue' hissued, ← h.expiresAtMs]
  rcases Bool.or_eq_true_iff.1 hdead with hrevoked | hexpired
  · exact .inl (h.revoked.1 hrevoked)
  · exact .inr (isOver_mono hnow hexpired)

-- ==== what calls make of it

variable {grants : List TempGrant}

theorem grantLive_evict (hle : since ≤ now) :
    GrantLive (grants.filter fun g => !g.isExpired since) permission now
      ↔ GrantLive grants permission now := by
  constructor
  · intro h
    obtain ⟨g, hg, hp, hlive⟩ := h
    exact ⟨g, (mem_filter.1 hg).1, hp, hlive⟩
  · intro h
    obtain ⟨g, hg, hp, hlive⟩ := h
    refine ⟨g, mem_filter.2 ⟨hg, ?_⟩, hp, hlive⟩
    rw [Bool.not_eq_true']
    by_contra hover
    have hlater : g.isExpired now = true :=
      isOver_mono hle (Bool.not_eq_false _ ▸ hover)
    rw [hlater] at hlive
    cases hlive

theorem Records.evict (h : Records history since token session issue) :
    Records history since token (session.evictExpiredGrants since).1 issue :=
  { h with
    grants := fun permission now hnow =>
      (grantLive_evict hnow).trans (h.grants permission now hnow) }

theorem isOver_laterExpiry {a b : Option UInt64} :
    isOver (laterExpiry a b) now = false
      ↔ isOver a now = false ∨ isOver b now = false := by
  cases a with
  | none => simp [laterExpiry, isOver]
  | some a =>
    cases b with
    | none => simp [laterExpiry, isOver]
    | some b =>
      simp only [laterExpiry, isOver, decide_eq_false_iff_not]
      rw [show max a b = if a ≤ b then b else a from rfl]
      by_cases hab : a ≤ b
      · rw [if_pos hab]
        rw [UInt64.le_iff_toNat_le] at hab
        simp only [UInt64.le_iff_toNat_le]
        omega
      · rw [if_neg hab]
        rw [UInt64.le_iff_toNat_le] at hab
        simp only [UInt64.le_iff_toNat_le]
        omega

theorem grantLive_mergeGrant {merged : String} {expiry : Option UInt64} :
    GrantLive (mergeGrant merged expiry grants) permission now
      ↔ (merged = permission ∧ isOver expiry now = false)
        ∨ GrantLive grants permission now := by
  induction grants with
  | nil => simp [mergeGrant, GrantLive, TempGrant.isExpired]
  | cons g rest ih =>
    unfold mergeGrant
    have hcons (g : TempGrant) (rest : List TempGrant) :
        GrantLive (g :: rest) permission now
          ↔ (g.permission = permission ∧ g.isExpired now = false)
            ∨ GrantLive rest permission now := by
      simp [GrantLive]
    by_cases hg : g.permission = merged
    · rw [if_pos hg, hcons, hcons]
      have hmerge : isOver (laterExpiry g.expiresAtMs expiry)
          now = false ↔ g.isExpired now = false
            ∨ isOver expiry now = false := isOver_laterExpiry
      show (g.permission = permission ∧ isOver _ now = false) ∨ _ ↔ _
      rw [hmerge, hg]
      tauto
    · rw [if_neg hg, hcons, hcons, ih]
      tauto

theorem grantLive_filter {taken : String} :
    GrantLive (grants.filter (·.permission ≠ taken)) permission now
      ↔ GrantLive grants permission now ∧ permission ≠ taken := by
  constructor
  · intro h
    obtain ⟨g, hg, rfl, hlive⟩ := h
    obtain ⟨hg, hne⟩ := mem_filter.1 hg
    exact ⟨⟨g, hg, rfl, hlive⟩, of_decide_eq_true hne⟩
  · intro h
    obtain ⟨⟨g, hg, rfl, hlive⟩, hne⟩ := h
    exact ⟨g, mem_filter.2 ⟨hg, decide_eq_true hne⟩, rfl, hlive⟩

end Silence

end Tasty.Ipc
