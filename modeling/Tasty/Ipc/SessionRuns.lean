/-
Whatever calls come in whatever order, the memory keeps their history: no
record of a token says more than its history, and none says less.
-/
import Tasty.Ipc.SessionHistory
import Tasty.Memory.PlanRuns

namespace Tasty.Ipc

open SessionStore List

open Agent (Value)
open Manifest (Permission)
open Memory

-- ==== keys and tokens

theorem SessionToken.parse_text (token : SessionToken) :
    SessionToken.parse token.text = some token := by
  have hall : token.text.toList.all isAsciiHexdigit = true := by
    refine all_eq_true.2 fun c hc => ?_
    unfold isAsciiHexdigit
    rw [contains_iff_mem.2 (token.digits c hc), Bool.true_or]
  have hlower : token.text.toList.map Char.toLower = token.text.toList := by
    have hdigits : lowerHexDigits.map Char.toLower = lowerHexDigits.map id := by
      decide +kernel
    rw [map_congr_left (g := id) fun c hc =>
      map_inj_left.1 hdigits c (token.digits c hc), map_id]
  unfold SessionToken.parse
  rw [dif_pos ⟨token.length, hall⟩]
  congr 1
  cases token
  simp only [SessionToken.mk.injEq]
  rw [hlower, String.ofList_toList]

theorem tokenOfKey_sessionKey (token : SessionToken) :
    tokenOfKey (sessionKey token) = some token := by
  unfold tokenOfKey sessionKey
  rw [stripPrefix_append]
  exact token.parse_text

theorem sessionKey_inj {token token' : SessionToken}
    (h : sessionKey token = sessionKey token') : token = token' := by
  have hsome := congrArg tokenOfKey h
  rw [tokenOfKey_sessionKey, tokenOfKey_sessionKey] at hsome
  exact Option.some.inj hsome

-- ==== a session is read as written

theorem readOptional_ofOption {α : Type} {read : Value → Option α}
    {write : α → Value} (o : Option α) (record : Value)
    (hread : ∀ a, read (write a) = some a) (hnull : ∀ a, write a ≠ .null) :
    readOptional record read (some (ofOption write o)) = some o := by
  cases o with
  | none => rfl
  | some a =>
    show readOption read (write a) = some (some a)
    unfold readOption
    split
    · rename_i heq
      exact absurd heq (hnull a)
    · rw [hread]
      rfl

theorem TempGrant.read_toValue (g : TempGrant) :
    TempGrant.read g.toValue = some g := by
  have hexpiry := readOptional_ofOption g.expiresAtMs g.toValue
    (fun _ => rfl : ∀ a, readU64 (ofU64 a) = some a) (fun _ => nofun)
  unfold TempGrant.read
  unfold TempGrant.toValue at hexpiry ⊢
  simp [fieldsOf, lookup_cons, readString, hexpiry]

theorem AgentSession.read_toValue (s : AgentSession) :
    AgentSession.read s.toValue = some s := by
  have hpermissions : readStrings (.array (s.permissions.map .string))
      = some s.permissions := mapM_map_eq_some _ fun _ _ => rfl
  have hgrants : readGrants (.array (s.tempGrants.map TempGrant.toValue))
      = some s.tempGrants :=
    mapM_map_eq_some _ fun g _ => g.read_toValue
  have hparent := readOptional_ofOption s.parent s.toValue
    (fun _ => rfl : ∀ a, readString (.string a) = some a) (fun _ => nofun)
  have hexpiry := readOptional_ofOption s.expiresAtMs s.toValue
    (fun _ => rfl : ∀ a, readU64 (ofU64 a) = some a) (fun _ => nofun)
  obtain ⟨field, hfields, hfield⟩ : ∃ field : String → Option Value,
      fieldsOf ["agent_id", "parent", "permissions", "temp_grants",
        "created_at_ms", "expires_at_ms", "revoked"] s.toValue = some field
      ∧ field "agent_id" = some (.string s.agentId)
      ∧ field "parent" = some (ofOption .string s.parent)
      ∧ field "permissions" = some (.array (s.permissions.map .string))
      ∧ field "temp_grants"
        = some (.array (s.tempGrants.map TempGrant.toValue))
      ∧ field "created_at_ms" = some (ofU64 s.createdAtMs)
      ∧ field "expires_at_ms" = some (ofOption ofU64 s.expiresAtMs)
      ∧ field "revoked" = some (.bool s.revoked) :=
    ⟨_, rfl, rfl, rfl, rfl, rfl, rfl, rfl, rfl⟩
  obtain ⟨h₁, h₂, h₃, h₄, h₅, h₆, h₇⟩ := hfield
  unfold AgentSession.read
  simp only [hfields, h₁, h₂, h₃, h₄, h₅, h₆, h₇, hparent, hexpiry, hgrants,
    hpermissions, Option.bind_eq_bind, Option.bind_some, readString, readOr,
    readBool]
  rfl

/-- The text of a session is read as the value it was written for. -/
def SessionsReadBack (layer : SessionText) : Prop :=
  ∀ (s : AgentSession) bytes v, layer.toVec s.toValue = .ok bytes →
    layer.fromSlice bytes = .ok v → v = s.toValue

-- ==== the records

/-- A row that holds a session. -/
structure Holds (layer : SessionText) (owner : String) (r : Row)
    (session : AgentSession) : Prop where
  contentType : r.contentType = "application/json"
  bytes : layer.toVec session.toValue = .ok r.value
  expiresAt : r.expiresAt = none
  own : r.owner = owner
  valid : validateOwner owner = .ok ()

/-- What is stored of a token is what the history says of it. -/
structure Cell (layer : SessionText) (owner : String) (history : List Done)
    (since : UInt64) (token : SessionToken) (row : Option Row) : Prop where
  missing : row = none → Gone history since token
  stored : ∀ r, row = some r → ∃ session issue, Holds layer owner r session
    ∧ Records history since token session issue

/-- The memory keeps a history: each token has its cell, and all that a
listing finds are sessions. -/
structure Keeps (layer : SessionText) (owner : String) (history : List Done)
    (since : UInt64) (mem : MemoryStore) : Prop where
  faithful : mem.Faithful
  cells : ∀ token, Cell layer owner history since token
    (mem.rowAt .global (sessionKey token))
  keys : ∀ r ∈ mem.memory, r.scope = Scope.global.asToken →
    likePrefix SESSION_KEY_PREFIX r.key = true →
      ∃ token, r.key = sessionKey token

/-- A token is issued once and before anything is said of it, and with
permissions that have tokens. -/
structure Told (history : List Done) : Prop where
  once : ∀ token issue issue', Issued history token issue →
    Issued history token issue' → issue' = issue
  known : ∀ d ∈ history, ∀ token, (d.revokes token = true
    ∨ ∃ permission expiry, d.grantOf token permission = some expiry) →
      ∃ issue, Issued history token issue
  named : ∀ token issue, Issued history token issue →
    ∀ p ∈ issue.permissions, ∃ text, Permission.fromToken text = some p

section Keeping

variable {layer : SessionText} {owner : String} {history : List Done}
  {d : Done} {token : SessionToken} {since : UInt64} {mem : MemoryStore}
  {access : Env}

variable {row : Option Row}

theorem Cell.later {since' : UInt64}
    (h : Cell layer owner history since token row) (hle : since ≤ since') :
    Cell layer owner history since' token row where
  missing := fun hrow => (h.missing hrow).later hle
  stored := fun r hr => by
    obtain ⟨session, issue, hholds, hrecords⟩ := h.stored r hr
    exact ⟨session, issue, hholds, hrecords.later hle⟩

theorem Cell.silent (h : Cell layer owner history since token row)
    (hd : d.Silent token) :
    Cell layer owner (history ++ [d]) since token row where
  missing := fun hrow => (h.missing hrow).silent hd
  stored := fun r hr => by
    obtain ⟨session, issue, hholds, hrecords⟩ := h.stored r hr
    exact ⟨session, issue, hholds, hrecords.silent hd⟩

theorem Keeps.later {since' : UInt64}
    (h : Keeps layer owner history since mem) (hle : since ≤ since') :
    Keeps layer owner history since' mem :=
  { h with cells := fun token => (h.cells token).later hle }

-- ==== the reads

theorem Holds.entry (hlayer : SessionsReadBack layer) {r : Row}
    {session : AgentSession} {entry : MemoryEntry}
    (h : Holds layer owner r session)
    (he : r.entry layer.toValueText false = .ok entry) :
    entry.key = r.key ∧ entry.value = .json session.toValue := by
  unfold Row.entry MemoryValue.fromDb at he
  rw [h.contentType, if_neg (by decide), if_pos rfl] at he
  cases hslice : layer.fromSlice r.value with
  | error text =>
    rw [hslice] at he
    cases he
  | ok v =>
    rw [hslice] at he
    obtain rfl := hlayer session r.value v h.bytes hslice
    cases he
    exact ⟨rfl, rfl⟩

theorem Keeps.getRaw (hlayer : SessionsReadBack layer)
    (h : Keeps layer owner history since mem) (access : Env)
    (token : SessionToken) :
    (∃ m, SessionStore.getRaw layer mem access token = .error (.memory m))
      ∨ SessionStore.getRaw layer mem access token = .ok none
        ∧ mem.rowAt .global (sessionKey token) = none
        ∧ Gone history since token
      ∨ ∃ session issue r,
        SessionStore.getRaw layer mem access token = .ok (some session)
        ∧ mem.rowAt .global (sessionKey token) = some r
        ∧ Holds layer owner r session
        ∧ Records history since token session issue := by
  unfold SessionStore.getRaw
  cases hget : mem.get layer.toValueText access .global
      (sessionKey token) with
  | error m => exact .inl ⟨m, rfl⟩
  | ok entry =>
    cases hrow : mem.rowAt .global (sessionKey token) with
    | none =>
      obtain rfl := MemoryStore.get_of_none hget hrow
      exact .inr (.inl ⟨rfl, rfl, (h.cells token).missing hrow⟩)
    | some r =>
      obtain ⟨session, issue, hholds, hrecords⟩ :=
        (h.cells token).stored r hrow
      have hlive : r.isExpired access.now = false := by
        unfold Row.isExpired
        rw [hholds.expiresAt]
      obtain ⟨e, rfl, he⟩ := MemoryStore.get_of_some hget hrow hlive
      dsimp only
      rw [(hholds.entry hlayer he).2]
      dsimp only
      rw [session.read_toValue]
      exact .inr (.inr ⟨session, issue, r, rfl, rfl, hholds, hrecords⟩)

-- ==== the writes

variable {history' : List Done}

theorem Keeps.written {mem' : MemoryStore}
    (h : Keeps layer owner history since mem) (hfaithful : mem'.Faithful)
    (hfind : ∀ k, Table.find Row.place k mem'.memory
      = if k = (Scope.global.asToken, sessionKey token) then row
        else Table.find Row.place k mem.memory)
    (hrow : Cell layer owner history' since token row)
    (hothers : ∀ token', token' ≠ token → Cell layer owner history' since token'
        (mem.rowAt .global (sessionKey token'))) :
    Keeps layer owner history' since mem' where
  faithful := hfaithful
  cells := fun token' => by
    have hcell : mem'.rowAt .global (sessionKey token')
        = if token' = token then row
          else mem.rowAt .global (sessionKey token') := by
      unfold MemoryStore.rowAt
      rw [hfind]
      by_cases htoken : token' = token
      · rw [htoken, if_pos rfl, if_pos rfl]
      · rw [if_neg htoken,
          if_neg fun heq => htoken (sessionKey_inj (Prod.mk.inj heq).2)]
    rw [hcell]
    by_cases htoken : token' = token
    · rw [if_pos htoken, htoken]
      exact hrow
    · rw [if_neg htoken]
      exact hothers token' htoken
  keys := fun r hr hscope hkey => by
    have hr' := hfaithful.unique.find_eq_some.2 ⟨hr, rfl⟩
    rw [hfind] at hr'
    by_cases hplace : r.place = (Scope.global.asToken, sessionKey token)
    · exact ⟨token, (Prod.mk.inj hplace).2⟩
    · rw [if_neg hplace] at hr'
      exact h.keys r (Table.find_mem hr') hscope hkey

variable {session : AgentSession}

theorem Keeps.put {issue : Issue} (h : Keeps layer owner history since mem)
    (hrecords : Records history' since token session issue)
    (hothers : ∀ token', token' ≠ token → Cell layer owner history' since token'
        (mem.rowAt .global (sessionKey token')))
    (hput : (SessionStore.put layer mem owner access token session).2
      = .ok ()) :
    Keeps layer owner history' since
      (SessionStore.put layer mem owner access token session).1 := by
  unfold SessionStore.put at hput ⊢
  have hfaithful : (mem.put layer.toValueText access owner .global
      (sessionKey token) (.json session.toValue) .default).1.Faithful :=
    MemoryStore.put_wrote.faithful h.faithful
  cases hres : mem.put layer.toValueText access owner .global
      (sessionKey token) (.json session.toValue) .default with
  | mk mem' answer =>
    rw [hres] at hput hfaithful
    cases answer with
    | error e => cases hput
    | ok version =>
      obtain ⟨hvalid, r, hr, hfind⟩ :=
        MemoryStore.put_rowAt (congrArg Prod.snd hres)
      rw [hres] at hfind
      refine h.written hfaithful hfind ⟨nofun, fun r' hr' => ?_⟩ hothers
      cases hr'
      refine ⟨session, issue, ⟨hr.contentType, hr.bytes, hr.expiresAt, ?_,
        hvalid⟩, hrecords⟩
      rcases hr.owner with hown | ⟨old, hold, hown⟩
      · exact hown
      · obtain ⟨_, _, hholds, -⟩ := (h.cells token).stored old hold
        exact hown.trans hholds.own

theorem put_error {mem' : MemoryStore} {e : SessionError}
    (hput : SessionStore.put layer mem owner access token session
      = (mem', .error e)) : mem' = mem ∧ ∃ m, e = .memory m := by
  unfold SessionStore.put at hput
  cases hres : mem.put layer.toValueText access owner .global
      (sessionKey token) (.json session.toValue) .default with
  | mk mem' answer =>
    rw [hres] at hput
    cases answer with
    | ok version => cases hput
    | error m =>
      cases hput
      have hsame := MemoryStore.put_error (congrArg Prod.snd hres)
      rw [hres] at hsame
      exact ⟨hsame, m, rfl⟩

/-- Writing a record again, whether the memory takes it or not. -/
theorem Keeps.rewrite {issue : Issue} (h : Keeps layer owner history since mem)
    (hrecords : Records history since token session issue) (access : Env) :
    Keeps layer owner history since
      (SessionStore.put layer mem owner access token session).1 := by
  cases hput : SessionStore.put layer mem owner access token session with
  | mk mem' answer =>
    cases answer with
    | ok u =>
      have hkeeps := h.put hrecords (fun token' _ => h.cells token')
        (congrArg Prod.snd hput)
      rwa [hput] at hkeeps
    | error e => exact (put_error hput).1 ▸ h

theorem delete_error {key : String} {e : SessionError}
    (hdelete : (SessionStore.delete mem owner access key).2 = .error e) :
    (SessionStore.delete mem owner access key).1 = mem
      ∧ ∃ m, e = .memory m := by
  unfold SessionStore.delete at hdelete ⊢
  cases hres : mem.delete access owner .global key none with
  | mk mem' answer =>
    rw [hres] at hdelete
    cases answer with
    | ok u => cases hdelete
    | error m =>
      cases hdelete
      have hsame := MemoryStore.delete_error (congrArg Prod.snd hres)
      rw [hres] at hsame
      exact ⟨hsame, m, rfl⟩

theorem Keeps.delete (h : Keeps layer owner history since mem)
    (hgone : Gone history since token) (access : Env) :
    Keeps layer owner history since
      (SessionStore.delete mem owner access (sessionKey token)).1 := by
  cases hdelete : (SessionStore.delete mem owner access
      (sessionKey token)).2 with
  | error e =>
    rw [(delete_error hdelete).1]
    exact h
  | ok u =>
    have hfaithful : (mem.delete access owner .global (sessionKey token)
        none).1.Faithful := MemoryStore.delete_wrote.faithful h.faithful
    unfold SessionStore.delete at hdelete ⊢
    cases hres : mem.delete access owner .global (sessionKey token)
        none with
    | mk mem' answer =>
      rw [hres] at hdelete hfaithful
      cases answer with
      | error m => cases hdelete
      | ok u =>
        have hfind := MemoryStore.delete_rowAt (congrArg Prod.snd hres)
        rw [hres] at hfind
        exact h.written hfaithful hfind ⟨fun _ => hgone, nofun⟩
          fun token' _ => h.cells token'

-- ==== the calls

/-- What a session may answer of a token: nothing where the history has
nothing, or its record without the grants that are over. -/
inductive Answers (history : List Done) (now : UInt64)
    (token : SessionToken) : Except SessionError (Option AgentSession) → Prop
  | refused (m : MemoryError) : Answers history now token (.error (.memory m))
  | gone (h : Gone history now token) : Answers history now token (.ok none)
  | alive (session : AgentSession) (issue : Issue)
      (records : Records history now token session issue)
      (live : (session.revoked || session.isExpired now) = false)
      (grants : ∀ g ∈ session.tempGrants, g.isExpired now = false) :
      Answers history now token (.ok (some session))

theorem evict_live (session : AgentSession) (now : UInt64) :
    ∀ g ∈ (session.evictExpiredGrants now).1.tempGrants,
      g.isExpired now = false := by
  intro g hg
  have hlive := (mem_filter.1 hg).2
  rwa [Bool.not_eq_true'] at hlive

variable {env : SessionEnv}

theorem Keeps.resolve (hlayer : SessionsReadBack layer)
    (htold : Told history) (h : Keeps layer owner history env.nowMs mem)
    (token : SessionToken) :
    Keeps layer owner history env.nowMs
        (SessionStore.resolve layer env mem owner token).1
      ∧ Answers history env.nowMs token
        (SessionStore.resolve layer env mem owner token).2 := by
  unfold SessionStore.resolve
  rcases h.getRaw hlayer (env.access 0) token with ⟨m, hraw⟩ | ⟨hraw, -, hgone⟩
    | ⟨session, issue, r, hraw, hrow, hholds, hrecords⟩
  · rw [hraw]
    exact ⟨h, .refused m⟩
  · rw [hraw]
    exact ⟨h, .gone hgone⟩
  · rw [hraw]
    dsimp only
    have hunique := fun issue' => htold.once token issue issue' hrecords.issued
    by_cases hrevoked : session.revoked = true
    · rw [if_pos hrevoked]
      exact ⟨h, .gone (hrecords.gone hunique (by rw [hrevoked, Bool.true_or]))⟩
    rw [if_neg hrevoked]
    by_cases hexpired : session.isExpired env.nowMs = true
    · rw [if_pos hexpired]
      have hgone := hrecords.gone hunique (by rw [hexpired, Bool.or_true])
      have hkeeps := h.delete hgone (env.access 1)
      cases hdelete : SessionStore.delete mem owner (env.access 1)
          (sessionKey token) with
      | mk mem' answer =>
        rw [hdelete] at hkeeps
        cases answer with
        | ok u => exact ⟨hkeeps, .gone hgone⟩
        | error e =>
          obtain ⟨-, m, rfl⟩ :=
            delete_error (congrArg Prod.snd hdelete)
          exact ⟨hkeeps, .refused m⟩
    rw [if_neg hexpired]
    have hlive : (session.revoked || session.isExpired env.nowMs) = false := by
      rw [Bool.eq_false_iff.2 hrevoked, Bool.eq_false_iff.2 hexpired]
      rfl
    have hkept := hrecords.evict
    have hfresh := evict_live session env.nowMs
    have hlive' : ((session.evictExpiredGrants env.nowMs).1.revoked
        || (session.evictExpiredGrants env.nowMs).1.isExpired env.nowMs)
        = false := hlive
    cases hevict : session.evictExpiredGrants env.nowMs with
    | mk session' evicted =>
      rw [hevict] at hkept hfresh hlive'
      cases evicted with
      | false => exact ⟨h, .alive session' issue hkept hlive' hfresh⟩
      | true =>
        have hkeeps := h.rewrite hkept (env.access 1)
        dsimp only
        cases hput : SessionStore.put layer mem owner (env.access 1) token
            session' with
        | mk mem' answer =>
          rw [hput] at hkeeps
          cases answer with
          | ok u =>
            exact ⟨hkeeps, .alive session' issue hkept hlive' hfresh⟩
          | error e =>
            obtain ⟨-, m, rfl⟩ := put_error hput
            exact ⟨hkeeps, .refused m⟩

/-- An entry that holds a session holds the record of its token. -/
def Listing (history : List Done) (since : UInt64) (entry : MemoryEntry) :
    Prop :=
  ∀ session, SessionStore.sessionOf entry = some session →
    ∃ token issue, entry.key = sessionKey token
      ∧ Records history since token session issue

theorem Keeps.entries (hlayer : SessionsReadBack layer)
    (h : Keeps layer owner history since mem) {entries : List MemoryEntry}
    (hentries : SessionStore.entries layer mem access = .ok entries) :
    ∀ entry ∈ entries, Listing history since entry := by
  intro entry hentry session hsession
  unfold SessionStore.entries at hentries
  cases hlist : mem.list layer.toValueText access .global
      (.ofPrefix SESSION_KEY_PREFIX) with
  | error e =>
    rw [hlist] at hentries
    cases hentries
  | ok listed =>
    rw [hlist] at hentries
    cases hentries
    obtain ⟨r, hr, -, hscope, hkey, he⟩ :=
      (MemoryStore.list_eq_ok hlist).1 entry hentry
    obtain ⟨token, htoken⟩ := h.keys r hr hscope hkey
    have hrow : mem.rowAt .global (sessionKey token) = some r := by
      refine h.faithful.unique.find_eq_some.2 ⟨hr, ?_⟩
      unfold Row.place
      rw [hscope, htoken]
    obtain ⟨session', issue, hholds, hrecords⟩ :=
      (h.cells token).stored r hrow
    unfold sessionOf at hsession
    obtain ⟨hentryKey, hvalue⟩ := hholds.entry hlayer he
    rw [hvalue] at hsession
    dsimp only at hsession
    rw [session'.read_toValue] at hsession
    cases hsession
    exact ⟨token, issue, hentryKey.trans htoken, hrecords⟩

theorem Keeps.findIn (h : Keeps layer owner history env.nowMs mem)
    (agentId : String) {entries : List MemoryEntry}
    (hentries : ∀ entry ∈ entries, Listing history env.nowMs entry) :
    Keeps layer owner history env.nowMs
      (SessionStore.findIn layer env mem owner agentId entries).1 := by
  induction entries with
  | nil => exact h
  | cons entry rest ih =>
    have hrest := ih fun e he => hentries e (mem_cons_of_mem _ he)
    unfold SessionStore.findIn
    cases hsession : sessionOf entry with
    | none => exact hrest
    | some session =>
      dsimp only
      obtain ⟨token, issue, hkey, hrecords⟩ :=
        hentries entry mem_cons_self session hsession
      by_cases hagent : session.agentId ≠ agentId
      · rw [if_pos hagent]
        exact hrest
      rw [if_neg hagent]
      by_cases hdead :
          (session.revoked || session.isExpired env.nowMs) = true
      · rw [if_pos hdead]
        exact hrest
      rw [if_neg hdead, hkey, tokenOfKey_sessionKey]
      dsimp only
      have hkept := hrecords.evict
      cases hevict : session.evictExpiredGrants env.nowMs with
      | mk session' evicted =>
        rw [hevict] at hkept
        cases evicted with
        | false => exact h
        | true =>
          have hkeeps := h.rewrite hkept (env.access 1)
          dsimp only
          cases hput : SessionStore.put layer mem owner
              (env.access 1) token session' with
          | mk mem' answer =>
            rw [hput] at hkeeps
            cases answer with
            | ok u => exact hkeeps
            | error e => exact hkeeps

theorem sortOut_sound (htold : Told history) {now : UInt64}
    {entries : List MemoryEntry}
    (hentries : ∀ entry ∈ entries, Listing history now entry) :
    (∀ key ∈ (sortOut now entries).toEvict,
      ∃ token, key = sessionKey token ∧ Gone history now token)
      ∧ ∀ saved ∈ (sortOut now entries).toResave,
        ∃ issue, Records history now saved.1 saved.2 issue := by
  induction entries with
  | nil => exact ⟨nofun, nofun⟩
  | cons entry rest ih =>
    obtain ⟨hevict, hresave⟩ :=
      ih fun e he => hentries e (mem_cons_of_mem _ he)
    unfold sortOut
    cases hsession : sessionOf entry with
    | none => exact ⟨hevict, hresave⟩
    | some session =>
      dsimp only
      obtain ⟨token, issue, hkey, hrecords⟩ :=
        hentries entry mem_cons_self session hsession
      by_cases hdead : (session.revoked || session.isExpired now) = true
      · rw [if_pos hdead]
        refine ⟨fun key hmem => ?_, hresave⟩
        rcases mem_cons.1 hmem with rfl | hmem
        · exact ⟨token, hkey, hrecords.gone (fun issue' =>
            htold.once token issue issue' hrecords.issued) hdead⟩
        · exact hevict key hmem
      · rw [if_neg hdead, hkey, tokenOfKey_sessionKey]
        refine ⟨hevict, fun saved hmem => ?_⟩
        have hkept := hrecords.evict
        cases hpair : session.evictExpiredGrants now with
        | mk session' evicted =>
          rw [hpair] at hkept hmem
          rcases mem_append.1 hmem with hmem | hmem
          · cases evicted with
            | false => cases hmem
            | true =>
              obtain rfl := mem_singleton.1 hmem
              exact ⟨issue, hkept⟩
          · exact hresave saved hmem

theorem Keeps.evictKeys {keys : List String}
    (hkeys : ∀ key ∈ keys, ∃ token, key = sessionKey token
      ∧ Gone history since token) (n : Nat)
    (h : Keeps layer owner history since mem) :
    Keeps layer owner history since (evictKeys env owner n mem keys) := by
  induction keys generalizing mem n with
  | nil => exact h
  | cons key rest ih =>
    obtain ⟨token, rfl, hgone⟩ := hkeys key mem_cons_self
    exact ih (fun k hk => hkeys k (mem_cons_of_mem _ hk)) (n + 1)
      (h.delete hgone _)

theorem Keeps.resave {saved : List (SessionToken × AgentSession)}
    (hsaved : ∀ x ∈ saved, ∃ issue, Records history since x.1 x.2 issue)
    (n : Nat) (h : Keeps layer owner history since mem) :
    Keeps layer owner history since
      (SessionStore.resave layer env owner n mem saved) := by
  induction saved generalizing mem n with
  | nil => exact h
  | cons x rest ih =>
    obtain ⟨issue, hrecords⟩ := hsaved x mem_cons_self
    exact ih (fun y hy => hsaved y (mem_cons_of_mem _ hy)) (n + 1)
      (h.rewrite hrecords _)

theorem Keeps.findByAgentId (hlayer : SessionsReadBack layer)
    (h : Keeps layer owner history env.nowMs mem) (agentId : String) :
    Keeps layer owner history env.nowMs
      (SessionStore.findByAgentId layer env mem owner agentId).1 := by
  unfold SessionStore.findByAgentId
  cases hentries : SessionStore.entries layer mem (env.access 0) with
  | error e => exact h
  | ok entries => exact h.findIn agentId (h.entries hlayer hentries)

theorem Keeps.list (hlayer : SessionsReadBack layer) (htold : Told history)
    (h : Keeps layer owner history env.nowMs mem) :
    Keeps layer owner history env.nowMs
      (SessionStore.list layer env mem owner).1 := by
  unfold SessionStore.list
  cases hentries : SessionStore.entries layer mem (env.access 0) with
  | error e => exact h
  | ok entries =>
    obtain ⟨hevict, hresave⟩ :=
      sortOut_sound htold (h.entries hlayer hentries)
    exact (h.evictKeys hevict 1).resave hresave _

end Keeping

end Tasty.Ipc
