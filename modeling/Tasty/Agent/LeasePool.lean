/-
Runs on one pool of leases: any number of holders, any failures of the
memory store, a clock that does not go back.

Whatever a call does, each of its writes is one of three (`Write`): it
grants a resource of the pool that is free to a holder that has nothing
else, it raises the counter within its bound, or it takes a lease of the
caller away.
-/
import Tasty.Agent.Lease

namespace Tasty.Agent

open LeaseStore BTreeMap List

-- ==== keys

section Keys

variable {c : Char} {a b : String}

theorem leaseKey_ne_poolCounterKey (candidates : List String) :
    leaseKey a ≠ poolCounterKey candidates := by
  intro h
  have hlist := congrArg (fun s : String => s.toList[17]?) h
  unfold leaseKey poolCounterKey at hlist
  rw [String.toList_append, String.toList_append,
    getElem?_append_left (by decide),
    getElem?_append_left (by decide)] at hlist
  exact absurd hlist (by decide)

theorem length_le_intercalate (l : List String) :
    2 * l.length ≤ (POOL_KEY_SEPARATOR.intercalate l).utf8ByteSize + 2 := by
  induction l with
  | nil => exact Nat.zero_le _
  | cons s l ih =>
    cases l with
    | nil =>
      rw [length_singleton]
      omega
    | cons u l =>
      rw [String.intercalate_cons_cons, String.utf8ByteSize_append,
        String.utf8ByteSize_append]
      have hsep : POOL_KEY_SEPARATOR.utf8ByteSize = 2 := by decide
      rw [length_cons]
      omega

variable [DebugText]

theorem length_le_of_checkKey {candidates : List String}
    (h : LeaseStore.checkKey (poolCounterKey candidates) = .ok ()) :
    candidates.length ≤ 256 := by
  have hle := length_le_intercalate (candidates.map encodeKeyComponent)
  have hsize : (poolCounterKey candidates).utf8ByteSize ≤ maxKeyLen := by
    unfold LeaseStore.checkKey validateKey at h
    by_contra hlong
    rw [if_pos (by omega : maxKeyLen < _)] at h
    split at h <;> cases h
  unfold poolCounterKey at hsize
  rw [String.utf8ByteSize_append] at hsize
  rw [length_map] at hle
  have hprefix : LEASE_POOL_COUNTER_KEY_PREFIX.utf8ByteSize = 31 := by decide
  have hmax : maxKeyLen = 256 := rfl
  omega

end Keys

-- ==== the writes

namespace LeaseStore

/-- The counter of a pool, as it is read. -/
def counterOf (p : Pool) (mem : Memory) : Nat :=
  match mem[poolCounterKey p.candidates]? with
  | some (.counter n) => n
  | _ => 0

/-- The names of a pool at this time. -/
def Pool.namesIn (p : Pool) (mem : Memory) : List String :=
  p.names (counterOf p mem)

/-- The pool may have one more name. -/
def Pool.HasRoom (p : Pool) (mem : Memory) : Prop :=
  ∀ spec, p.elastic = some spec → ∀ most, spec.maxCandidates = some most →
    p.candidates.length + counterOf p mem < most.toNat

/-- What a write of a call at this time does. -/
inductive Write (p : Pool) (caller : String) (now : Nat) (mem : Memory) :
    Memory → Prop
  | grant (l : Lease) : l.holder = caller → l.resource ∈ p.namesIn mem →
      (∀ cur, mem[leaseKey l.resource]? = some (.lease cur) →
        cur.holder = caller ∨ cur.isExpired now = true) →
      (∀ (k : String) cur, mem[k]? = some (.lease cur) →
        cur.holder = caller → cur.isExpired now = false →
        k = leaseKey l.resource) →
      Write p caller now mem (mem.insert (leaseKey l.resource) (.lease l))
  | bump : p.elastic.isSome → p.HasRoom mem →
      Write p caller now mem (mem.insert (poolCounterKey p.candidates)
        (.counter (saturatingSucc32 (counterOf p mem))))
  | release (resource : String) (cur : Lease) :
      mem[leaseKey resource]? = some (.lease cur) → cur.holder = caller →
      Write p caller now mem (mem.erase (leaseKey resource))

/-- What holds of the memory of a pool from this time on. -/
structure Sound (p : Pool) (now : Nat) (mem : Memory) : Prop where
  lease : ∀ (k : String) l, mem[k]? = some (.lease l) →
    k = leaseKey l.resource ∧ l.resource ∈ p.namesIn mem
  single : ∀ (k k' : String) l l', mem[k]? = some (.lease l) →
    mem[k']? = some (.lease l') → l.holder = l'.holder →
    l.isExpired now = false → l'.isExpired now = false → k = k'
  bounded : ∀ spec, p.elastic = some spec →
    ∀ most, spec.maxCandidates = some most →
      p.candidates.length + counterOf p mem
        ≤ max p.candidates.length most.toNat
  fixed : p.elastic = none → counterOf p mem = 0
  narrow : counterOf p mem ≤ 4294967295

variable {p : Pool} {caller : String} {now later : Nat} {mem mem' : Memory}

theorem Sound.empty (p : Pool) (now : Nat) : Sound p now ∅ where
  lease k l h := by simp at h
  single k k' l l' h := by simp at h
  bounded spec _ most _ := Nat.le_max_left _ _
  fixed _ := rfl
  narrow := Nat.zero_le _

end LeaseStore

variable {l : Lease}

theorem Lease.isExpired_later {now later : Nat} (h : now ≤ later)
    (hl : l.isExpired later = false) : l.isExpired now = false := by
  unfold isExpired at hl ⊢
  cases he : l.expiresAt with
  | none => rfl
  | some t =>
    rw [he] at hl
    simp only [decide_eq_false_iff_not] at hl ⊢
    omega

namespace LeaseStore

variable {p : Pool} {caller : String} {now later : Nat} {mem mem' : Memory}

theorem Sound.after (h : Sound p now mem) (hle : now ≤ later) :
    Sound p later mem where
  lease := h.lease
  single k k' l l' hl hl' hsame hlive hlive' :=
    h.single k k' l l' hl hl' hsame (l.isExpired_later hle hlive)
      (l'.isExpired_later hle hlive')
  bounded := h.bounded
  fixed := h.fixed
  narrow := h.narrow

theorem counterOf_grant (p : Pool) (mem : Memory) (r : String)
    (v : MemoryValue) :
    counterOf p (mem.insert (leaseKey r) v) = counterOf p mem := by
  unfold counterOf
  rw [get_insert, if_neg (leaseKey_ne_poolCounterKey _)]

theorem counterOf_erase (p : Pool) (mem : Memory) (r : String) :
    counterOf p (mem.erase (leaseKey r)) = counterOf p mem := by
  unfold counterOf
  rw [get_erase, if_neg (leaseKey_ne_poolCounterKey _)]

theorem counterOf_bump (p : Pool) (mem : Memory) (n : Nat) :
    counterOf p (mem.insert (poolCounterKey p.candidates) (.counter n))
      = n := by
  unfold counterOf
  rw [get_insert, if_pos rfl]

theorem Pool.names_mono {p : Pool} {n m : Nat} (h : n ≤ m) {r : String}
    (hr : r ∈ p.names n) : r ∈ p.names m := by
  unfold names at hr ⊢
  rcases mem_append.1 hr with hr | hr
  · exact mem_append_left _ hr
  · obtain ⟨i, hi, rfl⟩ := mem_map.1 hr
    refine mem_append_right _ (mem_map_of_mem ?_)
    rw [mem_range'_1] at hi ⊢
    omega

variable {k : String}

theorem lease_of_bump {n : Nat}
    (h : (mem.insert (poolCounterKey p.candidates) (.counter n))[k]?
      = some (.lease l)) : mem[k]? = some (.lease l) := by
  rw [get_insert] at h
  by_cases hk : poolCounterKey p.candidates = k
  · rw [if_pos hk] at h
    cases h
  · rw [if_neg hk] at h
    exact h

theorem lease_of_erase {k' : String}
    (h : (mem.erase k')[k]? = some (.lease l)) : mem[k]? = some (.lease l) := by
  rw [get_erase] at h
  by_cases hk : k' = k
  · rw [if_pos hk] at h
    cases h
  · rw [if_neg hk] at h
    exact h

theorem lease_of_grant {new : Lease}
    (h : (mem.insert (leaseKey new.resource) (.lease new))[k]?
      = some (.lease l)) :
    (k = leaseKey new.resource ∧ l = new)
      ∨ (k ≠ leaseKey new.resource ∧ mem[k]? = some (.lease l)) := by
  rw [get_insert] at h
  by_cases hk : leaseKey new.resource = k
  · rw [if_pos hk] at h
    cases h
    exact .inl ⟨hk.symm, rfl⟩
  · rw [if_neg hk] at h
    exact .inr ⟨Ne.symm hk, h⟩

theorem Sound.write (h : Sound p now mem) (hw : Write p caller now mem mem') :
    Sound p now mem' := by
  cases hw with
  | grant new hholder hname hfree honly =>
    have hcount := counterOf_grant p mem new.resource (.lease new)
    refine ⟨fun k l hl => ?_, fun k k' l l' hl hl' hsame hlive hlive' => ?_,
      ?_, ?_, hcount ▸ h.narrow⟩
    · unfold Pool.namesIn at hname ⊢
      rw [hcount]
      rcases lease_of_grant hl with ⟨rfl, rfl⟩ | ⟨-, hl⟩
      · exact ⟨rfl, hname⟩
      · exact h.lease k l hl
    · rcases lease_of_grant hl with ⟨hk, hnew⟩ | ⟨-, hold⟩ <;>
        rcases lease_of_grant hl' with ⟨hk', hnew'⟩ | ⟨-, hold'⟩
      · exact hk.trans hk'.symm
      · subst hnew
        exact hk.trans (honly k' l' hold' (hsame ▸ hholder) hlive').symm
      · subst hnew'
        exact (honly k l hold (hsame.trans hholder) hlive).trans hk'.symm
      · exact h.single k k' l l' hold hold' hsame hlive hlive'
    · rw [hcount]
      exact h.bounded
    · rw [hcount]
      exact h.fixed
  | bump helastic hroom =>
    have hcount := counterOf_bump p mem
      (saturatingSucc32 (counterOf p mem))
    refine ⟨fun k l hl => ?_, fun k k' l l' hl hl' => ?_, ?_, ?_, ?_⟩
    · obtain ⟨hk, hname⟩ := h.lease k l (lease_of_bump hl)
      refine ⟨hk, ?_⟩
      unfold Pool.namesIn
      rw [hcount]
      refine Pool.names_mono ?_ hname
      have hle := h.narrow
      unfold saturatingSucc32
      omega
    · exact h.single k k' l l' (lease_of_bump hl) (lease_of_bump hl')
    · intro spec hspec most hmost
      have hlt := hroom spec hspec most hmost
      rw [hcount]
      unfold saturatingSucc32
      omega
    · intro hnone
      rw [hnone] at helastic
      cases helastic
    · rw [hcount]
      exact Nat.min_le_right _ _
  | release resource cur hcur hholder =>
    have hcount := counterOf_erase p mem resource
    refine ⟨fun k l hl => ?_, fun k k' l l' hl hl' => ?_, ?_, ?_,
      hcount ▸ h.narrow⟩
    · unfold Pool.namesIn
      rw [hcount]
      exact h.lease k l (lease_of_erase hl)
    · exact h.single k k' l l' (lease_of_erase hl) (lease_of_erase hl')
    · rw [hcount]
      exact h.bounded
    · rw [hcount]
      exact h.fixed

theorem Pool.length_names (p : Pool) (made : Nat) :
    (p.names made).length = p.candidates.length + made := by
  unfold names
  rw [length_append, length_map, length_range']

/-- The length that is compared is the real one: a pool that has grown is
bounded by a `u32`, and one that has not is bounded by its key. -/
theorem Sound.hasRoom {spec : ElasticSpec} (h : Sound p now mem)
    (helastic : p.elastic = some spec) (hfits : p.candidates.length ≤ 256)
    (hcap : Pool.capOk spec (p.namesIn mem).length = true) : p.HasRoom mem := by
  intro spec' hspec most hmost
  rw [helastic] at hspec
  cases hspec
  have hle := h.bounded spec helastic most hmost
  have hlt := most.toNat_lt
  unfold Pool.capOk Pool.namesIn at hcap
  rw [hmost, Pool.length_names] at hcap
  have hcap := of_decide_eq_true hcap
  omega

theorem Write.spares (hw : Write p caller now mem mem')
    (h : Sound p now mem) (hl : mem[k]? = some (.lease l))
    (hother : l.holder ≠ caller) (hlive : l.isExpired now = false) : mem'[k]? = some (.lease l) := by
  cases hw with
  | grant new hholder hname hfree honly =>
    rw [get_insert, if_neg, hl]
    rintro rfl
    rcases hfree l hl with hmine | hexpired
    · exact hother hmine
    · rw [hlive] at hexpired
      cases hexpired
  | bump =>
    rw [get_insert, if_neg, hl]
    intro hk
    exact leaseKey_ne_poolCounterKey _ ((h.lease k l hl).1.symm.trans hk.symm)
  | release resource cur hcur hholder =>
    rw [get_erase, if_neg, hl]
    rintro rfl
    rw [hl] at hcur
    cases hcur
    exact hother hholder

-- ==== the calls

/-- The caller has no lease that still counts. -/
def Idle (caller : String) (now : Nat) (mem : Memory) : Prop :=
  ∀ (k : String) cur, mem[k]? = some (.lease cur) → cur.holder = caller →
    cur.isExpired now = true

section Calls

variable [DebugText] {d : Disk Memory Unit} {ttl : Option Nat}
  {ws : UInt32} {r : String} {scan : List String}

theorem runs_memGet (key : String) :
    Runs (Write p caller now) (memGet key) d fun v d' =>
      checkKey key = .ok () ∧ v = d.store[key]? ∧ d'.store = d.store := by
  unfold memGet
  refine Runs.lift_bind fun _ hkey => ?_
  refine Runs.bind (Runs.beside (Q := fun _ d' => d'.store = d.store)
    fun d' h => h) ?_
  intro _ d₁ _ hstore
  exact Runs.read_bind (.pure ⟨hkey, congrArg (·[key]?) hstore, hstore⟩)

theorem runs_memPut {key : String} {v : MemoryValue}
    (hw : Write p caller now d.store (d.store.insert key v)) :
    Runs (Write p caller now) (memPut key v) d fun _ d' =>
      d'.store = d.store.insert key v := by
  unfold memPut
  exact Runs.lift_bind fun _ _ => Runs.commit hw fun d' h => h

theorem runs_get (r : String) :
    Runs (Write p caller now) (get r) d fun o d' =>
      d'.store = d.store
        ∧ ∀ l, o = some l ↔ d.store[leaseKey r]? = some (.lease l) := by
  unfold get
  refine Runs.bind (runs_memGet _) ?_
  rintro v d₁ - ⟨-, rfl, hstore⟩
  split
  · rename_i l hl
    refine .pure ⟨hstore, fun l' => ?_⟩
    rw [hl]
    exact ⟨fun h => by cases h; rfl, fun h => by cases h; rfl⟩
  · exact .throw
  · rename_i hnone
    refine .pure ⟨hstore, fun l' => ?_⟩
    rw [hnone]
    exact ⟨(fun h => by cases h), (fun h => by cases h)⟩

theorem runs_grant (hw : Write p caller now d.store
      (d.store.insert (leaseKey l.resource) (.lease l))) :
    Runs (Write p caller now) (grant l) d fun o _ => o.acquired = true := by
  unfold grant put
  refine Runs.bind (runs_memPut hw) ?_
  intro _ d₁ _ _
  exact .pure rfl

/-- A caller that has nothing else may try a name of the pool. -/
theorem runs_acquire (hname : r ∈ p.namesIn d.store)
    (honly : ∀ (k : String) cur, d.store[k]? = some (.lease cur) →
      cur.holder = caller → cur.isExpired now = false → k = leaseKey r) :
    Runs (Write p caller now) (acquire ws r caller ttl .block now) d
      fun o d' => o.acquired = false → d'.store = d.store := by
  unfold acquire
  refine Runs.ite (fun _ => Runs.throw_bind) fun _ => ?_
  refine Runs.ite (fun _ => Runs.throw_bind) fun _ => ?_
  refine Runs.bind (runs_get r) ?_
  rintro o d₁ - ⟨hstore, hget⟩
  rw [← hstore] at hname honly hget
  have hgrant : (∀ cur, d₁.store[leaseKey r]? = some (.lease cur) →
      cur.holder = caller ∨ cur.isExpired now = true) →
      Runs (Write p caller now) (grant (newLease ws r caller ttl now)) d₁
        fun o d' => o.acquired = false → d'.store = d.store := by
    intro hfree
    refine (runs_grant (.grant (newLease ws r caller ttl now) rfl hname hfree
      honly)).weaken fun o d' hacquired hno => ?_
    rw [hacquired] at hno
    cases hno
  split
  · rename_i cur
    have hcur := (hget cur).1 rfl
    refine Runs.ite (fun hmine => hgrant fun cur' hcur' => ?_) fun _ => ?_
    · rw [hcur] at hcur'
      cases hcur'
      exact .inl hmine
    · refine Runs.ite (fun _ => .pure fun _ => hstore) fun hexpired => ?_
      refine hgrant fun cur' hcur' => ?_
      rw [hcur] at hcur'
      cases hcur'
      exact .inr (by simpa using hexpired)
  · refine hgrant fun cur hcur => ?_
    cases (hget cur).2 hcur

/-- The first loop changes nothing unless it finds a lease to renew. -/
theorem runs_reacquire (hsound : Sound p now d.store)
    (hnames : ∀ r ∈ scan, r ∈ p.namesIn d.store) :
    Runs (Write p caller now) (reacquire ws caller ttl now scan) d
      fun o d' => o = none → d'.store = d.store
        ∧ ∀ r ∈ scan, ∀ l, d.store[leaseKey r]? = some (.lease l) →
          l.holder = caller → l.isExpired now = true := by
  induction scan generalizing d with
  | nil =>
    unfold reacquire
    exact .pure fun _ => ⟨rfl, forall_mem_nil _⟩
  | cons r rest ih =>
    unfold reacquire
    refine Runs.bind (runs_get r) ?_
    rintro o d₁ - ⟨hstore, hget⟩
    rw [← hstore] at hsound hnames hget ⊢
    have hrest := ih hsound fun r hr => hnames r (.tail _ hr)
    have hgo : (∀ l, o = some l → l.holder = caller → l.isExpired now = true) →
        Runs (Write p caller now) (reacquire ws caller ttl now rest) d₁
          fun o d' => o = none → d'.store = d₁.store
            ∧ ∀ r' ∈ r :: rest, ∀ l,
              d₁.store[leaseKey r']? = some (.lease l) →
              l.holder = caller → l.isExpired now = true := by
      intro hfirst
      refine hrest.weaken fun o' d' h hnone => ?_
      obtain ⟨hsame, hall⟩ := h hnone
      refine ⟨hsame, fun r' hr' l hl => ?_⟩
      rcases mem_cons.1 hr' with rfl | hr'
      · exact hfirst l ((hget l).2 hl)
      · exact hall r' hr' l hl
    split
    · rename_i cur
      refine Runs.ite (fun hmine => ?_) fun hother => ?_
      · obtain ⟨hholder, hlive⟩ := hmine
        have hlive : cur.isExpired now = false := by simpa using hlive
        refine Runs.bind (runs_acquire (hnames r (.head _))
          fun k l hl hmine' hlive' => ?_) ?_
        · exact hsound.single k _ l cur hl ((hget cur).1 rfl)
            (hmine'.trans hholder.symm) hlive' hlive
        · intro o' d₂ _ _
          refine .pure fun h => ?_
          cases h
      · refine hgo fun l hl hmine => ?_
        cases hl
        by_contra hlive
        exact hother ⟨hmine, by simpa using hlive⟩
    · exact hgo fun l hl => by cases hl

/-- The second loop changes nothing unless it finds a free name. -/
theorem runs_acquireFree (hidle : Idle caller now d.store)
    (hnames : ∀ r ∈ scan, r ∈ p.namesIn d.store) :
    Runs (Write p caller now) (acquireFree ws caller ttl now scan) d
      fun o d' => o = none → d'.store = d.store := by
  induction scan generalizing d with
  | nil =>
    unfold acquireFree
    exact .pure fun _ => rfl
  | cons r rest ih =>
    unfold acquireFree
    refine Runs.bind (runs_acquire (hnames r (.head _))
      fun k l hl hmine hlive => ?_) ?_
    · rw [hidle k l hl hmine] at hlive
      cases hlive
    · intro o d₁ _ hkept
      refine Runs.ite (fun _ => .pure fun h => by cases h) fun hno => ?_
      have hstore := hkept (by simpa using hno)
      rw [← hstore] at hidle hnames ⊢
      exact ih hidle fun r hr => hnames r (.tail _ hr)

theorem runs_getPoolCounter :
    Runs (Write p caller now) (getPoolCounter p.candidates) d fun n d' =>
      checkKey (poolCounterKey p.candidates) = .ok ()
        ∧ n = counterOf p d.store ∧ d'.store = d.store := by
  unfold getPoolCounter
  refine Runs.bind (runs_memGet _) ?_
  rintro v d₁ - ⟨hkey, hv, hstore⟩
  unfold counterOf
  rw [← hv]
  split
  · exact .pure ⟨hkey, rfl, hstore⟩
  · exact .pure ⟨hkey, rfl, hstore⟩
  · exact .pure ⟨hkey, rfl, hstore⟩

variable {mode : LeaseMode}

theorem runs_exhausted :
    Runs (Write p caller now) (exhausted scan caller mode) d
      fun _ _ => True := by
  unfold exhausted
  cases mode with
  | fail => exact .throw
  | block =>
    refine Runs.bind (runs_get _) fun _ _ _ _ => ?_
    exact .pure trivial

theorem runs_acquireNew {spec : ElasticSpec} {scanned : Nat}
    (hidle : Idle caller now d.store) (helastic : p.elastic = some spec)
    (hroom : Pool.capOk spec scanned = true → p.HasRoom d.store) :
    Runs (Write p caller now) (acquireNew p spec scanned caller ttl now) d
      fun _ _ => True := by
  unfold acquireNew
  refine Runs.ite (fun hcap => ?_) fun _ => .pure trivial
  have hbump : Runs (Write p caller now) (bumpPoolCounter p.candidates) d
      fun n d' => n = saturatingSucc32 (counterOf p d.store)
        ∧ d'.store = d.store.insert (poolCounterKey p.candidates)
          (.counter (saturatingSucc32 (counterOf p d.store))) := by
    unfold bumpPoolCounter
    refine Runs.bind runs_getPoolCounter ?_
    rintro n d₁ - ⟨-, rfl, hstore⟩
    rw [← hstore]
    refine Runs.bind (runs_memPut (.bump (by rw [helastic]; rfl)
      (hstore ▸ hroom hcap))) ?_
    intro _ d₂ _ hput
    exact .pure ⟨rfl, hput⟩
  refine Runs.bind hbump ?_
  rintro n d₁ - ⟨rfl, hstore⟩
  refine Runs.bind (runs_acquire ?_ fun k l hl hmine hlive => ?_) ?_
  · unfold Pool.namesIn
    rw [hstore, counterOf_bump]
    refine mem_append_right _ (mem_map_of_mem ?_)
    rw [mem_range'_1]
    unfold saturatingSucc32
    omega
  · rw [hstore] at hl
    rw [hidle k l (lease_of_bump hl) hmine] at hlive
    cases hlive
  · intro o d₂ _ _
    exact Runs.ite (fun _ => .pure trivial) fun _ => .pure trivial

theorem runs_acquireAmong (hsound : Sound p now d.store)
    (hscan : scan = p.namesIn d.store)
    (hfits : p.elastic.isSome → p.candidates.length ≤ 256) :
    Runs (Write p caller now) (acquireAmong p scan caller ttl mode now) d
      fun _ _ => True := by
  have hnames : ∀ r ∈ scan, r ∈ p.namesIn d.store := by
    rw [hscan]
    exact fun _ h => h
  unfold acquireAmong
  refine Runs.bind (runs_reacquire hsound hnames) ?_
  intro o d₁ _ hfound
  cases o with
  | some outcome => exact .pure trivial
  | none =>
    obtain ⟨hstore, hnone⟩ := hfound rfl
    have hidle : Idle caller now d₁.store := by
      intro k l hl hmine
      rw [hstore] at hl
      obtain ⟨rfl, hname⟩ := hsound.lease k l hl
      exact hnone l.resource (hscan ▸ hname) l hl hmine
    rw [← hstore] at hnames hsound hscan
    refine Runs.bind (runs_acquireFree hidle hnames) ?_
    intro o d₂ _ hfree
    cases o with
    | some outcome => exact .pure trivial
    | none =>
      have hstore₂ := hfree rfl
      rw [← hstore₂] at hidle hsound hscan
      cases helastic : p.elastic with
      | none => exact runs_exhausted
      | some spec =>
        dsimp only
        refine Runs.bind (runs_acquireNew hidle helastic fun hcap =>
          hsound.hasRoom helastic (hfits (by rw [helastic]; rfl))
            (hscan ▸ hcap)) ?_
        · intro o d₃ _ _
          cases o with
          | some outcome => exact .pure trivial
          | none => exact runs_exhausted

theorem runs_acquireAny (hsound : Sound p now d.store) :
    Runs (Write p caller now) (acquireAny p caller ttl mode now) d
      fun _ _ => True := by
  unfold acquireAny
  refine Runs.ite (fun _ => .throw_bind) fun _ => ?_
  refine Runs.ite (fun _ => .throw_bind) fun _ => ?_
  refine Runs.ite (fun helastic => ?_) fun hfixed => ?_
  · refine Runs.bind runs_getPoolCounter ?_
    rintro n d₁ - ⟨hkey, rfl, hstore⟩
    rw [← hstore] at hsound ⊢
    exact runs_acquireAmong hsound rfl fun _ => length_le_of_checkKey hkey
  · have hnone : p.elastic = none := by simpa using hfixed
    refine runs_acquireAmong hsound ?_ fun h => absurd h hfixed
    unfold Pool.namesIn Pool.names
    rw [hsound.fixed hnone]
    exact (append_nil _).symm

theorem runs_release :
    Runs (Write p caller now) (release r caller) d fun _ _ => True := by
  unfold release
  refine Runs.bind (runs_get r) ?_
  rintro o d₁ - ⟨hstore, hget⟩
  cases o with
  | none => exact .pure trivial
  | some cur =>
    dsimp only
    refine Runs.ite (fun _ => .pure trivial) fun hmine => ?_
    have hmine : cur.holder = caller := by simpa using hmine
    have hcur := (hget cur).1 rfl
    have hdelete : Runs (Write p caller now) (memDelete (leaseKey r)) d₁
        fun _ _ => True := by
      unfold memDelete
      exact Runs.lift_bind fun _ _ => Runs.commit (.release r cur (hstore ▸ hcur) hmine)
        fun _ _ => trivial
    refine Runs.bind hdelete ?_
    intro _ d₂ _ _
    exact .pure trivial

end Calls

-- ==== the runs

inductive Request where
  | acquireAny (holder : String) (ttl : Option Nat) (mode : LeaseMode)
  | release (resource holder : String)

def Request.holder : Request → String
  | acquireAny holder _ _ => holder
  | release _ holder => holder

/-- A call some time after the one before it: which of its reads and writes
the memory store refuses, and whether the unit of it is committed. -/
structure Call where
  request : Request
  elapsed : Nat
  outcomes : List Bool
  committed : Bool

structure State where
  memory : Memory
  clock : Nat

namespace State

def init (clock : Nat) : State := ⟨∅, clock⟩

/-- The holder has the resource, and at this time its lease still counts. -/
def Holds (s : State) (t : Nat) (holder resource : String) : Prop :=
  ∃ (k : String) (l : Lease), s.memory[k]? = some (.lease l)
    ∧ l.holder = holder ∧ l.resource = resource ∧ l.isExpired t = false

variable [DebugText]

/-- What a call leaves in the memory. -/
def after (s : State) (p : Pool) (c : Call) : Memory :=
  let d : Disk Memory Unit := ⟨s.memory, [], c.outcomes, ()⟩
  let now := s.clock + c.elapsed
  match c.request with
  | .acquireAny holder ttl mode => (acquireAny p holder ttl mode now d).2.store
  | .release resource holder => (LeaseStore.release resource holder d).2.store

def step (p : Pool) (s : State) (c : Call) : State where
  memory := if c.committed then s.after p c else s.memory
  clock := s.clock + c.elapsed

def run (p : Pool) (s : State) (calls : List Call) : State :=
  calls.foldl (step p) s

variable {s : State}

theorem after_evolves (c : Call) (h : Sound p (s.clock + c.elapsed) s.memory) :
    ∃ d d' : Disk Memory Unit, d.store = s.memory ∧ d'.store = s.after p c
      ∧ Evolves (Write p c.request.holder (s.clock + c.elapsed)) d d' := by
  obtain ⟨request, elapsed, outcomes, committed⟩ := c
  refine ⟨⟨s.memory, [], outcomes, ()⟩, ?_⟩
  cases request with
  | acquireAny holder ttl mode => exact ⟨_, rfl, rfl, (runs_acquireAny h).1⟩
  | release resource holder => exact ⟨_, rfl, rfl, runs_release.1⟩

theorem sound_step (h : Sound p s.clock s.memory) (c : Call) :
    Sound p (s.step p c).clock (s.step p c).memory := by
  have hnow := h.after (Nat.le_add_right s.clock c.elapsed)
  obtain ⟨d, d', hd, hd', hev⟩ := after_evolves c hnow
  unfold step
  dsimp only
  by_cases hc : c.committed = true
  · rw [if_pos hc, ← hd']
    refine hev.keeps (fun mem mem' hw hs => hs.write hw) ?_
    rw [hd]
    exact hnow
  · rw [if_neg hc]
    exact hnow

theorem sound_run (clock : Nat) (calls : List Call) :
    Sound p ((init clock).run p calls).clock
      ((init clock).run p calls).memory := by
  have hall : ∀ s : State, Sound p s.clock s.memory →
      Sound p (s.run p calls).clock (s.run p calls).memory := by
    induction calls with
    | nil => exact fun _ h => h
    | cons c calls ih => exact fun s h => ih (s.step p c) (sound_step h c)
  exact hall _ (.empty p clock)

theorem holds_step (h : Sound p s.clock s.memory) {c : Call}
    {holder resource : String}
    (hholds : s.Holds (s.clock + c.elapsed) holder resource)
    (hother : c.request.holder ≠ holder) :
    (s.step p c).Holds (s.clock + c.elapsed) holder resource := by
  obtain ⟨k, l, hl, rfl, hresource, hlive⟩ := hholds
  refine ⟨k, l, ?_, rfl, hresource, hlive⟩
  have hnow := h.after (Nat.le_add_right s.clock c.elapsed)
  obtain ⟨d, d', hd, hd', hev⟩ := after_evolves c hnow
  unfold step
  dsimp only
  by_cases hc : c.committed = true
  · rw [if_pos hc, ← hd']
    have hkept := hev.keeps (I := fun mem =>
      Sound p (s.clock + c.elapsed) mem ∧ mem[k]? = some (.lease l))
      (fun mem mem' hw hs => ⟨hs.1.write hw,
        hw.spares hs.1 hs.2 (Ne.symm hother) hlive⟩)
      (by rw [hd]; exact ⟨hnow, hl⟩)
    exact hkept.2
  · rw [if_neg hc]
    exact hl

end State

/-- What holds of a pool at any time until the next call. -/
structure Exclusive (p : Pool) (s : State) : Prop where
  single : ∀ t, s.clock ≤ t → ∀ holder r r', s.Holds t holder r →
    s.Holds t holder r' → r = r'
  apart : ∀ t, s.clock ≤ t → ∀ holder holder' r, s.Holds t holder r →
    s.Holds t holder' r → holder = holder'
  named : ∀ (k : String) l, s.memory[k]? = some (.lease l) →
    l.resource ∈ p.candidates ∨ ∃ n, 1 ≤ n ∧ n ≤ counterOf p s.memory
      ∧ l.resource = p.overflowPrefix ++ toString n
  bounded : ∀ spec, p.elastic = some spec →
    ∀ most, spec.maxCandidates = some most →
      p.candidates.length + counterOf p s.memory
        ≤ max p.candidates.length most.toNat

theorem Sound.exclusive {s : State} (h : Sound p s.clock s.memory) :
    Exclusive p s where
  single t ht holder r r' hr hr' := by
    obtain ⟨k, l, hl, hholder, rfl, hlive⟩ := hr
    obtain ⟨k', l', hl', hholder', rfl, hlive'⟩ := hr'
    have hkey := (h.after ht).single k k' l l' hl hl'
      (hholder.trans hholder'.symm) hlive hlive'
    rw [hkey, hl'] at hl
    cases hl
    rfl
  apart t ht holder holder' r hr hr' := by
    obtain ⟨k, l, hl, rfl, hresource, -⟩ := hr
    obtain ⟨k', l', hl', rfl, hresource', -⟩ := hr'
    have hkey : k = k' := by
      rw [(h.lease k l hl).1, (h.lease k' l' hl').1, hresource, hresource']
    rw [hkey, hl'] at hl
    cases hl
    rfl
  named k l hl := by
    rcases mem_append.1 (h.lease k l hl).2 with hname | hname
    · exact .inl hname
    · obtain ⟨n, hn, heq⟩ := mem_map.1 hname
      rw [mem_range'_1] at hn
      exact .inr ⟨n, hn.1, by omega, heq.symm⟩
  bounded := h.bounded

/-- In every run on one pool, each holder has at most one lease that still
counts and each resource at most one such holder; the names are those of the
pool, which stays within its bound; and no call takes such a lease from
another holder. -/
theorem pool_exclusive [DebugText] (p : Pool) (clock : Nat)
    (calls : List Call) :
    Exclusive p ((State.init clock).run p calls)
      ∧ ∀ (c : Call) (holder resource : String),
        ((State.init clock).run p calls).Holds
          (((State.init clock).run p calls).clock + c.elapsed) holder
          resource →
        c.request.holder ≠ holder →
        (((State.init clock).run p calls).step p c).Holds
          (((State.init clock).run p calls).clock + c.elapsed) holder
          resource :=
  ⟨(State.sound_run clock calls).exclusive, fun _ _ _ hholds hother =>
    State.holds_step (State.sound_run clock calls) hholds hother⟩

end LeaseStore

end Tasty.Agent
