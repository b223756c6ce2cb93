/-
A permission that is bound to one document: the user gives it for the
document on screen, and it lasts as long as every document that is
committed is that document, by its URL and by its fingerprint.

Loads are asynchronous. A response is decided before the document is
committed, its fingerprint may come later under a ticket, and the value in
force is that of the response while a load is on its way, that of the
screen otherwise. The machine here is one permission by itself; the state
of a surface carries two of them.

# Where the fence has a hole

Between the commit of one load and the start of the next the value in force
is that of the screen. A response in between, whose start was not
signalled, is answered with the value of the document on screen: `Fenced`
says when that does no harm, and `law_of_fenced` and `fenced_of_law` that
nothing else goes wrong.
-/
namespace Tasty.Html

open Option

/-- A document as it is identified; the fingerprint may not be known. -/
structure Document (U F : Type) where
  url : U
  fingerprint : Option F
  deriving DecidableEq

/-- The fingerprint of a response: known, or awaited under a ticket. -/
inductive Slot (F : Type) where
  | done (fingerprint : Option F)
  | waiting (ticket : Nat)
  deriving DecidableEq

structure Response (U F : Type) where
  url : U
  slot : Slot F
  matched : Bool
  deriving DecidableEq

/-- One permission: what it was given for, the document on screen with the
ticket that it still waits for, the response that is not committed yet, and
the two flags of the load. -/
structure Permission (U F : Type) where
  allowance : Option (U × F)
  current : Option (Document U F)
  wait : Option Nat
  response : Option (Response U F)
  inFlight : Bool
  committed : Bool
  deriving DecidableEq

/-- What happens to a permission. -/
inductive Action (U F : Type) where
  | start
  | respond (url : U) (slot : Slot F)
  | scanned (ticket : Nat) (fingerprint : Option F)
  | commit (url : Option U)
  | finished
  | failed
  | allow
  | idle
  deriving DecidableEq

variable {U F : Type}

/-- An allowance is of this document. -/
def Approves (allowance : Option (U × F)) (d : Document U F) : Prop :=
  ∃ f, d.fingerprint = some f ∧ allowance = some (d.url, f)

instance [DecidableEq U] [DecidableEq F] (allowance : Option (U × F))
    (d : Document U F) : Decidable (Approves allowance d) :=
  match hd : d.fingerprint with
  | none => isFalse fun ⟨_, h, _⟩ => nomatch hd.symm.trans h
  | some f =>
    decidable_of_iff (allowance = some (d.url, f))
      ⟨fun h => ⟨f, hd, h⟩,
        fun ⟨_, h, h'⟩ => Option.some.inj (hd.symm.trans h) ▸ h'⟩

/-- The document of a response, as far as it is known. -/
def Response.document (r : Response U F) : Document U F where
  url := r.url
  fingerprint := match r.slot with
    | .done f => f
    | .waiting _ => none

/-- The ticket of a response that waits for one. -/
def Response.ticket (r : Response U F) : Option Nat :=
  match r.slot with
  | .done _ => none
  | .waiting ticket => some ticket

namespace Permission

variable [DecidableEq U] [DecidableEq F] {p : Permission U F}
  {a : Action U F} {granted : Prop}

/-- A load is on its way and not committed yet. -/
def loading (p : Permission U F) : Bool := p.inFlight && !p.committed

/-- The document on screen is the allowed one. -/
def allowsCurrent (p : Permission U F) : Bool :=
  p.current.any fun d => Approves p.allowance d

/-- The value in force. -/
def inForce (p : Permission U F) : Bool :=
  if p.loading then p.response.any (·.matched) else p.allowsCurrent

/-- The document that a commit puts on screen. -/
def committedDocument (p : Permission U F) (url : Option U) :
    Option (Document U F) :=
  match p.response with
  | some r => some r.document
  | none => url.map fun u => ⟨u, none⟩

/-- A response, compared with the allowance as far as it is known. -/
def compared (p : Permission U F) (url : U) (slot : Slot F) :
    Response U F where
  url
  slot
  matched := Approves p.allowance (Response.document ⟨url, slot, false⟩)

def respond (p : Permission U F) (url : U) (slot : Slot F) :
    Permission U F :=
  { p with response := some (p.compared url slot), inFlight := true }

/-- A fingerprint arrives: for the response, or for the screen. -/
def scanned (p : Permission U F) (ticket : Nat) (f : Option F) :
    Permission U F :=
  match p.response.filter (·.slot = .waiting ticket) with
  | some r => { p with response := some (p.compared r.url (.done f)) }
  | none =>
    if p.wait = some ticket then
      { p with wait := none, current := p.current.map fun d => ⟨d.url, f⟩ }
    else p

def commit (p : Permission U F) (url : Option U) : Permission U F :=
  { p with
    allowance := if p.response.any (·.matched) then p.allowance else none
    current := p.committedDocument url
    wait := p.response.bind (·.ticket)
    response := none
    committed := true }

/-- The user allows the document on screen, if that is possible now. -/
def allow (p : Permission U F) : Permission U F :=
  if p.loading || p.wait.isSome then p
  else match p.current with
    | some ⟨url, some f⟩ => { p with allowance := some (url, f) }
    | _ => p

def step (p : Permission U F) : Action U F → Permission U F
  | .start =>
    { p with response := none, inFlight := true, committed := false }
  | .respond url slot => p.respond url slot
  | .scanned ticket f => p.scanned ticket f
  | .commit url => p.commit url
  | .finished => { p with response := none, inFlight := false }
  | .failed => if p.committed then { p with wait := none } else p
  | .allow => p.allow
  | .idle => p

-- ==== the law

/-- An action decides about a document that is not committed yet. -/
inductive Answers (p : Permission U F) : Action U F → Document U F → Prop
  | respond (url : U) (slot : Slot F) :
    Answers p (.respond url slot) (Response.document ⟨url, slot, false⟩)
  | scanned (r : Response U F) (ticket : Nat) (f : Option F)
      (pending : p.response = some r) (waits : r.slot = .waiting ticket) :
    Answers p (.scanned ticket f) ⟨r.url, f⟩

/-- What a permission bound to a document owes at one action: `p` before,
`p'` after it, and whether the value that the action answers with grants
the permission. -/
structure Law (p : Permission U F) (a : Action U F) (p' : Permission U F)
    (granted : Prop) : Prop where
  /-- a response, and a scan of it, grants only what was allowed -/
  response : ∀ d, p.Answers a d → granted → Approves p.allowance d
  /-- a commit grants only what was allowed -/
  commit : ∀ url, a = .commit url → granted →
    ∃ d, p.committedDocument url = some d ∧ Approves p.allowance d
  /-- a commit of another document takes the allowance away -/
  fenced : ∀ url, a = .commit url → p'.allowance ≠ none →
    p'.allowance = p.allowance
      ∧ ∃ d, p.committedDocument url = some d ∧ Approves p.allowance d
  /-- the document on screen is the committed one -/
  screen : ∀ url, a = .commit url → p'.current = p.committedDocument url
  /-- an allowance is the user's, for the document on screen -/
  given : ∀ x, p'.allowance = some x → p.allowance = some x
    ∨ a = .allow ∧ p.current = some ⟨x.1, some x.2⟩
  /-- whatever answers: with no load on its way it is about the screen -/
  current : granted → p'.loading = false →
    ∃ d, p'.current = some d ∧ Approves p'.allowance d
  /-- and with one it is about the response -/
  pending : granted → p'.loading = true →
    ∃ r, p'.response = some r ∧ Approves p'.allowance r.document

/-- A response, or a scan of it, that comes when a commit was seen since
the last start, does no harm: the document on screen is not allowed, or the
response is of the allowed one. -/
def Fenced (p : Permission U F) (a : Action U F) : Prop :=
  ∀ d, p.Answers a d → p.committed = true → p.allowsCurrent = true →
    Approves p.allowance d

-- ==== the invariant

/-- What holds between two actions. -/
structure Inv (p : Permission U F) : Prop where
  inFlight : p.response ≠ none → p.inFlight = true
  matched : ∀ r, p.response = some r → r.matched = true →
    Approves p.allowance r.document
  allowed : p.allowance ≠ none → p.allowsCurrent = true
  waiting : p.wait ≠ none → ∃ url, p.current = some ⟨url, none⟩

theorem allowsCurrent_iff :
    p.allowsCurrent = true
      ↔ ∃ d, p.current = some d ∧ Approves p.allowance d := by
  unfold allowsCurrent
  cases p.current with
  | none => simp
  | some d => simp

/-- Where an allowance is, the screen shows what it is of. -/
theorem Inv.current_eq (h : Inv p) {x : U × F} (hx : p.allowance = some x) :
    p.current = some ⟨x.1, some x.2⟩ := by
  obtain ⟨d, hd, f, hf, ha⟩ := allowsCurrent_iff.mp
    (h.allowed (by rw [hx]; exact some_ne_none x))
  obtain rfl := Option.some.inj (hx.symm.trans ha)
  obtain ⟨url, fingerprint⟩ := d
  obtain rfl : fingerprint = some f := hf
  exact hd

theorem Inv.not_allowed_of_wait (h : Inv p) (hw : p.wait ≠ none) :
    p.allowance = none := by
  obtain ⟨url, hc⟩ := h.waiting hw
  cases hx : p.allowance with
  | none => rfl
  | some x =>
    have := h.current_eq hx
    rw [hc] at this
    cases this

theorem Inv.respond (h : Inv p) (url : U) (slot : Slot F) :
    Inv (p.respond url slot) where
  inFlight _ := rfl
  matched r hr hm := by
    obtain rfl := Option.some.inj hr
    exact of_decide_eq_true hm
  allowed := h.allowed
  waiting := h.waiting

theorem Inv.scanned (h : Inv p) (ticket : Nat) (f : Option F) :
    Inv (p.scanned ticket f) := by
  unfold Permission.scanned
  split
  · next r hr =>
    obtain ⟨hr, -⟩ := filter_eq_some_iff.mp hr
    refine ⟨fun _ => h.inFlight (by rw [hr]; exact some_ne_none r),
      fun r' hr' hm => ?_, h.allowed, h.waiting⟩
    obtain rfl := Option.some.inj hr'
    exact of_decide_eq_true hm
  · split
    · next hw =>
      have hnone := h.not_allowed_of_wait
        (by rw [hw]; exact some_ne_none ticket)
      exact ⟨h.inFlight, h.matched, fun ha => absurd hnone ha,
        fun hw => absurd rfl hw⟩
    · exact h

theorem Inv.commit (h : Inv p) (url : Option U) : Inv (p.commit url) where
  inFlight hr := absurd rfl hr
  matched r hr := nomatch hr
  allowed ha := by
    -- the allowance stays for a response that matched it
    have hm : p.response.any (·.matched) = true :=
      Decidable.byContradiction fun hm => ha (if_neg hm)
    obtain ⟨r, hr, hm'⟩ := (any_eq_true _ _).mp hm
    refine allowsCurrent_iff.mpr ⟨r.document, ?_, ?_⟩
    · show p.committedDocument url = _
      simp only [committedDocument, hr]
    · show Approves (if _ then _ else _) _
      rw [if_pos hm]
      exact h.matched r hr hm'
  waiting hw := by
    show ∃ u, p.committedDocument url = some ⟨u, none⟩
    cases hr : p.response with
    | none =>
      have hw : (p.response.bind (·.ticket)) ≠ none := hw
      simp [hr] at hw
    | some r =>
      have hw : (p.response.bind (·.ticket)) ≠ none := hw
      obtain ⟨u, slot, m⟩ := r
      cases slot with
      | done f => simp [hr, Response.ticket] at hw
      | waiting ticket =>
        exact ⟨u, by simp [committedDocument, hr, Response.document]⟩

omit [DecidableEq U] [DecidableEq F] in
/-- The user's allowance is of the document on screen, or nothing
changes. -/
theorem allow_cases (p : Permission U F) :
    p.allow = p ∨ ∃ url f, p.current = some ⟨url, some f⟩ ∧ p.wait = none
      ∧ p.allow = { p with allowance := some (url, f) } := by
  unfold allow
  split
  · exact .inl rfl
  · next hwait =>
    split
    · next url f hc =>
      refine .inr ⟨url, f, hc, ?_, rfl⟩
      simp only [Bool.or_eq_true, not_or, not_isSome_iff_eq_none]
        at hwait
      exact hwait.2
    · exact .inl rfl

theorem Inv.allow (h : Inv p) : Inv p.allow := by
  obtain heq | ⟨url, f, hc, hw, heq⟩ := p.allow_cases
  · rw [heq]
    exact h
  · rw [heq]
    refine ⟨h.inFlight, fun r hr hm => ?_, fun _ => ?_, h.waiting⟩
    · -- a response that matched is of the document on screen already
      obtain ⟨g, hg, ha⟩ := h.matched r hr hm
      have hcur := h.current_eq ha
      rw [hc] at hcur
      cases hcur
      exact ⟨_, hg, rfl⟩
    · exact allowsCurrent_iff.mpr ⟨⟨url, some f⟩, hc, f, rfl, rfl⟩

theorem Inv.step (h : Inv p) (a : Action U F) : Inv (p.step a) := by
  cases a with
  | start => exact ⟨fun _ => rfl, nofun, h.allowed, h.waiting⟩
  | respond url slot => exact h.respond url slot
  | scanned ticket f => exact h.scanned ticket f
  | commit url => exact h.commit url
  | finished =>
    exact ⟨fun hr => absurd rfl hr, nofun, h.allowed, h.waiting⟩
  | failed =>
    show Inv (if _ then _ else _)
    split
    · exact ⟨h.inFlight, h.matched, h.allowed, fun hw => absurd rfl hw⟩
    · exact h
  | allow => exact h.allow
  | idle => exact h

-- ==== what is owed

/-- The value in force is of what it is about, in every state. -/
theorem Inv.current (h : Inv p) (hv : p.inForce = true) :
    (p.loading = false → ∃ d, p.current = some d ∧ Approves p.allowance d)
      ∧ (p.loading = true →
        ∃ r, p.response = some r ∧ Approves p.allowance r.document) := by
  unfold inForce at hv
  constructor
  · intro hl
    rw [hl, if_neg Bool.false_ne_true] at hv
    exact allowsCurrent_iff.mp hv
  · intro hl
    rw [hl, if_pos rfl] at hv
    obtain ⟨r, hr, hm⟩ := (any_eq_true _ _).mp hv
    exact ⟨r, hr, h.matched r hr hm⟩

/-- What an action that answers leaves alone, and what it records. -/
theorem step_answers {d : Document U F} (ha : p.Answers a d) :
    (p.step a).committed = p.committed ∧ (p.step a).current = p.current
      ∧ (p.step a).allowance = p.allowance
      ∧ ∃ r, (p.step a).response = some r ∧ r.document = d := by
  cases ha with
  | respond url slot => exact ⟨rfl, rfl, rfl, _, rfl, rfl⟩
  | scanned r ticket f pending waits =>
    have hfilter : p.response.filter (·.slot = .waiting ticket) = some r :=
      filter_eq_some_iff.mpr ⟨pending, by simpa using waits⟩
    have hstep : p.step (.scanned ticket f)
        = { p with response := some (p.compared r.url (.done f)) } := by
      show p.scanned ticket f = _
      unfold scanned
      rw [hfilter]
    rw [hstep]
    exact ⟨rfl, rfl, rfl, _, rfl, rfl⟩

theorem step_given {x : U × F} (hx : (p.step a).allowance = some x) :
    p.allowance = some x ∨ a = .allow ∧ p.current = some ⟨x.1, some x.2⟩ := by
  cases a with
  | start | respond | finished | idle => exact .inl hx
  | scanned ticket f =>
    left
    rw [← hx]
    show _ = (p.scanned ticket f).allowance
    unfold scanned
    split
    · rfl
    · split <;> rfl
  | failed =>
    left
    rw [← hx]
    show _ = (if p.committed then { p with wait := none } else p).allowance
    split <;> rfl
  | commit url =>
    left
    have hx : (if p.response.any (·.matched) then p.allowance else none)
      = some x := hx
    split at hx
    · exact hx
    · cases hx
  | allow =>
    have hx : p.allow.allowance = some x := hx
    obtain heq | ⟨url, f, hc, -, heq⟩ := p.allow_cases
    · exact .inl (heq ▸ hx)
    · rw [heq] at hx
      cases hx
      exact .inr ⟨rfl, hc⟩

theorem Inv.kept_commit (h : Inv p) {url : Option U}
    (hk : (p.commit url).allowance ≠ none) :
    (p.commit url).allowance = p.allowance
      ∧ ∃ d, p.committedDocument url = some d ∧ Approves p.allowance d := by
  have hkept : (p.commit url).allowance = p.allowance := by
    obtain ⟨x, hx⟩ := ne_none_iff_exists'.mp hk
    obtain ha | ⟨ha, -⟩ := step_given (a := .commit url) hx
    · exact hx.trans ha.symm
    · cases ha
  refine ⟨hkept, ?_⟩
  have := allowsCurrent_iff.mp ((h.commit url).allowed hk)
  rwa [hkept] at this

theorem law_of_fenced (h : Inv p) (hf : granted → p.Fenced a)
    (hg : granted → (p.step a).inForce = true) :
    p.Law a (p.step a) granted := by
  have hi := h.step a
  refine ⟨?_, ?_, ?_, ?_, fun x => step_given,
    fun hgr => (hi.current (hg hgr)).1, fun hgr => (hi.current (hg hgr)).2⟩
  · intro d ha hgr
    obtain ⟨hcommitted, hcurrent, hallow, r, hr, rfl⟩ := step_answers ha
    cases hl : (p.step a).loading with
    | true =>
      obtain ⟨r', hr', happ⟩ := (hi.current (hg hgr)).2 hl
      obtain rfl := Option.some.inj (hr.symm.trans hr')
      rwa [hallow] at happ
    | false =>
      -- the start was missed: the answer is about the screen
      obtain ⟨d', hd', happ⟩ := (hi.current (hg hgr)).1 hl
      rw [hcurrent] at hd'
      rw [hallow] at happ
      have hin := hi.inFlight (by rw [hr]; exact some_ne_none r)
      have hc : p.committed = true := by
        rw [loading, hin, hcommitted] at hl
        simpa using hl
      exact hf hgr _ ha hc (allowsCurrent_iff.mpr ⟨d', hd', happ⟩)
  · rintro url rfl hgr
    have hl : (p.commit url).loading = false := by
      simp [loading, Permission.commit]
    obtain ⟨d, hd, happ⟩ := (hi.current (hg hgr)).1 hl
    have hk : (p.commit url).allowance ≠ none := by
      obtain ⟨f, -, ha⟩ := happ
      have ha : (p.commit url).allowance = some (d.url, f) := ha
      rw [ha]
      exact some_ne_none _
    exact (h.kept_commit hk).2
  · rintro url rfl hk
    exact h.kept_commit hk
  · rintro url rfl
    rfl

theorem fenced_of_law (hlaw : p.Law a (p.step a) granted)
    (hg : (∃ d, p.Answers a d) → (p.step a).inForce = true → granted) :
    p.Fenced a := by
  intro d ha hcommitted hcur
  obtain ⟨hc, hcurrent, hallow, -⟩ := step_answers ha
  refine hlaw.response d ha (hg ⟨d, ha⟩ ?_)
  have hl : (p.step a).loading = false := by
    rw [loading, hc, hcommitted]
    simp
  obtain ⟨d', hd', happ⟩ := allowsCurrent_iff.mp hcur
  unfold inForce
  rw [hl, if_neg Bool.false_ne_true]
  exact allowsCurrent_iff.mpr ⟨d', by rw [hcurrent]; exact hd',
    by rw [hallow]; exact happ⟩

end Permission

end Tasty.Html
