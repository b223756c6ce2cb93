/-
Whose results the idempotency store keeps: over all orders of its calls, an
entry is of the latest execution of its key, unless the result of an older
one arrives when the newer one is no longer in flight; and its bytes add up
and stay within the limits.
-/
import Mathlib.Data.List.Flatten
import Mathlib.Data.List.Nodup
import Tasty.Ipc.Idempotency

namespace Tasty.Ipc

open List

variable {Params Response Waiter : Type}

variable {e : Entry Response Waiter} {l : Latest Response}
  {w' : World Response Waiter} {ticket : Option Nat} {ws : List Waiter}
  {t now : Nat} {digest : UInt64} {r : Response}

-- ==== the entries

/-- What an entry is found by. -/
def Entry.name (e : Entry Response Waiter) : String × String :=
  (e.scope, e.key)

theorem isOf_iff {scope key : String} :
    e.isOf scope key = true ↔ e.name = (scope, key) := by
  simp [Entry.isOf, Entry.name]

/-- The retries that wait for it, each with the ticket it waits for. -/
def Entry.pending (e : Entry Response Waiter) : List (Nat × Waiter) :=
  match e.outcome with
  | .inFlight t ws => ws.map fun w => (t, w)
  | _ => []

/-- The store is as its operations keep it: no key has two entries, and the
bytes are those of the entries. -/
structure Store.Wf (s : Store Response Waiter) : Prop where
  names : (s.entries.map Entry.name).Nodup
  bytes : s.totalBytes = (s.entries.map Entry.bytes).sum

def Store.InBounds (s : Store Response Waiter) : Prop :=
  s.entries.length ≤ capacity ∧ s.totalBytes ≤ totalBudgetBytes

namespace Store

variable {s : Store Response Waiter} {scope key : String}

theorem find_mem (h : s.find scope key = some e) :
    e ∈ s.entries ∧ e.name = (scope, key) :=
  ⟨mem_of_find?_eq_some h, isOf_iff.1 (List.find?_some h)⟩

-- ==== removing one

theorem removeFirst_of_none {p : Entry Response Waiter → Bool}
    (h : s.entries.find? p = none) : s.removeFirst p = s := by
  unfold removeFirst
  rw [h]

theorem removeFirst_of_some {p : Entry Response Waiter → Bool}
    (h : s.entries.find? p = some e) :
    ∃ l₁ l₂, s.entries = l₁ ++ e :: l₂ ∧ s.removeFirst p = { s with
      entries := l₁ ++ l₂, totalBytes := s.totalBytes - e.bytes } := by
  obtain ⟨hp, l₁, l₂, hsplit, hbefore⟩ :=
    List.find?_eq_some_iff_append.1 h
  refine ⟨l₁, l₂, hsplit, ?_⟩
  have herase : s.entries.eraseP p = l₁ ++ l₂ := by
    rw [hsplit, eraseP_append_right _ fun b hb => by
      simpa using hbefore b hb, eraseP_cons_of_pos hp]
  unfold removeFirst
  rw [h, herase]

/-- All or nothing of an entry goes. -/
theorem removeFirst_spec (p : Entry Response Waiter → Bool) :
    (s.removeFirst p = s ∧ ∀ e ∈ s.entries, p e = false)
      ∨ ∃ e l₁ l₂, p e = true ∧ s.entries = l₁ ++ e :: l₂
        ∧ (s.removeFirst p) = { s with
            entries := l₁ ++ l₂, totalBytes := s.totalBytes - e.bytes } := by
  cases hfind : s.entries.find? p with
  | none =>
    refine .inl ⟨removeFirst_of_none hfind, fun e he => ?_⟩
    simpa using List.find?_eq_none.1 hfind e he
  | some e =>
    obtain ⟨l₁, l₂, hsplit, heq⟩ := removeFirst_of_some hfind
    exact .inr ⟨e, l₁, l₂, List.find?_some hfind, hsplit, heq⟩

theorem Wf.removeFirst (h : s.Wf) (p : Entry Response Waiter → Bool) :
    (s.removeFirst p).Wf := by
  rcases removeFirst_spec (s := s) p with ⟨heq, -⟩ | ⟨e, l₁, l₂, -, hsplit, heq⟩
  · rw [heq]
    exact h
  · rw [heq]
    obtain ⟨hnames, hbytes⟩ := h
    rw [hsplit] at hnames hbytes
    refine ⟨?_, ?_⟩
    · refine hnames.sublist (List.Sublist.map _ ?_)
      exact List.Sublist.append_left (sublist_cons_self e l₂) l₁
    · simp only [map_append, sum_append, map_cons, sum_cons] at hbytes ⊢
      omega

theorem entries_removeFirst (p : Entry Response Waiter → Bool) :
    (s.removeFirst p).entries.Sublist s.entries := by
  rcases removeFirst_spec (s := s) p with ⟨heq, -⟩ | ⟨e, l₁, l₂, -, hsplit, heq⟩
  · rw [heq]
  · rw [heq, hsplit]
    exact List.Sublist.append_left (sublist_cons_self e l₂) l₁

theorem nextTicket_removeFirst (p : Entry Response Waiter → Bool) :
    (s.removeFirst p).nextTicket = s.nextTicket := by
  rcases removeFirst_spec (s := s) p with ⟨heq, -⟩ | ⟨e, l₁, l₂, -, -, heq⟩
  · rw [heq]
  · rw [heq]

/-- No entry of the key is left. -/
theorem name_ne_of_mem_remove (h : s.Wf)
    (he : e ∈ (s.remove scope key).entries) : e.name ≠ (scope, key) := by
  rcases removeFirst_spec (s := s) (Entry.isOf scope key) with
    ⟨heq, hnone⟩ | ⟨e', l₁, l₂, hp, hsplit, heq⟩
  · intro hname
    unfold remove at he
    rw [heq] at he
    have := hnone e he
    rw [isOf_iff.2 hname] at this
    cases this
  · unfold remove at he
    rw [heq] at he
    have hnames := h.names
    rw [hsplit, map_append, map_cons, nodup_middle,
      nodup_cons, ← map_append] at hnames
    rw [← isOf_iff.1 hp]
    exact fun hname => hnames.1 (mem_map.2 ⟨e, he, hname⟩)

-- ==== removing from the front

variable {p : Store Response Waiter → Entry Response Waiter → Bool}

theorem popWhile_spec (l : List (Entry Response Waiter))
    (hbytes : s.totalBytes = (l.map Entry.bytes).sum) :
    (popWhile p l s).entries <:+ l
      ∧ (popWhile p l s).totalBytes
        = ((popWhile p l s).entries.map Entry.bytes).sum
      ∧ (popWhile p l s).nextTicket = s.nextTicket
      ∧ ∀ e rest, (popWhile p l s).entries = e :: rest →
        p (popWhile p l s) e = false := by
  induction l generalizing s with
  | nil => exact ⟨suffix_refl _, hbytes, rfl, fun e rest h => nomatch h⟩
  | cons e rest ih =>
    unfold popWhile
    by_cases hp : p { s with entries := e :: rest } e = true
    · rw [if_pos hp]
      have hrest : s.totalBytes - e.bytes
          = (rest.map Entry.bytes).sum := by
        rw [hbytes, map_cons, sum_cons]
        omega
      obtain ⟨hsuffix, hsum, hticket, hexit⟩ :=
        ih (s := { s with totalBytes := s.totalBytes - e.bytes }) hrest
      exact ⟨hsuffix.trans (suffix_cons _ _), hsum, hticket, hexit⟩
    · rw [if_neg hp]
      refine ⟨suffix_refl _, hbytes, rfl, fun e' rest' h => ?_⟩
      cases h
      exact Bool.not_eq_true _ ▸ hp

theorem Wf.popWhile (h : s.Wf) : (popWhile p s.entries s).Wf := by
  obtain ⟨hsuffix, hsum, -⟩ := popWhile_spec (p := p) s.entries h.bytes
  exact ⟨h.names.sublist (hsuffix.sublist.map _), hsum⟩

theorem inBounds_enforceBounds (h : s.Wf) : s.enforceBounds.InBounds := by
  obtain ⟨-, hsum, -, hexit⟩ := popWhile_spec
    (p := fun s _ => capacity < s.entries.length
      || totalBudgetBytes < s.totalBytes) s.entries h.bytes
  show (popWhile _ s.entries s).entries.length ≤ _ ∧ _
  cases hentries : (popWhile (fun s _ => capacity < s.entries.length
      || totalBudgetBytes < s.totalBytes) s.entries s).entries with
  | nil =>
    refine ⟨Nat.zero_le _, ?_⟩
    unfold enforceBounds
    rw [hsum, hentries]
    exact Nat.zero_le _
  | cons e rest =>
    have hfalse := hexit e rest hentries
    simp only [Bool.or_eq_false_iff, decide_eq_false_iff_not,
      Nat.not_lt] at hfalse
    rw [hentries] at hfalse
    exact hfalse

/-- A new entry, of a key that has none. -/
theorem Wf.push (h : s.Wf) (hnew : ∀ e' ∈ s.entries, e'.name ≠ e.name) :
    Wf { s with
      entries := s.entries ++ [e], totalBytes := s.totalBytes + e.bytes } := by
  refine ⟨?_, ?_⟩
  · rw [map_append, map_singleton, nodup_append]
    refine ⟨h.names, nodup_singleton _, ?_⟩
    intro n hn m hm
    obtain ⟨e', he', rfl⟩ := mem_map.1 hn
    rw [mem_singleton.1 hm]
    exact hnew e' he'
  · simp only [map_append, map_singleton, sum_append, sum_singleton, h.bytes]

-- ==== another entry

/-- The entry of a key in the place of the one before it. -/
def replace (s : Store Response Waiter) (e : Entry Response Waiter) :
    Store Response Waiter :=
  let s := s.remove e.scope e.key
  { s with
    entries := s.entries ++ [e]
    totalBytes := s.totalBytes + e.bytes }.enforceBounds

def pending (s : Store Response Waiter) : List (Nat × Waiter) :=
  s.entries.flatMap Entry.pending

theorem count_remove_le [DecidableEq Waiter] (x : Nat × Waiter) :
    (s.remove scope key).pending.count x ≤ s.pending.count x :=
  ((entries_removeFirst _).flatMap Entry.pending).count_le x

theorem replace_spec (h : s.Wf) (e : Entry Response Waiter) :
    (s.replace e).Wf ∧ (s.replace e).InBounds
      ∧ (s.replace e).nextTicket = s.nextTicket
      ∧ (s.replace e).entries <:+ (s.remove e.scope e.key).entries ++ [e] := by
  have hremoved : (s.remove e.scope e.key).Wf := h.removeFirst _
  have hpushed := hremoved.push (e := e) fun e' he' =>
    name_ne_of_mem_remove h he'
  have hspec := popWhile_spec (p := fun s _ => capacity < s.entries.length
    || totalBudgetBytes < s.totalBytes) _ hpushed.bytes
  refine ⟨hpushed.popWhile, inBounds_enforceBounds hpushed, ?_, hspec.1⟩
  exact hspec.2.2.1.trans (nextTicket_removeFirst _)

-- ==== joining

theorem modifyFirst_spec {p : Entry Response Waiter → Bool}
    {f : Entry Response Waiter → Entry Response Waiter}
    {l : List (Entry Response Waiter)} (h : l.find? p = some e) :
    ∃ l₁ l₂, l = l₁ ++ e :: l₂ ∧ modifyFirst p f l = l₁ ++ f e :: l₂ := by
  induction l with
  | nil => cases h
  | cons e' rest ih =>
    unfold modifyFirst
    by_cases hp : p e' = true
    · rw [List.find?_cons_of_pos hp] at h
      cases h
      rw [if_pos hp]
      exact ⟨[], rest, rfl, rfl⟩
    · rw [List.find?_cons_of_neg hp] at h
      obtain ⟨l₁, l₂, hsplit, hmodified⟩ := ih h
      rw [if_neg hp, hmodified, hsplit]
      exact ⟨e' :: l₁, l₂, rfl, rfl⟩

variable {s' : Store Response Waiter}

theorem sum_le_of_sublist {l l' : List Nat} (h : l.Sublist l') :
    l.sum ≤ l'.sum := by
  induction h with
  | slnil => exact Nat.le_refl _
  | cons a _ ih =>
    rw [sum_cons]
    omega
  | cons_cons a _ ih =>
    rw [sum_cons, sum_cons]
    omega

theorem InBounds.of_sublist (h : s.InBounds) (hs : s.Wf) (hs' : s'.Wf)
    (hsub : s'.entries.Sublist s.entries) : s'.InBounds := by
  refine ⟨Nat.le_trans hsub.length_le h.1, ?_⟩
  rw [hs'.bytes]
  exact Nat.le_trans (sum_le_of_sublist (hsub.map Entry.bytes))
    (hs.bytes ▸ h.2)

end Store

-- ==== the invariant

/-- The entry is of the execution. -/
def Entry.IsOf (e : Entry Response Waiter) (l : Latest Response) : Prop :=
  e.digest = l.digest ∧
    match e.outcome with
    | .inFlight t _ => l.ticket = some t
    | .response r => r ∈ l.results
    | .discarded => l.results ≠ []

/-- Which execution answered which retry. -/
def World.answers (w : World Response Waiter) : List (Nat × Waiter) :=
  w.answered.filterMap fun a => a.1.map fun t => (t, a.2.1)

/-- Each entry is of the latest execution of its key, a ticket names one
execution, and each retry is answered once at most, by the execution that it
joined. -/
structure Consistent [DecidableEq Waiter] (w : World Response Waiter) :
    Prop where
  wf : w.store.Wf
  inBounds : w.store.InBounds
  latest : ∀ e ∈ w.store.entries,
    ∃ l, w.latest e.scope e.key = some l ∧ e.IsOf l
  tickets : (w.opened.map Execution.ticket).Nodup
  issued : ∀ x ∈ w.opened, x.ticket ≤ w.store.nextTicket
  current : ∀ scope key l t, w.latest scope key = some l →
    l.ticket = some t → Execution.mk t scope key l.digest ∈ w.opened
  answers : ∀ x,
    w.answers.count x + w.store.pending.count x ≤ w.joined.count x
  named : ∀ a ∈ w.answered, a.1 ≠ none

/-- Fewer than `2 ^ 64` executions are opened, and the result of one that is
not the latest of its key arrives only while another one is in flight. -/
def Call.OnTime (w : World Response Waiter) :
    Call Params Response Waiter → Prop
  | .open _ _ _ _ => w.store.nextTicket + 1 < 2 ^ 64
  | .settle _ scope key _ (some t) _ => w.latestTicket scope key ≠ some t →
      ∃ e, w.store.find scope key = some e ∧ e.outcome.isInFlight = true
  | _ => True

variable {s : Store Response Waiter}

section Calls

variable {w : World Response Waiter} {scope key : String}

theorem latest_setLatest (l : Latest Response) :
    (w.setLatest scope key l).latest scope key = some l :=
  if_pos ⟨rfl, rfl⟩

theorem latest_setLatest_of_ne {sc k : String} (h : (sc, k) ≠ (scope, key)) :
    (w.setLatest scope key l).latest sc k = w.latest sc k :=
  if_neg fun heq => h (Prod.ext heq.1 heq.2)

theorem join_spec (s : Store Response Waiter) (waiter : Waiter) :
    s.join scope key waiter = (none, s)
      ∨ ∃ e t ws l₁ l₂, e.outcome = .inFlight t ws
        ∧ s.entries = l₁ ++ e :: l₂
        ∧ s.join scope key waiter = (some t, { s with
            entries := l₁ ++ { e with
              outcome := .inFlight t (ws ++ [waiter]) } :: l₂ }) := by
  unfold Store.join
  cases hfind : s.find scope key with
  | none => exact .inl rfl
  | some e =>
    cases hout : e.outcome with
    | inFlight t ws =>
      obtain ⟨l₁, l₂, hsplit, hmodified⟩ :=
        Store.modifyFirst_spec (f := Entry.joinedBy waiter) hfind
      refine .inr ⟨e, t, ws, l₁, l₂, hout, hsplit, ?_⟩
      dsimp only
      rw [hmodified, Entry.joinedBy, hout]
    | response r | discarded =>
      refine .inl ?_
      dsimp only
      rw [hout]

/-- A result is refused only while another execution is in flight. -/
theorem takeWaiters_none (h : w.store.takeWaiters scope key ticket = none) :
    ∃ t e t' ws, ticket = some t ∧ w.store.find scope key = some e
      ∧ e.outcome = .inFlight t' ws ∧ t' ≠ t := by
  unfold Store.takeWaiters at h
  split at h
  · rename_i mine e hfind
    split at h
    · rename_i t' ws hout
      split at h
      · cases h
      · rename_i hne
        exact ⟨mine, e, t', ws, rfl, hfind, hout, hne⟩
    · cases h
  · cases h

theorem takeWaiters_some (h : w.store.takeWaiters scope key ticket = some ws) :
    ws = [] ∨ ∃ t e, ticket = some t ∧ w.store.find scope key = some e
      ∧ e.outcome = .inFlight t ws := by
  unfold Store.takeWaiters at h
  split at h
  · rename_i mine e hfind
    split at h
    · rename_i t ws' hout
      split at h
      · rename_i heq
        cases h
        exact .inr ⟨mine, e, rfl, hfind, heq ▸ hout⟩
      · cases h
    · cases h
      exact .inl rfl
  · cases h
    exact .inl rfl

theorem takeWaiters_inFlight {t' : Nat}
    (hfind : w.store.find scope key = some e)
    (hout : e.outcome = .inFlight t' ws) :
    w.store.takeWaiters scope key (some t)
      = if t' = t then some ws else none := by
  unfold Store.takeWaiters
  rw [hfind]
  dsimp only
  rw [hout]

theorem answers_append (ticket : Option Nat) (r : Response)
    (ws : List Waiter) (w' : World Response Waiter)
    (h : w'.answered = w.answered ++ ws.map fun waiter => (ticket, waiter, r)) :
    w'.answers = w.answers ++ ws.filterMap fun waiter =>
      ticket.map fun t => (t, waiter) := by
  unfold World.answers
  rw [h, filterMap_append, filterMap_map]
  rfl

variable [ResponseSize Response]

theorem settled_isOf (now : Nat) {digest : UInt64} {r : Response}
    {l : Latest Response} (hdigest : digest = l.digest) (hr : r ∈ l.results) :
    (Store.settled now scope key digest r : Entry Response Waiter).IsOf l
      ∧ (Store.settled now scope key digest r
          : Entry Response Waiter).pending = []
      ∧ (Store.settled now scope key digest r
          : Entry Response Waiter).name = (scope, key) := by
  unfold Store.settled
  dsimp only
  split
  · exact ⟨⟨hdigest, ne_nil_of_mem hr⟩, rfl, rfl⟩
  · exact ⟨⟨hdigest, hr⟩, rfl, rfl⟩

theorem settle_of_some (h : s.takeWaiters scope key ticket = some ws) :
    (s.settle now scope key digest ticket r).1.waiters = ws
      ∧ (s.settle now scope key digest ticket r).2
        = s.replace (Store.settled now scope key digest r) := by
  have hscope : (Store.settled now scope key digest r
      : Entry Response Waiter).scope = scope := by
    unfold Store.settled
    dsimp only
    split <;> rfl
  have hkey : (Store.settled now scope key digest r
      : Entry Response Waiter).key = key := by
    unfold Store.settled
    dsimp only
    split <;> rfl
  unfold Store.settle Store.replace
  rw [h, hscope, hkey]
  exact ⟨rfl, rfl⟩

theorem settle_of_none (h : s.takeWaiters scope key ticket = none) :
    s.settle now scope key digest ticket r = (⟨[], false⟩, s) := by
  unfold Store.settle
  rw [h]

end Calls

section Steps

variable [DecidableEq Waiter] {w : World Response Waiter}
  {scope key : String}

variable (h : Consistent w)

include h

theorem Consistent.shrink {s' : Store Response Waiter}
    (hwf : s'.Wf) (hsub : s'.entries.Sublist w.store.entries)
    (hticket : s'.nextTicket = w.store.nextTicket) :
    Consistent { w with store := s' } where
  wf := hwf
  inBounds := h.inBounds.of_sublist h.wf hwf hsub
  latest := fun e he => h.latest e (hsub.subset he)
  tickets := h.tickets
  issued := fun x hx => (hticket ▸ h.issued x hx :)
  current := h.current
  answers := fun x => by
    have hle := (hsub.flatMap Entry.pending).count_le x
    have hold := h.answers x
    show w.answers.count x + s'.pending.count x ≤ w.joined.count x
    unfold Store.pending at hold ⊢
    omega
  named := h.named

theorem Consistent.decide [RequestDigest Params]
    (now : Nat) (method : String) (params : Params) :
    Consistent { w with
      store := (w.store.decide now scope key method params).2 } := by
  obtain ⟨hsuffix, hsum, hticket, -⟩ := Store.popWhile_spec
    (p := fun _ e => retention ≤ now - e.storedAt) w.store.entries
    h.wf.bytes
  refine h.shrink ⟨?_, hsum⟩ hsuffix.sublist hticket
  exact h.wf.names.sublist (hsuffix.sublist.map _)

theorem Consistent.abandon (ticket : Nat) :
    Consistent { w with store := w.store.abandon scope key ticket } :=
  h.shrink (h.wf.removeFirst _) (Store.entries_removeFirst _)
    (Store.nextTicket_removeFirst _)

theorem Consistent.abandonUnhandled (ticket : Nat) :
    Consistent { w with
      store := w.store.abandonUnhandled scope key ticket } := by
  have hwf : (w.store.abandon scope key ticket).Wf := h.wf.removeFirst _
  refine h.shrink ⟨hwf.names, hwf.bytes⟩ ?_ ?_
  · exact Store.entries_removeFirst _
  · exact Store.nextTicket_removeFirst _

theorem latest_of_remove (hlatest : w'.latest = w.latest)
    (he : e ∈ (w.store.remove scope key).entries) :
    ∃ l', (w'.setLatest scope key l).latest e.scope e.key = some l'
      ∧ e.IsOf l' := by
  have hne := Store.name_ne_of_mem_remove h.wf he
  obtain ⟨l', hl', hof⟩ := h.latest e
    ((Store.entries_removeFirst _).subset he)
  refine ⟨l', ?_, hof⟩
  rw [latest_setLatest_of_ne hne, hlatest]
  exact hl'

theorem Consistent.replace (hstore : w'.store = w.store.replace e)
    (hlatest : w'.latest = w.latest) (hof : e.IsOf l)
    (htickets : (w'.opened.map Execution.ticket).Nodup)
    (hissued : ∀ x ∈ w'.opened, x.ticket ≤ w.store.nextTicket)
    (hopened : ∀ x ∈ w.opened, x ∈ w'.opened)
    (hcurrent : ∀ t, l.ticket = some t →
      Execution.mk t e.scope e.key l.digest ∈ w'.opened)
    (hanswers : ∀ x, w'.answers.count x + e.pending.count x
      + (w.store.remove e.scope e.key).pending.count x ≤ w'.joined.count x)
    (hnamed : ∀ a ∈ w'.answered, a.1 ≠ none) :
    Consistent (w'.setLatest e.scope e.key l) := by
  obtain ⟨hwf, hbounds, hticket, hsuffix⟩ :=
    Store.replace_spec h.wf e
  refine ⟨hstore ▸ hwf, hstore ▸ hbounds, fun e' he' => ?_, htickets,
    fun x hx => ?_, fun sc k l' t hl' ht => ?_, fun x => ?_, hnamed⟩
  · rw [show (w'.setLatest e.scope e.key l).store = w.store.replace e
      from hstore] at he'
    rcases mem_append.1 (hsuffix.subset he') with he' | he'
    · exact latest_of_remove h hlatest he'
    · rw [mem_singleton.1 he']
      exact ⟨l, latest_setLatest l, hof⟩
  · show x.ticket ≤ w'.store.nextTicket
    rw [hstore, hticket]
    exact hissued x hx
  · by_cases hkey : (sc, k) = (e.scope, e.key)
    · cases hkey
      rw [latest_setLatest] at hl'
      cases hl'
      exact hcurrent t ht
    · rw [latest_setLatest_of_ne hkey, hlatest] at hl'
      exact hopened _ (h.current sc k l' t hl' ht)
  · have hle := (hsuffix.sublist.flatMap Entry.pending).count_le x
    rw [flatMap_append, count_append] at hle
    have hone : ([e].flatMap Entry.pending).count x = e.pending.count x := by
      simp
    have hall := hanswers x
    show w'.answers.count x + w'.store.pending.count x ≤ w'.joined.count x
    rw [hstore]
    unfold Store.pending at hall ⊢
    omega

omit h

theorem count_takeWaiters (hfind : w.store.find scope key = some e)
    (hout : e.outcome = .inFlight t ws) (x : Nat × Waiter) :
    (ws.map fun waiter => (t, waiter)).count x
      + (w.store.remove scope key).pending.count x
      = w.store.pending.count x := by
  obtain ⟨l₁, l₂, hsplit, heq⟩ := Store.removeFirst_of_some hfind
  have hpending : e.pending = ws.map fun waiter => (t, waiter) := by
    unfold Entry.pending
    rw [hout]
  unfold Store.pending Store.remove
  rw [heq, hsplit]
  simp only [flatMap_append, flatMap_cons, count_append, hpending]
  omega

theorem Consistent.latestTicket (h : Consistent w)
    (hfind : w.store.find scope key = some e)
    (hout : e.outcome = .inFlight t ws) :
    w.latestTicket scope key = some t := by
  obtain ⟨hmem, hname⟩ := Store.find_mem hfind
  obtain ⟨l, hl, -, hticket⟩ := h.latest e hmem
  rw [hout] at hticket
  cases hname
  unfold World.latestTicket
  rw [hl]
  exact hticket

theorem consistent_initial : Consistent (.initial : World Response Waiter) where
  wf := ⟨nodup_nil, rfl⟩
  inBounds := ⟨Nat.zero_le _, Nat.zero_le _⟩
  latest := fun _ he => nomatch he
  tickets := nodup_nil
  issued := fun _ hx => nomatch hx
  current := fun _ _ _ _ h => nomatch h
  answers := fun _ => Nat.le_refl _
  named := fun _ ha => nomatch ha

/-- A late execution that ends without a result changes nothing. -/
theorem Consistent.late_abandon (h : Consistent w)
    (hlate : w.latestTicket scope key ≠ some t) :
    w.store.abandon scope key t = w.store := by
  refine Store.removeFirst_of_none (List.find?_eq_none.2 fun e he hruns => ?_)
  simp only [Bool.and_eq_true] at hruns
  obtain ⟨hisOf, hruns⟩ := hruns
  obtain ⟨l, hl, -, hticket⟩ := h.latest e he
  unfold Entry.runs at hruns
  split at hruns
  · rename_i t' ws hout
    rw [hout] at hticket
    have hname := isOf_iff.1 hisOf
    cases hname
    refine hlate ?_
    unfold World.latestTicket
    rw [hl]
    simpa [of_decide_eq_true hruns] using hticket
  · cases hruns

variable [RequestDigest Params] [ResponseSize Response]

/-- A new execution gets a ticket that no other has. -/
theorem Consistent.open (h : Consistent w) (now : Nat) (digest : UInt64)
    (hroom : w.store.nextTicket + 1 < 2 ^ 64) :
    Consistent (w.call (.open now scope key digest
      : Call Params Response Waiter)) := by
  let ticket := (w.store.nextTicket + 1) % 2 ^ 64
  have hticket : ticket = w.store.nextTicket + 1 := Nat.mod_eq_of_lt hroom
  have hcounted : Consistent
      { w with store := { w.store with nextTicket := ticket } } := by
    refine ⟨⟨h.wf.names, h.wf.bytes⟩, h.inBounds, h.latest, h.tickets,
      fun x hx => ?_, h.current, h.answers, h.named⟩
    have := h.issued x hx
    show x.ticket ≤ ticket
    omega
  refine hcounted.replace
    (e := ⟨scope, key, digest, now, .inFlight ticket [], 0⟩)
    (l := ⟨some ticket, digest, []⟩) rfl rfl ⟨rfl, rfl⟩ ?_ ?_ ?_ ?_ ?_
    h.named
  · show ((w.opened ++ [_]).map Execution.ticket).Nodup
    rw [map_append, map_singleton, nodup_append]
    refine ⟨h.tickets, nodup_singleton _, ?_⟩
    intro t ht t' ht' heq
    obtain ⟨x, hx, rfl⟩ := mem_map.1 ht
    have hle := h.issued x hx
    rw [mem_singleton.1 ht'] at heq
    have hnew : x.ticket = ticket := heq
    omega
  · intro x hx
    rcases mem_append.1 hx with hx | hx
    · exact hcounted.issued x hx
    · rw [mem_singleton.1 hx]
      exact Nat.le_refl _
  · exact fun x hx => mem_append_left _ hx
  · rintro t ht
    cases ht
    exact mem_append_right _ (mem_singleton_self _)
  · intro x
    refine Nat.le_trans (Nat.add_le_add_left ?_ _) (hcounted.answers x)
    exact Store.count_remove_le x

theorem Consistent.join (h : Consistent w) (waiter : Waiter) :
    Consistent (w.call (.join scope key waiter
      : Call Params Response Waiter)) := by
  unfold World.call
  dsimp only
  have hspec : _ ∨ _ := @join_spec _ _ scope key w.store waiter
  rcases hspec with heq | ⟨e, t, ws, l₁, l₂, hout, hsplit, heq⟩
  · rw [heq]
    refine ⟨h.wf, h.inBounds, h.latest, h.tickets, h.issued, h.current,
      fun x => ?_, h.named⟩
    show _ ≤ (w.joined ++ []).count x
    rw [append_nil]
    exact h.answers x
  · rw [heq]
    have hwf := h.wf
    refine ⟨⟨?_, ?_⟩, ⟨?_, h.inBounds.2⟩, fun e' he' => ?_, h.tickets,
      h.issued, h.current, fun x => ?_, h.named⟩
    · have hnames := hwf.names
      rw [hsplit] at hnames
      simpa [Entry.name] using hnames
    · have hbytes := hwf.bytes
      rw [hsplit] at hbytes
      simpa using hbytes
    · have hlen := h.inBounds.1
      rw [hsplit] at hlen
      simpa using hlen
    · have hold : ∀ e'' ∈ l₁ ++ e :: l₂,
          ∃ l, w.latest e''.scope e''.key = some l ∧ e''.IsOf l := by
        rw [← hsplit]
        exact h.latest
      rw [mem_append, mem_cons] at he'
      rcases he' with he' | rfl | he'
      · exact hold e' (mem_append_left _ he')
      · obtain ⟨l, hl, hdigest, hticket⟩ := hold e
          (mem_append_right _ mem_cons_self)
        rw [hout] at hticket
        exact ⟨l, hl, hdigest, hticket⟩
      · exact hold e' (mem_append_right _ (mem_cons_of_mem _ he'))
    · have hold := h.answers x
      unfold Store.pending at hold
      rw [hsplit, flatMap_append, flatMap_cons,
        count_append, count_append] at hold
      have hpending : e.pending = ws.map fun w => (t, w) := by
        unfold Entry.pending
        rw [hout]
      rw [hpending] at hold
      show w.answers.count x + ((l₁ ++ _ :: l₂).flatMap _).count x
        ≤ (w.joined ++ [(t, waiter)]).count x
      rw [flatMap_append, flatMap_cons, count_append,
        count_append, count_append]
      have hone : ({ e with outcome := .inFlight t (ws ++ [waiter])
          } : Entry Response Waiter).pending.count x
            = (ws.map fun w => (t, w)).count x
              + [(t, waiter)].count x := by
        rw [← count_append]
        simp [Entry.pending]
      omega

omit [RequestDigest Params] in
theorem Consistent.settled (h : Consistent w) (now : Nat)
    (htake : w.store.takeWaiters scope key ticket = some ws)
    (hstore : w'.store = (w.store.settle now scope key digest ticket r).2)
    (hlatest : w'.latest = w.latest) (hopened : w'.opened = w.opened)
    (hjoined : w'.joined = w.joined) (hanswered : w'.answered = w.answered
      ++ ws.map fun waiter => (ticket, waiter, r))
    (hdigest : digest = l.digest) (hr : r ∈ l.results)
    (hcurrent : ∀ t, l.ticket = some t →
      Execution.mk t scope key l.digest ∈ w.opened) :
    Consistent (w'.setLatest scope key l) := by
  obtain ⟨hof, hpending, hname⟩ := @settled_isOf Response Waiter scope key _
    now _ _ _ hdigest hr
  obtain ⟨hscope, hkey⟩ := Prod.ext_iff.1 hname
  change (Store.settled now scope key digest r).scope = scope at hscope
  change (Store.settled now scope key digest r).key = key at hkey
  have hreplaced : w'.store
      = w.store.replace (Store.settled now scope key digest r) :=
    hstore.trans (settle_of_some htake).2
  have hkept := h.replace hreplaced hlatest hof (hopened ▸ h.tickets)
    (hopened ▸ h.issued) (fun x hx => hopened ▸ hx)
  rw [hscope, hkey, hopened, hjoined, hpending] at hkept
  refine hkept hcurrent (fun x => ?_) fun a ha => ?_
  · rw [answers_append ticket r ws w' hanswered, count_append]
    have hold := h.answers x
    have hnil : ([] : List (Nat × Waiter)).count x = 0 := rfl
    rcases takeWaiters_some htake with rfl | ⟨t, e, rfl, hfind, hout⟩
    · have hle : (w.store.remove scope key).pending.count x
          ≤ w.store.pending.count x := Store.count_remove_le x
      rw [filterMap_nil]
      omega
    · have heq := count_takeWaiters hfind hout x
      rw [show (ws.filterMap fun waiter => (some t).map fun t =>
          (t, waiter)) = ws.map fun waiter => (t, waiter) from
        congrFun filterMap_eq_map ws]
      omega
  · rw [hanswered] at ha
    rcases mem_append.1 ha with ha | ha
    · exact h.named a ha
    · obtain ⟨waiter, hwaiter, rfl⟩ := mem_map.1 ha
      rcases takeWaiters_some htake with rfl | ⟨t, e, rfl, -, -⟩
      · cases hwaiter
      · exact nofun

omit [DecidableEq Waiter] in
/-- The result of an execution while another one is in flight changes
nothing. -/
theorem call_settle_none (h : w.store.takeWaiters scope key (some t) = none)
    (hne : w.latestTicket scope key ≠ some t) :
    w.call (.settle now scope key digest (some t) r
      : Call Params Response Waiter) = w := by
  unfold World.call World.report
  dsimp only
  rw [settle_of_none h]
  cases hl : w.latest scope key with
  | none => simp
  | some l =>
    have hticket : l.ticket ≠ some t := by
      intro heq
      unfold World.latestTicket at hne
      rw [hl] at hne
      exact hne heq
    simp [hticket]

/-- A result that comes on time leaves the store consistent. -/
theorem Consistent.settle (h : Consistent w) (now : Nat) {digest : UInt64}
    {ticket : Option Nat} {r : Response}
    (hwf : (Call.settle now scope key digest ticket r
      : Call Params Response Waiter).WellFormed w)
    (htime : (Call.settle now scope key digest ticket r
      : Call Params Response Waiter).OnTime w) :
    Consistent (w.call (.settle now scope key digest ticket r
      : Call Params Response Waiter)) := by
  cases htake : w.store.takeWaiters scope key ticket with
  | none =>
    -- another execution is in flight, which is the latest
    obtain ⟨t, e, t', ws, rfl, hfind, hout, hne⟩ := takeWaiters_none htake
    have hlatest := h.latestTicket hfind hout
    rw [call_settle_none htake (fun heq => hne (by
      rw [hlatest] at heq
      exact Option.some.inj heq))]
    exact h
  | some ws =>
    cases ticket with
    | none =>
      refine h.settled (l := ⟨none, digest, [r]⟩) now htake rfl rfl rfl
        rfl ?_ rfl (mem_singleton_self r) (fun t ht => nomatch ht)
      rw [(settle_of_some htake).1]
    | some t =>
      -- the execution that reports is the latest
      have hlatest : w.latestTicket scope key = some t := by
        by_contra hne
        obtain ⟨e, hfind, hflight⟩ := htime hne
        cases hout : e.outcome with
        | inFlight t' ws' =>
          rw [takeWaiters_inFlight hfind hout] at htake
          split at htake
          · rename_i heq
            exact hne (heq ▸ h.latestTicket hfind hout)
          · cases htake
        | _ =>
          rw [hout] at hflight
          cases hflight
      obtain ⟨l, hl, hticket⟩ := Option.bind_eq_some_iff.1 hlatest
      have hcurrent := h.current scope key l t hl hticket
      have hdigest : digest = l.digest :=
        congrArg Execution.digest (inj_on_of_nodup_map h.tickets
          hwf hcurrent rfl)
      let w' : World Response Waiter := { w with
        store := (w.store.settle now scope key digest (some t) r).2
        answered := w.answered
          ++ ws.map fun waiter => (some t, waiter, r) }
      let l' : Latest Response := { l with results := l.results ++ [r] }
      have hstore : w'.store
          = (w.store.settle now scope key digest (some t) r).2 := rfl
      have hreport := h.settled (l := l') now htake hstore rfl
        rfl rfl rfl hdigest
        (mem_append_right _ (mem_singleton_self r))
        fun t' ht' => by
          rw [hticket] at ht'
          cases ht'
          exact hcurrent
      unfold World.call World.report
      dsimp only
      rw [hl, (settle_of_some htake).1]
      dsimp only
      rw [if_pos hticket]
      exact hreport

theorem Consistent.call (h : Consistent w) {c : Call Params Response Waiter}
    (hwf : c.WellFormed w) (htime : c.OnTime w) : Consistent (w.call c) := by
  cases c with
  | decide now scope key method params => exact h.decide now method params
  | «open» now scope key digest => exact h.open now digest htime
  | join scope key waiter => exact h.join waiter
  | settle now scope key digest ticket r => exact h.settle now hwf htime
  | abandon scope key ticket => exact h.abandon ticket
  | abandonUnhandled scope key ticket => exact h.abandonUnhandled ticket

theorem World.Reachable.consistent
    (h : w.Reachable (@Call.OnTime Params Response Waiter)) : Consistent w := by
  induction h with
  | initial => exact consistent_initial
  | call c _ hwf htime ih => exact ih.call hwf htime

omit [RequestDigest Params] in
/-- A late result changes nothing, if it comes on time. -/
theorem Consistent.late_settle (h : Consistent w)
    (hlate : w.latestTicket scope key ≠ some t)
    (htime : (Call.settle now scope key digest (some t) r
      : Call Params Response Waiter).OnTime w) :
    w.store.settle now scope key digest (some t) r
      = (⟨[], false⟩, w.store) := by
  obtain ⟨e, hfind, hflight⟩ := htime hlate
  refine settle_of_none ?_
  cases hout : e.outcome with
  | inFlight t' ws =>
    rw [takeWaiters_inFlight hfind hout, if_neg]
    rintro rfl
    exact hlate (h.latestTicket hfind hout)
  | _ =>
    rw [hout] at hflight
    cases hflight

omit [DecidableEq Waiter] [ResponseSize Response] in
theorem find_of_execute {method : String} {params : Params}
    (h : (s.decide now scope key method params).1 = .execute digest) :
    (s.decide now scope key method params).2.find scope key = none := by
  unfold Store.decide Store.judge at h
  dsimp only at h
  split at h
  · rename_i hfind
    exact hfind
  · split at h
    · cases h
    · split at h <;> cases h

/-- Results belong to their execution. In every run in which the result of
an older execution of a key only arrives while the newer one is in flight:
each entry is of the latest execution of its key, with its digest and one of
its results; late results and late ends change nothing; a request is only
executed when its key has no entry; each retry is answered once at most, and
by the execution that it joined; and the bytes add up and stay within the
limits, as do the entries. -/
theorem idempotency_executions
    (h : w.Reachable (@Call.OnTime Params Response Waiter)) :
    Consistent w
      ∧ (∀ (scope key : String) (now t : Nat) (digest : UInt64)
          (r : Response), w.latestTicket scope key ≠ some t →
          (Call.settle now scope key digest (some t) r
            : Call Params Response Waiter).OnTime w →
          w.store.settle now scope key digest (some t) r
            = (⟨[], false⟩, w.store))
      ∧ (∀ (scope key : String) (t : Nat),
          w.latestTicket scope key ≠ some t →
          w.store.abandon scope key t = w.store)
      ∧ ∀ (now : Nat) (scope key method : String) (params : Params)
          (digest : UInt64),
          (w.store.decide now scope key method params).1
            = .execute digest →
          (w.store.decide now scope key method params).2.find scope key
            = none := by
  have hc := h.consistent
  exact ⟨hc, fun _ _ _ _ _ _ hlate htime =>
      hc.late_settle hlate htime,
    fun _ _ _ hlate => hc.late_abandon hlate,
    fun _ _ _ _ _ _ => find_of_execute⟩

end Steps

section Samples

local instance unitDigest : RequestDigest Unit := ⟨fun _ _ => 0⟩

local instance natSize : ResponseSize Nat := ⟨fun _ => 1⟩

/-- An execution that a retry joins, and its result. -/
def joinedWorld : World Nat Nat :=
  ((World.initial.call (.open 0 "local" "k" 1 : Call Unit Nat Nat)).call
    (.join "local" "k" 7 : Call Unit Nat Nat)).call
      (.settle 5 "local" "k" 1 (some 1) 40 : Call Unit Nat Nat)

theorem idempotency_executions_joined : Consistent joinedWorld := by
  have h₁ : (World.initial.call (.open 0 "local" "k" 1
      : Call Unit Nat Nat)).Reachable (@Call.OnTime Unit Nat Nat) :=
    .call _ .initial trivial (by unfold Call.OnTime; decide)
  have h₂ := h₁.call (.join "local" "k" 7) trivial trivial
  exact (idempotency_executions (h₂.call (.settle 5 "local" "k" 1 (some 1) 40)
    (by unfold Call.WellFormed; decide) fun h => absurd rfl h)).1

/-- An execution that is forgotten, and another one that has ended. -/
def overtakenWorld : World Nat Nat :=
  (((World.initial.call (.open 0 "local" "k" 1 : Call Unit Nat Nat)).call
    (.decide 600000 "local" "k" "m" ())).call
      (.open 600000 "local" "k" 2 : Call Unit Nat Nat)).call
        (.settle 600001 "local" "k" 2 (some 2) 40 : Call Unit Nat Nat)

/-- The result of the first one takes the place of that of the second. -/
theorem late_result_stored : ¬ ∀ w : World Nat Nat,
    w.Reachable (fun _ (_ : Call Unit Nat Nat) => True) →
    ∀ (scope key : String) (t now : Nat) (digest : UInt64) (r : Nat),
      Execution.mk t scope key digest ∈ w.opened →
      w.latestTicket scope key ≠ some t →
      (w.store.settle now scope key digest (some t) r).2.find scope key
        = w.store.find scope key := by
  intro h
  have hreach : overtakenWorld.Reachable
      (fun _ (_ : Call Unit Nat Nat) => True) :=
    (((World.Reachable.initial.call (.open 0 "local" "k" 1) trivial
      trivial).call (.decide 600000 "local" "k" "m" ()) trivial trivial).call
      (.open 600000 "local" "k" 2) trivial trivial).call
      (.settle 600001 "local" "k" 2 (some 2) 40)
      (by unfold Call.WellFormed; decide) trivial
  have heq := h overtakenWorld hreach "local" "k" 1 600002 1 41 (by decide)
    (by decide)
  exact absurd (congrArg (Option.map Entry.digest) heq) (by decide)

end Samples

end Tasty.Ipc
