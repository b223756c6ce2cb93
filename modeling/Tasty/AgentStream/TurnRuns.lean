/-
Over any calls a turn is open only at a watched surface, ends with exactly
one event that carries its request, and tags the events in between; a tail
is written back to the watch it was taken from or to none.

What a call records is read off the open turns before it (`Records`), and
what it does to the watch of a surface is one of few moves (`Moves`). Two
watches of a surface never share a generation, which is what keeps a late
tail out.
-/
import Tasty.AgentStream.Turns

namespace Tasty.AgentStream.Turns

open List Option Function

open Sse (StreamEvent BufferedEvent TurnState)

namespace Registry

variable {r r₁ r₂ : Registry} {es : List BufferedEvent} {id sid : UInt32}
  {sessionId reason : String} {event : StreamEvent} {now : Nat} {w : Watch}

-- ==== the turns

/-- The request of the turn that is open at a surface. -/
def openTurn (r : Registry) : UInt32 → Option String :=
  BTreeMap.view TurnState.requestId r.turns

/-- The events that a call records, and the turns that they end: each
carries what was open at its surface, and no surface gets two. -/
structure Records (r : Registry) (es : List BufferedEvent)
    (r' : Registry) : Prop where
  tagged : ∀ e ∈ es, e.requestId = r.openTurn e.surfaceId
  once : (es.map BufferedEvent.surfaceId).Nodup
  closed : ∀ e ∈ es, e.event.kind = .turnEnd →
    r'.openTurn e.surfaceId = none
  stays : ∀ id, (∀ e ∈ es, e.surfaceId = id → e.event.kind ≠ .turnEnd) →
    r'.openTurn id = r.openTurn id

theorem Records.nil (h : r₁.turns = r.turns) : Records r [] r₁ where
  tagged := fun _ he => absurd he not_mem_nil
  once := nodup_nil
  closed := fun _ he => absurd he not_mem_nil
  stays := fun id _ => by rw [openTurn, openTurn, h]

theorem Records.cons {e : BufferedEvent} (h : Records r [e] r₁)
    (hes : Records r₁ es r₂)
    (hnew : e.surfaceId ∉ es.map BufferedEvent.surfaceId) :
    Records r (e :: es) r₂ := by
  have hother : ∀ e' ∈ es, e'.surfaceId ≠ e.surfaceId := by
    intro e' he' heq
    exact hnew (heq ▸ mem_map_of_mem he')
  have hfirst : ∀ id, id ≠ e.surfaceId → r₁.openTurn id = r.openTurn id := by
    intro id hid
    refine h.stays id fun e' he' heq => ?_
    rw [mem_singleton.1 he'] at heq
    exact absurd heq.symm hid
  refine ⟨?_, nodup_cons.2 ⟨hnew, hes.once⟩, ?_, ?_⟩
  · intro e' he'
    rcases mem_cons.1 he' with rfl | he'
    · exact h.tagged _ (mem_singleton.2 rfl)
    · rw [hes.tagged e' he', hfirst _ (hother e' he')]
  · intro e' he' hkind
    rcases mem_cons.1 he' with rfl | he'
    · rw [hes.stays _ fun e he heq => absurd heq (hother e he)]
      exact h.closed _ (mem_singleton.2 rfl) hkind
    · exact hes.closed e' he' hkind
  · intro id hid
    rw [hes.stays id fun e he => hid e (mem_cons_of_mem _ he)]
    refine h.stays id fun e' he' => ?_
    rw [mem_singleton.1 he']
    exact hid e mem_cons_self

theorem openTurn_number (r : Registry) (sid : UInt32) (sessionId : String)
    (event : StreamEvent) (now : Nat) : BTreeMap.view TurnState.requestId
      (r.number sid sessionId event now).1.turns = r.openTurn := by
  unfold Sse.StreamRegistry.number openTurn
  cases hturn : r.turns[sid]? with
  | none => rfl
  | some turn => exact BTreeMap.view_insert_same hturn rfl

theorem openTurn_pushEvent (r : Registry) (sid : UInt32)
    (sessionId : String) (event : StreamEvent) (now : Nat) :
    (r.pushEvent sid sessionId event now).1.openTurn
      = if event.kind = .turnEnd then Function.update r.openTurn sid none
        else r.openTurn := by
  rw [← openTurn_number r sid sessionId event now]
  by_cases hkind : event.kind = .turnEnd
  · rw [if_pos hkind, ← BTreeMap.view_erase]
    exact congrArg (BTreeMap.view TurnState.requestId) (if_pos hkind)
  · rw [if_neg hkind]
    exact congrArg (BTreeMap.view TurnState.requestId) (if_neg hkind)

/-- An event is pushed between changes that leave the turns alone. -/
theorem Records.push (h : r₁.turns = r.turns)
    (h' : r₂.turns = (r₁.pushEvent sid sessionId event now).1.turns) :
    Records r [(r₁.pushEvent sid sessionId event now).2] r₂ := by
  have hopen : r₁.openTurn = r.openTurn := by rw [openTurn, openTurn, h]
  have hturns := openTurn_pushEvent r₁ sid sessionId event now
  rw [openTurn, ← h', hopen] at hturns
  refine ⟨?_, nodup_singleton _, ?_, ?_⟩
  · intro e he
    rw [mem_singleton.1 he, ← hopen]
    rfl
  · intro e he hkind
    rw [mem_singleton.1 he] at hkind ⊢
    have hkind : event.kind = .turnEnd := hkind
    show BTreeMap.view _ r₂.turns sid = none
    rw [hturns, if_pos hkind, update_self]
  · intro id hid
    show BTreeMap.view _ r₂.turns id = _
    rw [hturns]
    by_cases hkind : event.kind = .turnEnd
    · rw [if_pos hkind]
      refine update_of_ne ?_ _ _
      intro heq
      exact hid _ (mem_singleton.2 rfl) heq.symm hkind
    · rw [if_neg hkind]

theorem remove_records (r : Registry) (sid : UInt32) (reason : String)
    (now : Nat) : Records r (r.remove sid reason now).events
      (r.remove sid reason now).registry := by
  unfold remove
  split
  · exact .nil rfl
  · exact .push rfl rfl

theorem insert_records : Records r (r.insert w now).events
    (r.insert w now).registry :=
  let h := remove_records r.issue w.surfaceId REASON_REWATCHED now
  ⟨h.tagged, h.once, h.closed, h.stays⟩

theorem remove_closes (h : r.watch sid = some w) :
    (r.remove sid reason now).registry.openTurn sid = none := by
  unfold remove
  rw [h]
  have hpush := congrFun (openTurn_pushEvent
    { r with watches := Table.delete (fun v => v.surfaceId = sid) r.watches }
    sid w.sessionId (turnEnd reason) now) sid
  have hkind : (turnEnd reason).kind = .turnEnd := rfl
  rw [if_pos hkind, update_self] at hpush
  exact hpush

theorem stale_nodup (r : Registry) (now : Nat) : (r.stale now).Nodup := by
  have hkeys := Std.ExtTreeMap.distinct_keys_toList (t := r.turns)
  refine pairwise_map.2 ((hkeys.imp ?_).sublist filter_sublist)
  intro a b hne heq
  exact hne (by rw [heq]; exact Std.ReflCmp.compare_self)

theorem closeTurns_surfaces (r : Registry) (now : Nat) (ids : List UInt32) :
    (r.closeTurns now ids).2.map BufferedEvent.surfaceId = ids := by
  induction ids generalizing r with
  | nil => rfl
  | cons id ids ih => exact congrArg (id :: ·) (ih _)

theorem closeTurns_watches (r : Registry) (now : Nat) (ids : List UInt32) :
    (r.closeTurns now ids).1.watches = r.watches
      ∧ (r.closeTurns now ids).1.nextGeneration = r.nextGeneration := by
  induction ids generalizing r with
  | nil => exact ⟨rfl, rfl⟩
  | cons id ids ih => exact ih _

theorem closeTurns_records (r : Registry) (now : Nat) {ids : List UInt32}
    (h : ids.Nodup) : Records r (r.closeTurns now ids).2
      (r.closeTurns now ids).1 := by
  induction ids generalizing r with
  | nil => exact .nil rfl
  | cons id ids ih =>
    refine Records.cons (Records.push rfl rfl) (ih _ h.of_cons) ?_
    rw [closeTurns_surfaces]
    exact (nodup_cons.1 h).1

theorem sweepStaleTurns_records (r : Registry) (now : Nat)
    (order : List UInt32) (later : Nat) :
    Records r (r.sweepStaleTurns now order later).2
      (r.sweepStaleTurns now order later).1 := by
  refine closeTurns_records r later ?_
  split
  · rename_i hperm
    exact hperm.nodup_iff.2 (r.stale_nodup now)
  · exact r.stale_nodup now

-- ==== the watches

/-- A surface has one watch. -/
abbrev Unique (r : Registry) : Prop := Table.Unique Watch.surfaceId r.watches

theorem surfaceId_of_watch (h : r.watch id = some w) : w.surfaceId = id :=
  Table.find_key h

theorem setWatch_unique (h : r.Unique) : (r.setWatch w).Unique :=
  Table.Unique.update h fun _ _ hv => (of_decide_eq_true hv).symm

theorem watch_setWatch (r : Registry) (w : Watch) (id : UInt32) :
    (r.setWatch w).watch id
      = if id = w.surfaceId then (r.watch id).map fun _ => w
        else r.watch id := by
  unfold watch setWatch
  rw [Table.find_update id r.watches fun v hv => (of_decide_eq_true hv).symm]
  cases hfind : Table.find Watch.surfaceId id r.watches with
  | none => simp
  | some v =>
    have hv := Table.find_key hfind
    by_cases hid : id = w.surfaceId
    · simp [hid, hv]
    · simp [hid, hv]

theorem watch_setWatch_same {v : Watch} (h : r.watch id = some v)
    (hid : w.surfaceId = id) : (r.setWatch w).watch id = some w := by
  rw [watch_setWatch, if_pos hid.symm, h]
  rfl

theorem watch_remove (r : Registry) (sid id : UInt32) (reason : String)
    (now : Nat) : (r.remove sid reason now).registry.watch id
      = if id = sid then none else r.watch id := by
  unfold remove
  cases hw : r.watch sid with
  | none =>
    by_cases hid : id = sid
    · rw [if_pos hid, hid]
      exact hw
    · rw [if_neg hid]
  | some w =>
    show Table.find _ id (Table.delete _ r.watches) = _
    by_cases hid : id = sid
    · rw [if_pos hid, Table.find_eq_none]
      intro v hv hkey
      have hne := of_decide_eq_false (Table.mem_delete.1 hv).2
      exact hne (hkey.trans hid)
    · rw [if_neg hid]
      exact Table.find_delete_of_ne fun v hv =>
        decide_eq_false fun heq => hid (hv.symm.trans heq)

theorem remove_unique (h : r.Unique) :
    (r.remove sid reason now).registry.Unique := by
  unfold remove
  split
  · exact h
  · exact h.sublist (Table.delete_sublist _ _)

theorem remove_next (r : Registry) (sid : UInt32) (reason : String)
    (now : Nat) : (r.remove sid reason now).registry.nextGeneration
      = r.nextGeneration := by
  unfold remove
  split <;> rfl

theorem insert_perm (r : Registry) (w : Watch) (now : Nat) :
    (r.insert w now).registry.watches.Perm
      ((r.issue.remove w.surfaceId REASON_REWATCHED now).registry.watches
        ++ [{ w with generation := r.nextGeneration + 1 }]) :=
  perm_insertionSort _ _

theorem insert_unique (h : r.Unique) : (r.insert w now).registry.Unique := by
  have hsorted := (r.insert_perm w now).map Watch.surfaceId
  have hissue : r.issue.Unique := h
  refine hsorted.nodup_iff.2 (Table.Unique.append (remove_unique hissue) ?_)
  refine Table.clashes_eq_false.2 (Table.find_eq_none.1 ?_)
  exact (watch_remove r.issue _ _ _ _).trans (if_pos rfl)

theorem watch_insert (h : r.Unique) (w : Watch) (id : UInt32) (now : Nat) :
    (r.insert w now).registry.watch id
      = if id = w.surfaceId then
          some { w with generation := r.nextGeneration + 1 }
        else r.watch id := by
  have hperm := r.insert_perm w now
  rw [watch, Table.Unique.find_of_perm (insert_unique h) hperm, Table.find_append]
  have hremoved := watch_remove r.issue w.surfaceId id REASON_REWATCHED now
  rw [watch] at hremoved
  rw [hremoved]
  by_cases hid : id = w.surfaceId
  · rw [if_pos hid, if_pos hid, none_or, if_pos hid.symm]
  · rw [if_neg hid, if_neg hid, if_neg (Ne.symm hid), or_none]
    rfl

theorem Records.of_open (h : Records r es r₁) (hid : r₁.openTurn id ≠ none) :
    r₁.openTurn id = r.openTurn id := by
  refine h.stays id fun e he heq hkind => hid ?_
  rw [← heq]
  exact h.closed e he hkind

theorem startTurn_ok {requestId : String} {timeout : Nat}
    (h : r.startTurn id requestId timeout now = .ok r₁) :
    r.watch id ≠ none ∧ r.openTurn id = none
      ∧ r₁.openTurn = Function.update r.openTurn id (some requestId)
      ∧ r₁.watches = r.watches ∧ r₁.nextGeneration = r.nextGeneration := by
  unfold startTurn at h
  cases hw : r.watch id with
  | none =>
    rw [hw] at h
    cases h
  | some w =>
    rw [hw] at h
    cases hturn : r.turns[id]? with
    | some turn =>
      rw [hturn] at h
      cases h
    | none =>
      rw [hturn] at h
      cases h
      have hnew : r.turns.contains id = false := by
        rw [Std.ExtTreeMap.contains_eq_isSome_getElem?, hturn]
        rfl
      refine ⟨fun h => (by cases h), BTreeMap.view_eq_none.2 hturn, ?_,
        rfl, rfl⟩
      show BTreeMap.view _ (Sse.StreamRegistry.startTurn _ _ _ _ _).turns = _
      rw [Sse.StreamRegistry.startTurn, hnew]
      exact BTreeMap.view_insert _ _ _ _

theorem checkOut_eq_some {taken : TailCheckout}
    (h : r.checkOut id = some (taken, r₁)) :
    ∃ w, r.watch id = some w ∧ taken.surfaceId = id
      ∧ taken.generation = w.generation
      ∧ r₁ = r.setWatch { w with tail := none } := by
  obtain ⟨w, hw, h⟩ := bind_eq_some_iff.1 h
  obtain ⟨out, hout, h⟩ := bind_eq_some_iff.1 h
  obtain ⟨tail, -, rfl⟩ := map_eq_some_iff.1 hout
  cases h
  exact ⟨w, hw, rfl, rfl, rfl⟩

theorem checkIn_of_eq (taken : TailCheckout)
    (hw : r.watch taken.surfaceId = some w)
    (hgen : w.generation = taken.generation) :
    r.checkIn taken = (true, r.setWatch
      { w with offset := taken.tail.offset, tail := some taken.tail }) := by
  have hput : w.toWatch.checkIn taken.toTailCheckout = (true, { w.toWatch with
      offset := taken.tail.offset, tail := some taken.tail }) :=
    if_neg (not_not.2 hgen)
  unfold checkIn
  rw [hw]
  dsimp only
  rw [hput]
  rfl

theorem checkIn_of_ne (taken : TailCheckout)
    (h : ∀ w, r.watch taken.surfaceId = some w →
      w.generation ≠ taken.generation) : r.checkIn taken = (false, r) := by
  unfold checkIn
  cases hw : r.watch taken.surfaceId with
  | none => rfl
  | some w =>
    have hput : w.toWatch.checkIn taken.toTailCheckout
        = (false, w.toWatch) := if_pos (h w hw)
    dsimp only
    rw [hput]
    rfl

end Registry

-- ==== one call

namespace World

open Registry (Records)

variable {s s' : World} {c : Call} {id : UInt32}

/-- What a call does to the watch of a surface: it keeps it and what was
taken from it, takes it out with its turn, makes it begin anew, or takes
its tail or puts it back. -/
inductive Moves (s s' : World) (id : UInt32) : Prop
  | kept (hwatch : s'.registry.watch id = s.registry.watch id)
      (hout : ∀ w, s.registry.watch id = some w → ∀ taken ∈ s.out,
        taken.surfaceId = id → taken.generation = w.generation →
        taken ∈ s'.out)
  | gone (hwatch : s'.registry.watch id = none)
      (hturn : s'.registry.openTurn id = none)
  | fresh {w : Watch} (hwatch : s'.registry.watch id = some w)
      (hgen : w.generation = s.registry.nextGeneration + 1)
      (hnext : w.generation ≤ s'.registry.nextGeneration)
      (htail : w.tail ≠ none)
  | same {w w' : Watch} (hwatch : s.registry.watch id = some w)
      (hwatch' : s'.registry.watch id = some w')
      (hgen : w'.generation = w.generation)
      (htail : w'.tail = none → ∃ taken ∈ s'.out, taken.surfaceId = id
        ∧ taken.generation = w.generation)

theorem Moves.of_watch (hwatch : s'.registry.watch id = s.registry.watch id)
    (hout : s'.out = s.out) : Moves s s' id :=
  .kept hwatch fun _ _ _ htaken _ _ => by
    rw [hout]
    exact htaken

/-- What a call does to the watches and to what was taken from them. -/
structure Steps (s s' : World) : Prop where
  unique : s'.registry.Unique
  moves : ∀ id, Moves s s' id
  next : s.registry.nextGeneration ≤ s'.registry.nextGeneration
  out : ∀ taken ∈ s'.out, taken ∈ s.out
    ∨ ∃ w, s.registry.watch taken.surfaceId = some w
      ∧ taken.generation = w.generation

variable (h : s.registry.Unique)

include h

theorem Steps.of_watches
    (hwatches : s'.registry.watches = s.registry.watches)
    (hnext : s.registry.nextGeneration ≤ s'.registry.nextGeneration)
    (hout : s'.out = s.out) : Steps s s' where
  unique := by
    rw [Registry.Unique, hwatches]
    exact h
  moves := fun id => .of_watch (by rw [Registry.watch, hwatches]; rfl) hout
  next := hnext
  out := fun _ htaken => .inl (hout ▸ htaken)

/-- A watch that begins anew. -/
theorem Steps.of_retarget {w : Watch} {r : Registry} {sid : UInt32}
    (hw : s.registry.watch sid = some w) (w' : Watch) (hid : w'.surfaceId = sid)
    (hgen : w'.generation = s.registry.nextGeneration + 1)
    (htail : w'.tail ≠ none)
    (hwatches : r.watches = (s.registry.setWatch w').watches)
    (hnext : r.nextGeneration = s.registry.nextGeneration + 1) :
    Steps s ⟨r, s.out⟩ := by
  have hwatch : ∀ id, r.watch id = (s.registry.setWatch w').watch id :=
    fun id => by rw [Registry.watch, hwatches]; rfl
  refine ⟨?_, fun id => ?_, ?_, fun _ htaken => .inl htaken⟩
  · show Table.Unique _ r.watches
    rw [hwatches]
    exact Registry.setWatch_unique h
  · have hset := (hwatch id).trans (s.registry.watch_setWatch w' id)
    by_cases heq : id = sid
    · subst heq
      rw [if_pos hid.symm, hw] at hset
      exact .fresh hset hgen (hgen.trans hnext.symm).le htail
    · rw [if_neg (hid ▸ heq)] at hset
      exact .of_watch hset rfl
  · show _ ≤ r.nextGeneration
    omega

theorem steps_remove (sid : UInt32) (reason : String) (now : Nat) :
    Steps s ⟨(s.registry.remove sid reason now).registry, s.out⟩ := by
  refine ⟨Registry.remove_unique h, fun id => ?_,
    (s.registry.remove_next sid reason now).ge, fun _ htaken => .inl htaken⟩
  have hwatch := s.registry.watch_remove sid id reason now
  by_cases hid : id = sid
  · subst hid
    rw [if_pos rfl] at hwatch
    cases hw : s.registry.watch id with
    | none => exact .of_watch (hwatch.trans hw.symm) rfl
    | some w =>
      exact .gone hwatch (Registry.remove_closes hw)
  · rw [if_neg hid] at hwatch
    exact .of_watch hwatch rfl

theorem steps_insert {w : Watch} (now : Nat) (htail : w.tail ≠ none) :
    Steps s ⟨(s.registry.insert w now).registry, s.out⟩ := by
  have hnext : (s.registry.insert w now).registry.nextGeneration
      = s.registry.nextGeneration + 1 :=
    s.registry.issue.remove_next w.surfaceId REASON_REWATCHED now
  refine ⟨Registry.insert_unique h, fun id => ?_, ?_,
    fun _ htaken => .inl htaken⟩
  · have hwatch := Registry.watch_insert h w id now
    by_cases hid : id = w.surfaceId
    · rw [if_pos hid] at hwatch
      exact .fresh hwatch rfl hnext.ge htail
    · rw [if_neg hid] at hwatch
      exact .of_watch hwatch rfl
  · show _ ≤ (s.registry.insert w now).registry.nextGeneration
    omega

theorem Steps.of_tail {w w' : Watch} {out : List TailCheckout}
    (hw : s.registry.watch id = some w)
    (hid : w'.surfaceId = id) (hgen : w'.generation = w.generation)
    (htail : w'.tail = none → ∃ taken ∈ out, taken.surfaceId = id
      ∧ taken.generation = w.generation)
    (hkept : ∀ taken ∈ s.out, taken.surfaceId ≠ id → taken ∈ out)
    (hout : ∀ taken ∈ out, taken ∈ s.out
      ∨ taken.surfaceId = id ∧ taken.generation = w.generation) :
    Steps s ⟨s.registry.setWatch w', out⟩ := by
  subst hid
  refine ⟨Registry.setWatch_unique h, fun id => ?_, Nat.le_refl _, ?_⟩
  · have hset := s.registry.watch_setWatch w' id
    by_cases heq : id = w'.surfaceId
    · subst heq
      rw [if_pos rfl, hw] at hset
      exact .same hw hset hgen htail
    · rw [if_neg heq] at hset
      exact .kept hset fun _ _ taken htaken hid _ =>
        hkept taken htaken (hid ▸ heq)
  · intro taken htaken
    rcases hout taken htaken with hold | ⟨hid, hgen⟩
    · exact .inl hold
    · exact .inr ⟨w, by rw [hid]; exact hw, hgen⟩

theorem steps_checkOut (sid : UInt32) : Steps s (s.step (.checkOut sid)).1 := by
  rw [step]
  cases hcheck : s.registry.checkOut sid with
  | none => exact .of_watches h rfl (Nat.le_refl _) rfl
  | some checked =>
    obtain ⟨taken, registry⟩ := checked
    obtain ⟨w, hw, hid, hgen, rfl⟩ := Registry.checkOut_eq_some hcheck
    have hnew : taken ∈ s.out ++ [taken] :=
      mem_append_right _ (mem_singleton.2 rfl)
    have hkey : w.surfaceId = sid := Registry.surfaceId_of_watch hw
    refine .of_tail h hw hkey rfl
      (fun _ => ⟨taken, hnew, hid, hgen⟩)
      (fun _ h _ => mem_append_left _ h) fun taken' htaken' => ?_
    rcases mem_append.1 htaken' with hold | hlast
    · exact .inl hold
    · rw [mem_singleton.1 hlast]
      exact .inr ⟨hid, hgen⟩

theorem steps_checkIn (i : Nat)
    (tail : TailState) : Steps s (s.step (.checkIn i tail)).1 := by
  rw [step]
  cases htaken : s.out[i]? with
  | none => exact .of_watches h rfl (Nat.le_refl _) rfl
  | some taken =>
    have hsub : ∀ t ∈ s.out.eraseIdx i, t ∈ s.out :=
      fun _ h => (eraseIdx_sublist _ _).subset h
    have hother : ∀ t ∈ s.out, t ≠ taken → t ∈ s.out.eraseIdx i := by
      intro t ht hne
      obtain ⟨j, hj⟩ := mem_iff_getElem?.1 ht
      refine mem_eraseIdx_iff_getElem?.2 ⟨j, fun heq => hne ?_, hj⟩
      rw [heq, htaken] at hj
      exact (Option.some.inj hj).symm
    by_cases hback : ∃ w, s.registry.watch taken.surfaceId = some w
        ∧ w.generation = taken.generation
    · obtain ⟨w, hw, hgen⟩ := hback
      have hkey : w.surfaceId = taken.surfaceId :=
        Registry.surfaceId_of_watch hw
      have hin := Registry.checkIn_of_eq { taken with tail } hw hgen
      dsimp only
      rw [hin]
      exact .of_tail h hw hkey rfl (fun h => (by cases h))
        (fun t ht hne => hother t ht fun heq =>
          hne (congrArg TailCheckout.surfaceId heq))
        (fun t ht => .inl (hsub t ht))
    · have hin := Registry.checkIn_of_ne (r := s.registry)
        { taken with tail } fun w hw hgen =>
          hback ⟨w, hw, hgen⟩
      dsimp only
      rw [hin]
      refine ⟨h, fun id => .kept rfl ?_, Nat.le_refl _,
        fun t ht => .inl (hsub t ht)⟩
      intro w hw t ht hid hgen
      refine hother t ht fun heq => hback ⟨w, ?_, ?_⟩
      · rw [← heq, hid]
        exact hw
      · rw [← heq, hgen]

theorem step_steps (c : Call) : Steps s (s.step c).1 := by
  cases c with
  | insert sid sessionId transcript fromStart probe now =>
    exact steps_insert h now fun h => (by cases h)
  | remove sid reason now => exact steps_remove h sid reason now
  | switchSession sid sessionId transcript probe now =>
    rw [step, Registry.switchSession]
    cases hw : s.registry.watch sid with
    | none => exact .of_watches h rfl (Nat.le_succ _) rfl
    | some w =>
      have hid : w.surfaceId = sid := Registry.surfaceId_of_watch hw
      exact .of_retarget h hw
        { w.retarget transcript probe
          (s.registry.nextGeneration + 1) with sessionId }
        hid rfl (fun h => (by cases h)) rfl rfl
  | setTranscript sid expectSession transcript probe =>
    rw [step, Registry.setTranscript]
    cases hw : s.registry.watch sid with
    | none => exact .of_watches h rfl (Nat.le_succ _) rfl
    | some w =>
      have hid : w.surfaceId = sid := Registry.surfaceId_of_watch hw
      dsimp only
      split
      · exact .of_watches h rfl (Nat.le_succ _) rfl
      · exact .of_retarget h hw (w.retarget transcript probe
          (s.registry.nextGeneration + 1)) hid rfl
          (fun h => (by cases h)) rfl rfl
  | checkOut sid => exact steps_checkOut h sid
  | checkIn i tail => exact steps_checkIn h i tail
  | pushEvent sid sessionId event now =>
    exact .of_watches h rfl (Nat.le_refl _) rfl
  | startTurn sid requestId timeout now =>
    rw [step]
    cases hstart : s.registry.startTurn sid requestId timeout now with
    | error e => exact .of_watches h rfl (Nat.le_refl _) rfl
    | ok registry =>
      obtain ⟨-, -, -, hwatches, hnext⟩ := Registry.startTurn_ok hstart
      exact .of_watches h hwatches hnext.ge rfl
  | sweepStaleTurns now order later =>
    obtain ⟨hwatches, hnext⟩ := s.registry.closeTurns_watches later
      (if order.Perm (s.registry.stale now) then order
        else s.registry.stale now)
    exact .of_watches h hwatches hnext.ge rfl

omit h

theorem step_records (s : World) (c : Call) :
    Records s.registry (s.step c).2 (s.step c).1.registry
      ∨ ∃ sid requestId timeout now registry,
          c = .startTurn sid requestId timeout now
          ∧ s.registry.startTurn sid requestId timeout now = .ok registry
          ∧ s.step c = (⟨registry, s.out⟩, []) := by
  cases c with
  | insert => exact .inl Registry.insert_records
  | remove => exact .inl (Registry.remove_records _ _ _ _)
  | switchSession sid =>
    left
    rw [step, Registry.switchSession]
    cases s.registry.watch sid with
    | none => exact .nil rfl
    | some w => exact .push rfl rfl
  | setTranscript sid =>
    left
    rw [step, Registry.setTranscript]
    cases s.registry.watch sid with
    | none => exact .nil rfl
    | some w =>
      dsimp only
      split <;> exact .nil rfl
  | checkOut sid =>
    left
    rw [step]
    cases hcheck : s.registry.checkOut sid with
    | none => exact .nil rfl
    | some checked =>
      obtain ⟨w, -, -, -, hset⟩ := Registry.checkOut_eq_some hcheck
      refine .nil ?_
      show checked.2.turns = _
      rw [hset]
      rfl
  | checkIn i tail =>
    left
    rw [step]
    cases s.out[i]? with
    | none => exact .nil rfl
    | some taken =>
      refine .nil ?_
      show (Registry.checkIn _ _).2.turns = _
      unfold Registry.checkIn
      split
      · rfl
      · dsimp only
        split <;> rfl
  | pushEvent => exact .inl (.push rfl rfl)
  | startTurn sid requestId timeout now =>
    rw [step]
    cases hstart : s.registry.startTurn sid requestId timeout now with
    | error e => exact .inl (.nil rfl)
    | ok registry => exact .inr ⟨_, _, _, _, registry, rfl, hstart, rfl⟩
  | sweepStaleTurns =>
    exact .inl (Registry.sweepStaleTurns_records _ _ _ _)

-- ==== every run

/-- Open turns are watched; a generation is issued once, and a watch lacks
its tail while that is in the hands of a pump. -/
structure Inv (s : World) : Prop where
  unique : s.registry.Unique
  watched : ∀ id, s.registry.openTurn id ≠ none →
    s.registry.watch id ≠ none
  issued : ∀ id w, s.registry.watch id = some w →
    w.generation ≤ s.registry.nextGeneration
  handed : ∀ taken ∈ s.out, taken.generation ≤ s.registry.nextGeneration
  lent : ∀ id w, s.registry.watch id = some w → w.tail = none →
    ∃ taken ∈ s.out, taken.surfaceId = id ∧ taken.generation = w.generation

theorem Inv.start (persistent : Bool) : Inv (start persistent) where
  unique := .nil
  watched := fun id h => absurd (congrFun (BTreeMap.view_empty _) id) h
  issued := fun id w h => (by cases h)
  handed := fun taken h => (by cases h)
  lent := fun id w h => (by cases h)

theorem Inv.step (h : Inv s) (c : Call) : Inv (s.step c).1 := by
  have hsteps := step_steps h.unique c
  refine ⟨hsteps.unique, fun id hopen hnone => ?_, fun id w hw => ?_,
    fun taken htaken => ?_, fun id w hw htail => ?_⟩
  · have hwas : s.registry.watch id ≠ none := by
      rcases step_records s c with hrec | ⟨sid, _, _, _, r, -, hstart, heq⟩
      · rw [hrec.of_open hopen] at hopen
        exact h.watched id hopen
      · obtain ⟨hsid, -, hturns, -, -⟩ := Registry.startTurn_ok hstart
        rw [heq, hturns] at hopen
        by_cases hid : id = sid
        · rw [hid]
          exact hsid
        · rw [update_of_ne hid] at hopen
          exact h.watched id hopen
    cases hsteps.moves id with
    | kept hwatch => exact hwas (hwatch ▸ hnone)
    | gone _ hturn => exact hopen hturn
    | fresh hwatch | same _ hwatch => rw [hwatch] at hnone; cases hnone
  · have hnext := hsteps.next
    cases hsteps.moves id with
    | kept hwatch => exact (h.issued id w (hwatch ▸ hw)).trans hnext
    | gone hwatch => rw [hwatch] at hw; cases hw
    | fresh hwatch _ hle =>
      rw [hwatch] at hw
      cases hw
      exact hle
    | same hwas hwatch hgen =>
      rw [hwatch] at hw
      cases hw
      rw [hgen]
      exact (h.issued id _ hwas).trans hnext
  · rcases hsteps.out taken htaken with hold | ⟨w, hw, hgen⟩
    · exact (h.handed taken hold).trans hsteps.next
    · rw [hgen]
      exact (h.issued _ w hw).trans hsteps.next
  · cases hsteps.moves id with
    | kept hwatch hout =>
      rw [hwatch] at hw
      obtain ⟨taken, htaken, hid, hgen⟩ := h.lent id w hw htail
      exact ⟨taken, hout w hw taken htaken hid hgen, hid, hgen⟩
    | gone hwatch => rw [hwatch] at hw; cases hw
    | fresh hwatch _ _ hsome =>
      rw [hwatch] at hw
      cases hw
      exact absurd htail hsome
    | same hwas hwatch hgen hlent =>
      rw [hwatch] at hw
      cases hw
      obtain ⟨taken, htaken, hid, heq⟩ := hlent htail
      exact ⟨taken, htaken, hid, heq.trans hgen.symm⟩

theorem Inv.run (h : Inv s) (calls : List Call) : Inv (s.run calls) := by
  induction calls generalizing s with
  | nil => exact h
  | cons c calls ih => exact ih (h.step c)

/-- A generation that the watch of a surface no longer has. -/
def Fenced (s : World) (id : UInt32) (g : Nat) : Prop :=
  g ≤ s.registry.nextGeneration
    ∧ ∀ w, s.registry.watch id = some w → g < w.generation

theorem Fenced.run {g : Nat} (hinv : Inv s) (h : Fenced s id g)
    (calls : List Call) : Fenced (s.run calls) id g := by
  induction calls generalizing s with
  | nil => exact h
  | cons c calls ih =>
    have hsteps := step_steps hinv.unique c
    refine ih (hinv.step c) ⟨h.1.trans hsteps.next, fun w hw => ?_⟩
    cases hsteps.moves id with
    | kept hwatch => exact h.2 w (hwatch ▸ hw)
    | gone hwatch => rw [hwatch] at hw; cases hw
    | fresh hwatch hgen =>
      rw [hwatch] at hw
      cases hw
      rw [hgen]
      exact Nat.lt_succ_of_le h.1
    | same hwas hwatch hgen =>
      rw [hwatch] at hw
      cases hw
      rw [hgen]
      exact h.2 _ hwas

/-- The calls that replace or switch the watch of a surface, or take it
out. -/
def Replaces (s : World) (id : UInt32) : Call → Prop
  | .insert surfaceId _ _ _ _ _ => surfaceId = id
  | .remove surfaceId _ _ => surfaceId = id
  | .switchSession surfaceId _ _ _ _ => surfaceId = id
  | .setTranscript surfaceId expectSession transcript probe =>
    surfaceId = id ∧ (s.registry.setTranscript surfaceId expectSession
      transcript probe).answer = true
  | _ => False

theorem Replaces.watch (h : Inv s) (hc : Replaces s id c) :
    ∀ w, (s.step c).1.registry.watch id = some w →
      s.registry.nextGeneration < w.generation := by
  intro w hw
  cases c with
  | insert sid sessionId transcript fromStart probe now =>
    have hinsert := Registry.watch_insert h.unique
      (newWatch sid sessionId transcript fromStart probe) id now
    have hid : id = (newWatch sid sessionId transcript fromStart
      probe).surfaceId := Eq.symm hc
    rw [if_pos hid] at hinsert
    cases hinsert.symm.trans hw
    exact Nat.lt_succ_self _
  | remove sid reason now =>
    have hremove := s.registry.watch_remove sid id reason now
    have hid : id = sid := Eq.symm hc
    rw [if_pos hid] at hremove
    cases hremove.symm.trans hw
  | switchSession sid sessionId transcript probe now =>
    obtain rfl : sid = id := hc
    rw [World.step, Registry.switchSession] at hw
    cases hv : s.registry.watch sid with
    | none =>
      rw [hv] at hw
      cases hv.symm.trans hw
    | some v =>
      rw [hv] at hw
      have hkey : v.surfaceId = sid := Registry.surfaceId_of_watch hv
      have hset := Registry.watch_setWatch_same (r := s.registry.issue)
        (w := { v.retarget transcript probe
          (s.registry.nextGeneration + 1) with sessionId }) hv hkey
      cases hset.symm.trans hw
      exact Nat.lt_succ_self _
  | setTranscript sid expectSession transcript probe =>
    obtain ⟨rfl, hanswer⟩ := hc
    rw [World.step] at hw
    rw [Registry.setTranscript] at hw hanswer
    cases hv : s.registry.watch sid with
    | none =>
      rw [hv] at hanswer
      cases hanswer
    | some v =>
      rw [hv] at hw hanswer
      have hkey : v.surfaceId = sid := Registry.surfaceId_of_watch hv
      dsimp only at hw hanswer
      split at hw
      · rename_i hsame
        rw [if_pos hsame] at hanswer
        cases hanswer
      · have hset := Registry.watch_setWatch_same (r := s.registry.issue)
          (w := v.retarget transcript probe
            (s.registry.nextGeneration + 1)) hv hkey
        cases hset.symm.trans hw
        exact Nat.lt_succ_self _
  | _ => exact hc.elim

/-- What holds of any call in a run: a turn that is open is at a watched
surface; an event carries what is open at its surface, and a surface gets
one at most; a turn ends with an event that says so, and opens by
`start_turn`; a tail that was taken before its watch was replaced is
refused for ever; a watch without a tail has lent it. -/
structure Correlated (s : World) (c : Call) : Prop where
  watched : ∀ id, s.registry.openTurn id ≠ none →
    ∃ w ∈ s.registry.watches, w.surfaceId = id
  tagged : ∀ e ∈ (s.step c).2, e.requestId = s.registry.openTurn e.surfaceId
  once : ((s.step c).2.map BufferedEvent.surfaceId).Nodup
  ended : ∀ id request, s.registry.openTurn id = some request →
    (s.step c).1.registry.openTurn id = some request
      ∧ (∀ e ∈ (s.step c).2, e.surfaceId = id → e.event.kind ≠ .turnEnd)
    ∨ (s.step c).1.registry.openTurn id = none
      ∧ ∃ e ∈ (s.step c).2, e.surfaceId = id ∧ e.event.kind = .turnEnd
        ∧ e.requestId = some request
  opened : ∀ id request, s.registry.openTurn id = none →
    (s.step c).1.registry.openTurn id = some request →
    ∃ timeout now, c = .startTurn id request timeout now
  fenced : ∀ id, Replaces s id c → ∀ taken ∈ s.out, taken.surfaceId = id →
    ∀ calls tail, let s' := (s.step c).1.run calls
      s'.registry.checkIn { taken with tail } = (false, s'.registry)
  lent : ∀ w ∈ s.registry.watches, w.tail = none →
    ∃ taken ∈ s.out, taken.surfaceId = w.surfaceId
      ∧ taken.generation = w.generation

theorem turns_correlated (persistent : Bool) (calls : List Call) (c : Call) :
    Correlated ((start persistent).run calls) c := by
  have h : Inv ((start persistent).run calls) := (Inv.start _).run calls
  generalize (start persistent).run calls = s at h
  refine ⟨?_, ?_, ?_, ?_, ?_, ?_, ?_⟩
  · intro id hopen
    obtain ⟨w, hw⟩ := Option.ne_none_iff_exists'.1 (h.watched id hopen)
    exact ⟨w, Table.find_mem hw, Table.find_key hw⟩
  · intro e he
    rcases step_records s c with hrec | ⟨_, _, _, _, _, -, -, heq⟩
    · exact hrec.tagged e he
    · rw [heq] at he
      cases he
  · rcases step_records s c with hrec | ⟨_, _, _, _, _, -, -, heq⟩
    · exact hrec.once
    · rw [heq]
      exact List.nodup_nil
  · intro id request hopen
    rcases step_records s c with hrec | ⟨sid, _, _, _, r, -, hstart, heq⟩
    · by_cases hend : ∃ e ∈ (s.step c).2, e.surfaceId = id
          ∧ e.event.kind = .turnEnd
      · obtain ⟨e, he, rfl, hkind⟩ := hend
        exact .inr ⟨hrec.closed e he hkind, e, he, rfl, hkind,
          (hrec.tagged e he).trans hopen⟩
      · have hnone : ∀ e ∈ (s.step c).2, e.surfaceId = id →
            e.event.kind ≠ .turnEnd :=
          fun e he hid hkind => hend ⟨e, he, hid, hkind⟩
        exact .inl ⟨(hrec.stays id hnone).trans hopen, hnone⟩
    · obtain ⟨-, hclosed, hturns, -, -⟩ := Registry.startTurn_ok hstart
      have hne : id ≠ sid := by
        rintro rfl
        cases hclosed.symm.trans hopen
      rw [heq]
      refine .inl ⟨?_, fun e he => absurd he List.not_mem_nil⟩
      rw [hturns, Function.update_of_ne hne]
      exact hopen
  · intro id request hclosed hopen
    rcases step_records s c with hrec | ⟨sid, _, t, now, r, rfl, hstart, heq⟩
    · have hsame := hrec.of_open (hopen ▸ Option.some_ne_none _)
      cases (hsame.trans hclosed).symm.trans hopen
    · obtain ⟨-, -, hturns, -, -⟩ := Registry.startTurn_ok hstart
      rw [heq, hturns] at hopen
      by_cases hid : id = sid
      · subst hid
        rw [Function.update_self] at hopen
        cases hopen
        exact ⟨t, now, rfl⟩
      · rw [Function.update_of_ne hid] at hopen
        cases hclosed.symm.trans hopen
  · intro id hc taken htaken hid calls tail s'
    have hfenced : Fenced (s.step c).1 id taken.generation :=
      ⟨(h.handed taken htaken).trans (step_steps h.unique c).next,
        fun w hw => (h.handed taken htaken).trans_lt (hc.watch h w hw)⟩
    have hrun := hfenced.run (h.step c) calls
    refine Registry.checkIn_of_ne _ fun w hw => ?_
    exact (hrun.2 w (hid ▸ hw)).ne'
  · intro w hw htail
    exact h.lent _ w (h.unique.find_eq_some.2 ⟨hw, rfl⟩) htail

end World

end Tasty.AgentStream.Turns
