/-
The books of one document over its whole life.

What is reserved is the sum of what its attempts have outstanding, what was
received the sum of their offsets (`Ledger`). Every action keeps the books,
and what it may do to one attempt is `Evolves`: an offset moves by a chunk
that continues it within its credit, a credit is given where none is out.
-/
import Mathlib.Algebra.BigOperators.Group.List.Basic
import Tasty.Remote.HttpCredit

namespace Tasty.Remote.Http

open List hiding getElem?_eq_some_iff

open ClientDocument

variable {α β : Type} {i : Nat} {response : ResponseId}

-- ==== lists

variable {R : α → α → Prop} {l : List α}

/-- One entry replaced, the others as they are. -/
theorem forall₂_set {a b : α} (hget : l[i]? = some a) (hab : R a b)
    (hrefl : ∀ x ∈ l, R x x) : List.Forall₂ R l (l.set i b) := by
  induction l generalizing i with
  | nil => simp at hget
  | cons x xs ih =>
    cases i with
    | zero =>
      obtain rfl : x = a := by simpa using hget
      exact .cons hab
        (forall₂_same.mpr fun y hy => hrefl y (.tail _ hy))
    | succ i =>
      exact .cons (hrefl x (.head _))
        (ih (by simpa using hget) fun y hy => hrefl y (.tail _ hy))

theorem map_eq_of_forall₂ {f : α → β} (hf : ∀ a b, R a b → f b = f a)
    {l' : List α} (h : List.Forall₂ R l l') : l'.map f = l.map f := by
  induction h with
  | nil => rfl
  | cons hab _ ih => rw [map_cons, map_cons, hf _ _ hab, ih]

theorem forall_of_forall₂ {P : α → Prop} {l' : List α}
    (h : List.Forall₂ R l l') (hP : ∀ a ∈ l, ∀ b, R a b → P b) : ∀ b ∈ l', P b := by
  induction h with
  | nil => simp
  | cons hab _ ih =>
    intro b hb
    cases hb with
    | head => exact hP _ (.head _) _ hab
    | tail _ hb => exact ih (fun a ha => hP a (.tail _ ha)) b hb

theorem forall₂_trans (hR : ∀ a b c, R a b → R b c → R a c)
    {l' l'' : List α} (h : List.Forall₂ R l l') (h' : List.Forall₂ R l' l'') :
    List.Forall₂ R l l'' := by
  induction h generalizing l'' with
  | nil => exact h'
  | cons hab _ ih =>
    cases h' with
    | cons hbc hrest => exact .cons (hR _ _ _ hab hbc) (ih hrest)

theorem sum_map_set (f : α → Nat) {a : α} (b : α) (hget : l[i]? = some a) :
    ((l.set i b).map f).sum + f a = (l.map f).sum + f b := by
  induction l generalizing i with
  | nil => simp at hget
  | cons x xs ih =>
    cases i with
    | zero =>
      obtain rfl : x = a := by simpa using hget
      simp only [set_cons_zero, map_cons, sum_cons]
      omega
    | succ i =>
      have := ih (i := i) (by simpa using hget)
      simp only [set_cons_succ, map_cons, sum_cons]
      omega

theorem map_set_of_eq (f : α → β) {a b : α} (hget : l[i]? = some a)
    (hf : f b = f a) : (l.set i b).map f = l.map f := by
  rw [map_set, hf]
  apply ext_getElem?
  intro j
  rw [getElem?_set, getElem?_map]
  split
  · next h =>
    subst h
    split
    · simp [hget]
    · next hlen =>
      rw [length_map] at hlen
      simp [getElem?_eq_none (Nat.le_of_not_lt hlen)]
  · simp

theorem findMap_some {f : Attempt → Option (β × Attempt)}
    {l l' : List Attempt} {b : β} (h : findMap f l = some (b, l')) :
    ∃ i a a', l[i]? = some a ∧ f a = some (b, a') ∧ l' = l.set i a' := by
  induction l generalizing l' with
  | nil => cases h
  | cons x xs ih =>
    unfold findMap at h
    split at h
    · next b' a' hf =>
      cases h
      exact ⟨0, x, a', rfl, hf, rfl⟩
    · obtain ⟨⟨b', rest⟩, hrest, heq⟩ := Option.map_eq_some_iff.mp h
      cases heq
      obtain ⟨i, a, a', hget, hf, rfl⟩ := ih hrest
      exact ⟨i + 1, a, a', hget, hf, rfl⟩

/-- What `findIdx` points to has the property. -/
theorem findIdx_get {p : α → Bool} {a : α} (h : l[l.findIdx p]? = some a) : p a = true := by
  obtain ⟨hlt, rfl⟩ := getElem?_eq_some_iff.mp h
  exact findIdx_getElem

-- ==== the books

/-- Between two actions also the name of the head is that of the request. -/
structure Attempt.Sound (a : Attempt) : Prop extends a.Good where
  named : ∀ head, a.head = some head → head.id.request = a.id

structure Ledger (d : ClientDocument) : Prop where
  sound : ∀ a ∈ d.attempts, a.Sound
  reserved : d.reserved = ((d.attempts.map Attempt.outstanding).sum : Nat)
  received : d.received = (d.attempts.map Attempt.offset).sum
  limit : d.continued = true
    ∨ (d.received : Int) + d.reserved ≤ (DOCUMENT_BYTES : Nat)
  ordered : (d.attempts.map (·.id.transfer)).Pairwise (· < ·)
  last : ∀ a ∈ d.attempts, a.id.transfer ≤ d.lastTransfer

/-- A chunk of the response continues the attempt, within its credit, and
uses the credit up. -/
def Continues (w : Wire) (action : Action) (a a' : Attempt) : Prop :=
  ∃ grants response dataB64 bytes c,
    action = .receive grants (.chunk response a.offset dataB64)
      ∧ a.response = some response ∧ w.decodeChunk dataB64 = some bytes
      ∧ a.credit = some c ∧ 0 < bytes.length ∧ bytes.length ≤ c.max
      ∧ a'.offset = a.offset + bytes.length ∧ a'.credit = none

/-- A credit is given to an attempt that has none, by a command that names
it. -/
def Granted (d : ClientDocument) (action : Action) (a a' : Attempt) : Prop :=
  ∃ response c, action = .nextCommand ∧ a.credit = none
    ∧ a'.credit = some c ∧ a.response = some response
    ∧ d.nextCommand.1
      = some (.credit response a.offset c.max a.allowed)

/-- A message of the server. -/
def Action.isReceive : Action → Bool
  | .receive .. => true
  | _ => false

/-- What one action may do to one attempt. -/
structure Evolves (w : Wire) (d : ClientDocument) (action : Action)
    (a a' : Attempt) : Prop where
  id : a'.id = a.id
  offset : a'.offset = a.offset ∨ Continues w action a a'
  credit : a'.credit = a.credit ∨ a'.credit = none ∨ Granted d action a a'
  allowed : a'.allowed = a.allowed ∨ action = .allow a.id
  terminal : a.terminal = true →
    ∀ grants reply, action = .receive grants reply → a' = a

/-- One action on the document: the attempts evolve, at most new ones come
behind them, and the books are right again. -/
structure Stepped (w : Wire) (d : ClientDocument) (action : Action)
    (d' : ClientDocument) : Prop where
  attempts : ∃ kept admitted, d'.attempts = kept ++ admitted
    ∧ List.Forall₂ (Evolves w d action) d.attempts kept
    ∧ ∀ a ∈ admitted, a.allowed = false
  ledger : Ledger d'
  continued : d'.continued = true →
    d.continued = true ∨ action = .continueReceiving

-- ==== nothing counted

/-- What leaves offset and credit alone. -/
structure Kept (action : Action) (a a' : Attempt) : Prop where
  id : a'.id = a.id
  offset : a'.offset = a.offset
  credit : a'.credit = a.credit
  allowed : a'.allowed = a.allowed ∨ action = .allow a.id
  head : a'.head = a.head ∨ a'.head = none
  good : a'.Good

/-- An action that leaves the counts alone. -/
structure Frame (action : Action) (d d' : ClientDocument) : Prop where
  attempts : List.Forall₂ (Kept action) d.attempts d'.attempts
  reserved : d'.reserved = d.reserved
  received : d'.received = d.received
  continued : d'.continued = d.continued
  last : d'.lastTransfer = d.lastTransfer

variable {w : Wire} {d d' : ClientDocument} {action : Action}
  {a a' : Attempt}

theorem Kept.refl (h : a.Good) : Kept action a a :=
  ⟨rfl, rfl, rfl, .inl rfl, .inl rfl, h⟩

theorem Kept.sound (h : Kept action a a') (ha : a.Sound) : a'.Sound where
  toGood := h.good
  named := fun head hhead => by
    rw [h.id]
    obtain heq | heq := h.head
    · exact ha.named head (heq ▸ hhead)
    · rw [heq] at hhead
      cases hhead

theorem Kept.trans {a'' : Attempt} (h : Kept action a a')
    (h' : Kept action a' a'') : Kept action a a'' where
  id := h'.id.trans h.id
  offset := h'.offset.trans h.offset
  credit := h'.credit.trans h.credit
  allowed := by
    obtain hl | hl := h'.allowed
    · exact h.allowed.imp_left hl.trans
    · exact .inr (h.id ▸ hl)
  head := by
    obtain hh | hh := h'.head
    · exact h.head.imp hh.trans hh.trans
    · exact .inr hh
  good := h'.good

theorem Kept.evolves (h : Kept action a a')
    (hquiet : action.isReceive = false) : Evolves w d action a a' where
  id := h.id
  offset := .inl h.offset
  credit := .inl h.credit
  allowed := h.allowed
  terminal := fun _ _ _ ha => by
    rw [ha] at hquiet
    cases hquiet

theorem Evolves.refl (a : Attempt) : Evolves w d action a a :=
  ⟨rfl, .inl rfl, .inl rfl, .inl rfl, fun _ _ _ _ => rfl⟩

theorem Ledger.good (h : Ledger d) : ∀ a ∈ d.attempts, a.Good :=
  fun a ha => (h.sound a ha).toGood

theorem Frame.refl (h : ∀ a ∈ d.attempts, a.Good) : Frame action d d :=
  ⟨forall₂_same.mpr fun a ha => .refl (h a ha), rfl, rfl, rfl, rfl⟩

theorem Frame.good (h : Frame action d d') : ∀ a ∈ d'.attempts, a.Good :=
  forall_of_forall₂ h.attempts fun _ _ _ hk => hk.good

theorem Frame.trans {d'' : ClientDocument} (h : Frame action d d')
    (h' : Frame action d' d'') : Frame action d d'' where
  attempts :=
    forall₂_trans (fun _ _ _ hk => hk.trans) h.attempts h'.attempts
  reserved := h'.reserved.trans h.reserved
  received := h'.received.trans h.received
  continued := h'.continued.trans h.continued
  last := h'.last.trans h.last

/-- The books of a document whose counts were left alone. -/
theorem Frame.ledger (h : Frame action d d') (hd : Ledger d) : Ledger d' where
  sound := forall_of_forall₂ h.attempts fun a ha _ hk =>
    hk.sound (hd.sound a ha)
  reserved := by
    rw [h.reserved, hd.reserved]
    rw [map_eq_of_forall₂ (fun a b hk => ?_) h.attempts]
    unfold Attempt.outstanding
    rw [hk.credit]
  received := by
    rw [h.received, hd.received]
    rw [map_eq_of_forall₂ (fun _ _ hk => hk.offset) h.attempts]
  limit := by
    rw [h.continued, h.received, h.reserved]
    exact hd.limit
  ordered := by
    rw [map_eq_of_forall₂ (fun _ _ hk => ?_) h.attempts]
    · exact hd.ordered
    · rw [hk.id]
  last := forall_of_forall₂ h.attempts fun a ha b hk => by
    rw [hk.id, h.last]
    exact hd.last a ha

theorem Frame.stepped (h : Frame action d d') (hd : Ledger d)
    (hquiet : action.isReceive = false) : Stepped w d action d' where
  attempts := ⟨d'.attempts, [], (append_nil _).symm,
    h.attempts.imp fun _ _ hk => hk.evolves hquiet, forall_mem_nil _⟩
  ledger := h.ledger hd
  continued := fun hc => .inl (h.continued ▸ hc)

/-- Nothing happens. -/
theorem Stepped.refl (hd : Ledger d) : Stepped w d action d where
  attempts := ⟨d.attempts, [], (append_nil _).symm,
    forall₂_same.mpr fun a _ => .refl a, forall_mem_nil _⟩
  ledger := hd
  continued := .inl

theorem forall₂_kept (hd : ∀ a ∈ d.attempts, a.Good)
    (hget : d.attempts[i]? = some a) (hk : Kept action a a') :
    List.Forall₂ (Kept action) d.attempts (d.attempts.set i a') :=
  forall₂_set hget hk fun x hx => .refl (hd x hx)

-- ==== local actions

variable {request : HttpRequest}

theorem uploadCommand_kept {sourceGeneration : Nat} (h : a.Good)
    (hu : a.uploadCommand sourceGeneration = some (request, a')) :
    Kept action a a' := by
  unfold Attempt.uploadCommand at hu
  split at hu
  · cases hu
  next hstate =>
  replace hstate : a.state = .uploading := Decidable.not_not.mp hstate
  have hnone := h.credit_none (by rw [hstate]; simp)
  split at hu
  · cases hu
  · split at hu
    · cases hu
      refine ⟨rfl, rfl, rfl, .inl rfl, .inl rfl, ?_⟩
      exact .of_uncredited hnone (fun hs => by simp at hs) h.automatic
    · split at hu
      · cases hu
      · cases hu
        exact ⟨rfl, rfl, rfl, .inl rfl, .inl rfl,
          ⟨h.head, h.holder, h.credited, h.reserved, h.automatic⟩⟩

theorem discard_good (hnone : a.credit = none)
    (hauto : a.allowed = true ∨ a.offset ≤ AUTO_BYTES)
    {state : ReceiveState} (hstate : ¬ (state = .ready ∨ state = .sizeNotice
      ∨ state = .receiving)) : ({ a.discard with state } : Attempt).Good :=
  .of_uncredited hnone (fun hs => absurd hs hstate) hauto

theorem decline_kept (h : a.Good) (hdec : a.decline = some a') :
    Kept action a a' := by
  unfold Attempt.decline at hdec
  split at hdec
  · cases hdec
  · dsimp only at hdec
    split at hdec
    · next hnone =>
      cases hdec
      refine ⟨rfl, rfl, rfl, .inl rfl, .inr rfl, ?_⟩
      exact discard_good (Option.isNone_iff_eq_none.mp hnone) h.automatic
        (by simp)
    · cases hdec
      refine ⟨rfl, rfl, rfl, .inl rfl, .inl rfl, ?_⟩
      exact ⟨fun hs => by simp at hs, fun _ => .inr (.inr (.inr rfl)),
        h.credited, h.reserved, h.automatic⟩

theorem stop_kept (h : a.Good) : Kept action a a.stop.1 := by
  unfold Attempt.stop
  split
  · next hreuse =>
    have hnone := h.credit_none (by rw [hreuse]; simp)
    refine ⟨rfl, rfl, rfl, .inl rfl, .inl rfl, ?_⟩
    exact .of_uncredited hnone (fun hs => by simp at hs) h.automatic
  · split
    · split
      · next hdec => exact decline_kept h hdec
      · exact .refl h
    · exact .refl h

/-- A worker's result: no credit is out while a body is verified. -/
theorem verification_kept {posted : Except Unit VerifiedBody} {o : Outcome}
    (h : a.Good) (hv : a.verification posted = some o) :
    Kept action a o.attempt ∧ o.refund = 0 ∧ o.taken = 0 := by
  unfold Attempt.verification at hv
  split at hv
  · cases hv
  next hstate =>
  have hver : a.state = .verifying := by
    simp only [Bool.or_eq_true, decide_eq_true_eq, ne_eq, not_or] at hstate
    exact Decidable.not_not.mp hstate.1.2
  have hnone := h.credit_none (by rw [hver]; simp)
  split at hv
  · cases hv
    refine ⟨⟨rfl, rfl, rfl, .inl rfl, .inl rfl, ?_⟩, rfl, rfl⟩
    refine .of_uncredited hnone (fun hs => ?_) h.automatic
    simp [Outcome.keep] at hs
  · cases hv
    refine ⟨⟨rfl, rfl, hnone.symm, .inl rfl, .inr rfl, ?_⟩, ?_, rfl⟩
    · refine .of_uncredited rfl (fun hs => ?_) h.automatic
      simp [Outcome.fail] at hs
    · show 0 + a.outstanding = 0
      rw [Attempt.outstanding_of_none hnone]

theorem reusable_kept {command : HttpRequest}
    (h : a.Good) (hstate : a.state = .verified)
    (hr : ClientDocument.reusable response a = some (command, a')) :
    Kept action a a' := by
  have hnone := h.credit_none (by rw [hstate]; simp)
  unfold ClientDocument.reusable at hr
  split at hr
  · split at hr
    · cases hr
      refine ⟨rfl, rfl, rfl, .inl rfl, .inl rfl, ?_⟩
      exact .of_uncredited hnone (fun hs => by simp at hs) h.automatic
    · cases hr
  · cases hr

variable {posted : Nat → Option (Except Unit VerifiedBody)}

theorem pollFrom_frame {indices : List Nat} (hd : ∀ a ∈ d.attempts, a.Good) :
    Frame action d (pollFrom posted indices d).2 := by
  induction indices generalizing d with
  | nil => exact .refl hd
  | cons i rest ih =>
    unfold pollFrom
    split
    · exact ih hd
    · next o ho =>
      obtain ⟨a, hget, hposted⟩ := Option.bind_eq_some_iff.mp ho
      obtain ⟨p, -, hv⟩ := Option.bind_eq_some_iff.mp hposted
      obtain ⟨hk, hrefund, htaken⟩ :=
        verification_kept (hd a (mem_of_getElem? hget)) hv
      have hframe : Frame action d (d.commit i o) := by
        refine ⟨forall₂_kept hd hget hk, ?_, ?_, rfl, rfl⟩
        · show d.reserved - o.refund = d.reserved
          rw [hrefund]
          exact Int.sub_zero _
        · show d.received + o.taken = d.received
          rw [htaken]
          rfl
      exact hframe.trans (ih hframe.good)

-- ==== counted actions

/-- The books after one attempt was replaced, and its change counted. -/
theorem Ledger.set (hd : Ledger d)
    (hget : d.attempts[i]? = some a) (hid : a'.id = a.id) (ha : a'.Sound)
    (hattempts : d'.attempts = d.attempts.set i a')
    (hreserved : d'.reserved + a.outstanding = d.reserved + a'.outstanding)
    (hreceived : d'.received + a.offset = d.received + a'.offset)
    (hlimit : d'.continued = true
      ∨ (d'.received : Int) + d'.reserved ≤ (DOCUMENT_BYTES : Nat))
    (hlast : d'.lastTransfer = d.lastTransfer) : Ledger d' where
  sound := by
    rw [hattempts]
    intro x hx
    obtain hx | rfl := mem_or_eq_of_mem_set hx
    · exact hd.sound x hx
    · exact ha
  reserved := by
    have hsum := sum_map_set Attempt.outstanding a' hget
    have := hd.reserved
    rw [hattempts]
    omega
  received := by
    have hsum := sum_map_set Attempt.offset a' hget
    have := hd.received
    rw [hattempts]
    omega
  limit := hlimit
  ordered := by
    rw [hattempts, map_set_of_eq _ hget (by rw [hid])]
    exact hd.ordered
  last := by
    rw [hattempts, hlast]
    intro x hx
    obtain hx | rfl := mem_or_eq_of_mem_set hx
    · exact hd.last x hx
    · rw [hid]
      exact hd.last a (mem_of_getElem? hget)

theorem receive_stepped {grants : Grants} {reply : HttpReply} (hd : Ledger d) :
    Stepped w d (.receive grants reply) (d.receive w grants reply).2 := by
  unfold ClientDocument.receive
  split
  · exact .refl hd
  · dsimp only
    split
    · exact .refl hd
    · next a hget =>
      split
      · exact .refl hd
      · next o ho =>
        have hmem := mem_of_getElem? hget
        have ha := hd.sound a hmem
        have hr := receive_received ha.toGood ho
        have hid : a.id = reply.id := by
          simpa using findIdx_get hget
        have hev : Evolves w d (.receive grants reply) a o.attempt := by
          refine ⟨hr.settles.id, ?_, ?_, .inl hr.settles.allowed, ?_⟩
          · by_cases ht : o.taken = 0
            · left
              rw [hr.settles.offset, ht]
              rfl
            · right
              obtain ⟨response, offset, dataB64, rfl, hresp, htaken⟩ :=
                hr.chunk ht
              obtain ⟨bytes, c, hdec, hcredit, hpos, hmax, hlen⟩ :=
                htaken.bytes
              rw [htaken.offset]
              exact ⟨grants, response, dataB64, bytes, c, rfl, hresp, hdec,
                hcredit, hpos, hmax, hlen ▸ hr.settles.offset, htaken.credit⟩
          · exact hr.settles.credit.imp And.left fun h => .inl h.1
          · intro hterm
            rw [hr.live] at hterm
            cases hterm
        refine ⟨⟨_, [], (append_nil _).symm,
          forall₂_set hget hev fun x _ => .refl x, forall_mem_nil _⟩,
          ?_, .inl⟩
        have hcons := hr.settles.conserves
        have htaken := hr.settles.taken
        have hoffset := hr.settles.offset
        have hlimit := hd.limit
        refine hd.set hget hr.settles.id ⟨hr.settles.good, ?_⟩ rfl ?_ ?_ ?_ rfl
        · intro head hhead
          rw [hr.settles.id]
          obtain (heq | heq) | ⟨h, rfl, heq⟩ := hr.head
          · exact ha.named head (heq ▸ hhead)
          · rw [heq] at hhead
            cases hhead
          · rw [heq] at hhead
            cases hhead
            exact hid.symm
        · show d.reserved - o.refund + a.outstanding = _
          omega
        · show d.received + o.taken + a.offset = _
          omega
        · refine hlimit.imp_right fun hle => ?_
          show ((d.received + o.taken : Nat) : Int)
            + (d.reserved - o.refund) ≤ _
          omega

theorem creditWindow_reserves (a : Attempt) (head : ResponseHead) :
    (a.creditWindow head).2 = (a.creditWindow head).1
      ∨ (a.creditWindow head).2 = 0 := by
  unfold Attempt.creditWindow
  split
  · exact .inr rfl
  · exact .inl rfl

/-- What a pass over the attempts for a credit comes to: nothing, or a
credit for an attempt that is ready and has none. -/
inductive Scanned (d : ClientDocument) (l : List Attempt) :
    CreditScan → Prop where
  | none (paused : Bool) : Scanned d l ⟨l, paused, .none⟩
  | grant (paused : Bool) (i : Nat) (a : Attempt) (head : ResponseHead)
      (hget : l[i]? = some a) (hready : a.state = .ready)
      (hcredit : a.credit = .none) (hhead : a.head = some head)
      (hlimit : d.continued = true ∨ (d.received : Int) + d.reserved
        + (a.creditWindow head).2 ≤ (DOCUMENT_BYTES : Nat)) :
      Scanned d l
        ⟨l.set i { a with
            credit := some ⟨(a.creditWindow head).1, (a.creditWindow head).2⟩
            state := .receiving },
          paused,
          some (.credit head.id a.offset (a.creditWindow head).1 a.allowed,
            (a.creditWindow head).2)⟩

theorem Scanned.cons {l : List Attempt} {scan : CreditScan}
    (h : Scanned d l scan) (a : Attempt) :
    Scanned d (a :: l) { scan with attempts := a :: scan.attempts } := by
  cases h with
  | none paused => exact .none paused
  | grant paused i b head hget hready hcredit hhead hlimit =>
    exact .grant paused (i + 1) b head hget hready hcredit hhead hlimit

theorem creditScan_scanned (d : ClientDocument) (paused : Bool)
    (l : List Attempt) : Scanned d l (d.creditScan paused l) := by
  induction l generalizing paused with
  | nil => exact .none paused
  | cons a rest ih =>
    unfold creditScan
    dsimp only
    split
    · exact (ih paused).cons a
    next hready =>
    obtain ⟨hready, hcredit⟩ := not_or.mp hready
    split
    · exact .none paused
    · next head hhead =>
      split
      · exact (ih paused).cons a
      split
      · exact (ih paused).cons a
      split
      · exact (ih true).cons a
      next hlimit =>
      refine .grant paused 0 a head rfl (Decidable.not_not.mp hready)
        (by simpa using hcredit) hhead ?_
      cases hc : d.continued with
      | true => exact .inl rfl
      | false =>
        right
        simp only [hc, Bool.not_false, true_and] at hlimit
        exact Int.not_lt.mp hlimit

variable (hd : Ledger d)

include hd

theorem nextCredit_stepped (hsame : d.nextCommand = d.nextCredit) :
    Stepped w d .nextCommand d.nextCredit.2 := by
  have hscan := creditScan_scanned d d.paused d.attempts
  unfold nextCredit at hsame ⊢
  generalize d.creditScan d.paused d.attempts = scan at hscan hsame ⊢
  cases hscan with
  | none paused =>
    have hframe : Frame .nextCommand d
        { d with paused, reserved := d.reserved + (0 : Nat) } :=
      ⟨(Frame.refl hd.good).attempts, Int.add_zero _, rfl, rfl, rfl⟩
    exact hframe.stepped hd rfl
  | grant paused i a head hget hready hcredit hhead hlimit =>
    have ha := hd.sound a (mem_of_getElem? hget)
    have hzero := Attempt.outstanding_of_none hcredit
    refine ⟨⟨_, [], (append_nil _).symm,
      forall₂_set hget ?_ fun x _ => .refl x, forall_mem_nil _⟩,
      ?_, .inl⟩
    · refine ⟨rfl, .inl rfl, .inr (.inr ?_), .inl rfl,
        fun _ _ _ ha => by cases ha⟩
      refine ⟨head.id, _, rfl, hcredit, rfl, ?_, ?_⟩
      · rw [Attempt.response, hhead]
        rfl
      · rw [hsame]
        rfl
    · have hsome : a.head.isSome = true := by
        rw [hhead]
        rfl
      have hsound : Attempt.Sound { a with
          credit := some ⟨(a.creditWindow head).1, (a.creditWindow head).2⟩
          state := .receiving } := by
        refine ⟨⟨fun _ => hsome, fun _ => .inr (.inr (.inl rfl)),
          fun _ => hsome, fun c hc => ?_, ha.automatic⟩, ha.named⟩
        cases hc
        exact (creditWindow_reserves a head).imp_left fun h => h
      refine hd.set hget (by rfl) hsound rfl ?_ rfl ?_ rfl
      · rw [hzero]
        exact Int.add_zero _
      · refine hlimit.imp_right fun hle => ?_
        show (d.received : Int) + (d.reserved + _) ≤ _
        rw [← Int.add_assoc]
        exact hle

theorem nextCommand_stepped : Stepped w d .nextCommand d.nextCommand.2 := by
  unfold ClientDocument.nextCommand
  split
  · exact .refl hd
  next hactive =>
  split
  · next command attempts hfind =>
    obtain ⟨i, a, a', hget, hup, rfl⟩ := findMap_some hfind
    have hk : Kept .nextCommand a a' :=
      uploadCommand_kept (hd.good a (mem_of_getElem? hget)) hup
    have hframe : Frame .nextCommand d
        { d with attempts := d.attempts.set i a' } :=
      ⟨forall₂_kept hd.good hget hk, rfl, rfl, rfl, rfl⟩
    exact hframe.stepped hd rfl
  · next hfind =>
    refine nextCredit_stepped hd ?_
    unfold ClientDocument.nextCommand
    rw [if_neg hactive, hfind]

/-- Without its transport the document gives everything back. -/
theorem sendFailed_stepped (hquiet : action.isReceive = false) :
    Stepped w d action d.sendFailed := by
  have habandon : List.Forall₂ (fun a a' => a' = a.abandon) d.attempts
      d.sendFailed.attempts := by
    show List.Forall₂ _ _ (d.attempts.map (·.abandon))
    rw [forall₂_map_right_iff]
    exact forall₂_same.mpr fun _ _ => rfl
  refine ⟨⟨_, [], (append_nil _).symm, habandon.imp ?_,
    forall_mem_nil _⟩, ?_, .inl⟩
  · rintro a _ rfl
    refine ⟨rfl, .inl rfl, .inr (.inl rfl), .inl rfl, fun _ _ _ ha => ?_⟩
    rw [ha] at hquiet
    cases hquiet
  · refine ⟨?_, ?_, ?_, ?_, ?_, ?_⟩
    · refine forall_of_forall₂ habandon fun a ha a' heq => ?_
      subst heq
      refine ⟨discard_good (a := { a with credit := none }) rfl
        (hd.good a ha).automatic (by simp), fun head hhead => ?_⟩
      cases hhead
    · have hzero : ∀ n ∈ d.sendFailed.attempts.map Attempt.outstanding,
          n = 0 := by
        rw [forall_mem_map]
        refine forall_of_forall₂ habandon fun a _ a' heq => ?_
        rw [heq]
        rfl
      rw [sum_eq_zero hzero]
      rfl
    · show d.received = _
      rw [map_eq_of_forall₂ (fun a a' heq => ?_) habandon, hd.received]
      rw [heq]
      rfl
    · have hlimit := hd.limit
      refine hlimit.imp_right fun hle => ?_
      have := hd.reserved
      show (d.received : Int) + 0 ≤ _
      omega
    · rw [map_eq_of_forall₂ (fun a a' heq => ?_) habandon]
      · exact hd.ordered
      · rw [heq]
        rfl
    · refine forall_of_forall₂ habandon fun a ha a' heq => ?_
      subst heq
      exact hd.last a ha

theorem admitRequest_stepped {grants : Grants} {upload : Bytes} :
    Stepped w d (.admitRequest grants request upload)
      (d.admitRequest w grants request upload).2 := by
  unfold ClientDocument.admitRequest
  split
  · exact .refl hd
  split
  · exact .refl hd
  split
  · exact .refl hd
  · next b previous hinitial =>
    split
    · exact .refl hd
    split
    · exact .refl hd
    split
    · exact .refl hd
    split
    · exact .refl hd
    next hused =>
    split
    · exact .refl hd
    split
    · exact .refl hd
    split
    · exact .refl hd
    simp only [Bool.or_eq_true, decide_eq_true_eq, not_or] at hused
    have hfresh : d.lastTransfer < b.id.transfer :=
      Nat.lt_of_not_le hused.2
    refine ⟨⟨d.attempts, [ClientDocument.admitted b upload], rfl,
      forall₂_same.mpr fun a _ => .refl a, ?_⟩, ?_, .inl⟩
    · intro a ha
      obtain rfl := mem_singleton.mp ha
      rfl
    · refine ⟨?_, ?_, ?_, hd.limit, ?_, ?_⟩
      · intro a ha
        obtain ha | ha := mem_append.mp ha
        · exact hd.sound a ha
        · obtain rfl := mem_singleton.mp ha
          refine ⟨.of_uncredited rfl (fun hs => ?_) (.inr (Nat.zero_le _)),
            fun head hhead => by cases hhead⟩
          simp [ClientDocument.admitted] at hs
      · show d.reserved = _
        rw [hd.reserved]
        simp [ClientDocument.admitted, Attempt.outstanding]
      · show d.received = _
        rw [hd.received]
        simp [ClientDocument.admitted]
      · rw [map_append, pairwise_append]
        refine ⟨hd.ordered, pairwise_singleton _ _, ?_⟩
        intro t ht t' ht'
        obtain ⟨a, ha, rfl⟩ := mem_map.mp ht
        obtain rfl := mem_singleton.mp ht'
        exact Nat.lt_of_le_of_lt (hd.last a ha) hfresh
      · intro a ha
        obtain ha | ha := mem_append.mp ha
        · exact Nat.le_of_lt (Nat.lt_of_le_of_lt (hd.last a ha) hfresh)
        · obtain rfl := mem_singleton.mp ha
          exact Nat.le_refl _

/-- One attempt is replaced by one whose counts are the same. -/
theorem Stepped.kept
    (hget : d.attempts[i]? = some a) (hk : Kept action a a')
    (hquiet : action.isReceive = false)
    (hattempts : d'.attempts = d.attempts.set i a')
    (hreserved : d'.reserved = d.reserved)
    (hreceived : d'.received = d.received)
    (hcontinued : d'.continued = d.continued)
    (hlast : d'.lastTransfer = d.lastTransfer) : Stepped w d action d' :=
  Frame.stepped ⟨hattempts ▸ forall₂_kept hd.good hget hk, hreserved,
    hreceived, hcontinued, hlast⟩ hd hquiet

theorem takeVerifyJob_stepped :
    Stepped w d .takeVerifyJob d.takeVerifyJob.2 := by
  unfold ClientDocument.takeVerifyJob
  split
  · exact sendFailed_stepped hd rfl
  split
  · next b attempts hfind =>
    obtain ⟨i, a, a', hget, hjob, rfl⟩ := findMap_some hfind
    split at hjob
    · cases hjob
      have ha := hd.good a (mem_of_getElem? hget)
      have hk : Kept .takeVerifyJob a { a with job := false } :=
        ⟨rfl, rfl, rfl, .inl rfl, .inl rfl,
          ⟨ha.head, ha.holder, ha.credited, ha.reserved, ha.automatic⟩⟩
      exact .kept hd hget hk rfl rfl rfl rfl rfl rfl
    · cases hjob
  · exact .refl hd

theorem pollVerification_stepped
    : Stepped w d (.pollVerification posted) (d.pollVerification posted).2 := by
  unfold ClientDocument.pollVerification
  split
  · exact sendFailed_stepped hd rfl
  · exact (pollFrom_frame hd.good).stepped hd rfl

theorem allow_stepped {id : TransferId} :
    Stepped w d (.allow id) (d.allow id).2 := by
  unfold ClientDocument.allow
  split
  · exact .refl hd
  split
  · next b attempts hfind =>
    obtain ⟨i, a, a', hget, hallow, rfl⟩ := findMap_some hfind
    split at hallow
    · next hcond =>
      cases hallow
      have ha := hd.good a (mem_of_getElem? hget)
      simp only [Bool.and_eq_true, beq_iff_eq] at hcond
      have hhead := ha.head (.inr (.inl hcond.2))
      have hk : Kept (.allow id) a
          { a with allowed := true, state := .ready } := by
        refine ⟨rfl, rfl, rfl, .inr ?_, .inl rfl, ⟨fun _ => hhead,
          fun _ => .inl rfl, ha.credited, ha.reserved, .inl rfl⟩⟩
        rw [hcond.1]
      exact .kept hd hget hk rfl rfl rfl rfl rfl rfl
    · cases hallow
  · exact .refl hd

theorem continueReceiving_stepped :
    Stepped w d .continueReceiving d.continueReceiving.2 := by
  unfold ClientDocument.continueReceiving
  split
  · exact .refl hd
  · exact ⟨⟨d.attempts, [], (append_nil _).symm,
      forall₂_same.mpr fun a _ => .refl a, forall_mem_nil _⟩,
      ⟨hd.sound, hd.reserved, hd.received, .inl rfl, hd.ordered, hd.last⟩,
      fun _ => .inr rfl⟩

theorem decline_stepped {id : TransferId} :
    Stepped w d (.decline id) (d.decline id).2 := by
  unfold ClientDocument.decline
  split
  · exact .refl hd
  dsimp only
  split
  · exact .refl hd
  · next a' hdec =>
    obtain ⟨a, hget, hdec⟩ := Option.bind_eq_some_iff.mp hdec
    have hk : Kept (.decline id) a a' :=
      decline_kept (hd.good a (mem_of_getElem? hget)) hdec
    exact .kept hd hget hk rfl rfl rfl rfl rfl rfl

theorem stop_stepped : Stepped w d .stop d.stop.2 := by
  unfold ClientDocument.stop
  split
  · exact .refl hd
  · refine Frame.stepped ⟨?_, rfl, rfl, rfl, rfl⟩ hd rfl
    show List.Forall₂ _ _ (d.attempts.map (·.stop.1))
    rw [forall₂_map_right_iff]
    exact forall₂_same.mpr fun a ha => stop_kept (hd.good a ha)

theorem close_stepped : Stepped w d .close d.close.2 := by
  unfold ClientDocument.close
  split
  · exact .refl hd
  · exact sendFailed_stepped hd rfl

theorem reuse_stepped : Stepped w d (.reuse response) (d.reuse response).2 := by
  unfold ClientDocument.reuse
  split
  · exact .refl hd
  dsimp only
  split
  · exact .refl hd
  · next command a' hreuse =>
    obtain ⟨a, hget, hreuse⟩ := Option.bind_eq_some_iff.mp hreuse
    have hfound := findIdx_get hget
    simp only [Bool.and_eq_true, beq_iff_eq] at hfound
    have hk : Kept (.reuse response) a a' :=
      reusable_kept (hd.good a (mem_of_getElem? hget)) hfound.2 hreuse
    exact .kept hd hget hk rfl rfl rfl rfl rfl rfl

theorem release_stepped :
    Stepped w d (.release response) (d.release response).2 := by
  unfold ClientDocument.release
  split
  · exact .refl hd
  split
  · next b attempts hfind =>
    obtain ⟨i, a, a', hget, hrelease, rfl⟩ := findMap_some hfind
    split at hrelease
    · next hcond =>
      cases hrelease
      have ha := hd.good a (mem_of_getElem? hget)
      simp only [Bool.and_eq_true, Bool.or_eq_true, beq_iff_eq] at hcond
      have hnone := ha.credit_none (by
        obtain hs | hs := hcond.2 <;> rw [hs] <;> simp)
      have hk : Kept (.release response) a
          { a.discard with state := .released } :=
        ⟨rfl, rfl, rfl, .inl rfl, .inr rfl,
          discard_good hnone ha.automatic (by simp)⟩
      exact .kept hd hget hk rfl rfl rfl rfl rfl rfl
    · cases hrelease
  · exact .refl hd

-- ==== runs

theorem step_stepped (action : Action) :
    Stepped w d action (d.step w action) := by
  cases action with
  | receive => exact receive_stepped hd
  | admitRequest => exact admitRequest_stepped hd
  | nextCommand => exact nextCommand_stepped hd
  | takeVerifyJob => exact takeVerifyJob_stepped hd
  | pollVerification => exact pollVerification_stepped hd
  | allow => exact allow_stepped hd
  | continueReceiving => exact continueReceiving_stepped hd
  | decline => exact decline_stepped hd
  | stop => exact stop_stepped hd
  | close => exact close_stepped hd
  | sendFailed => exact sendFailed_stepped hd rfl
  | reuse => exact reuse_stepped hd
  | release => exact release_stepped hd
  | retireEpoch =>
    exact Frame.stepped ⟨(Frame.refl hd.good).attempts, rfl, rfl, rfl, rfl⟩
      hd rfl

omit hd

theorem Ledger.new (key : DocumentKey) (limits : ClientLimits) :
    Ledger (.new key limits) where
  sound := forall_mem_nil _
  reserved := rfl
  received := rfl
  limit := .inr (Int.natCast_nonneg _)
  ordered := .nil
  last := forall_mem_nil _

/-- The books are right, and what the user has to ask for was asked for. -/
structure Consented (actions : List Action) (d : ClientDocument) :
    Prop where
  ledger : Ledger d
  continued : d.continued = true → .continueReceiving ∈ actions
  allowed : ∀ a ∈ d.attempts, a.allowed = true → .allow a.id ∈ actions

theorem Consented.step {actions : List Action} (h : Consented actions d)
    (action : Action) : Consented (actions ++ [action]) (d.step w action) := by
  have hs := step_stepped (w := w) h.ledger action
  refine ⟨hs.ledger, fun hc => ?_, fun a' ha' hal => ?_⟩
  · obtain hc | rfl := hs.continued hc
    · exact mem_append_left _ (h.continued hc)
    · exact mem_append_right _ (.head _)
  · obtain ⟨kept, admitted, heq, hkept, hnew⟩ := hs.attempts
    rw [heq] at ha'
    obtain ha' | ha' := mem_append.mp ha'
    · have hkeep : ∀ b ∈ kept,
          b.allowed = true → .allow b.id ∈ actions ++ [action] := by
        refine forall_of_forall₂ hkept fun a ha b hev hb => ?_
        obtain hsame | hallow := hev.allowed
        · rw [hev.id]
          exact mem_append_left _ (h.allowed a ha (hsame ▸ hb))
        · rw [hev.id, ← hallow]
          exact mem_append_right _ (.head _)
      exact hkeep a' ha' hal
    · rw [hnew a' ha'] at hal
      cases hal

theorem Consented.run {past : List Action} (h : Consented past d)
    (actions : List Action) :
    Consented (past ++ actions) (d.run w actions) := by
  induction actions generalizing past d with
  | nil => rwa [append_nil]
  | cons action rest ih =>
    rw [append_cons]
    exact ih (h.step action)

theorem Consented.new (key : DocumentKey) (limits : ClientLimits) :
    Consented [] (.new key limits) :=
  ⟨.new key limits, (fun h => by cases h), forall_mem_nil _⟩

theorem Ledger.single (hd : Ledger d) {j : Nat} {b : Attempt}
    (hi : d.attempts[i]? = some a)
    (hj : d.attempts[j]? = some b) (ha : a.response = some response)
    (hb : b.response = some response) : i = j := by
  have hname : ∀ x ∈ d.attempts, x.response = some response →
      x.id = response.request := by
    intro x hx hr
    obtain ⟨head, hhead, rfl⟩ := Option.map_eq_some_iff.mp hr
    exact ((hd.sound x hx).named head hhead).symm
  have hid : a.id = b.id :=
    (hname a (mem_of_getElem? hi) ha).trans
      (hname b (mem_of_getElem? hj) hb).symm
  have hnodup : (d.attempts.map (·.id.transfer)).Nodup :=
    hd.ordered.imp fun h => Nat.ne_of_lt h
  have hlt : i < (d.attempts.map (·.id.transfer)).length := by
    rw [length_map]
    exact (getElem?_eq_some_iff.mp hi).1
  refine (getElem?_inj hlt hnodup).mp ?_
  rw [getElem?_map, getElem?_map, hi, hj]
  simp [hid]

/-- What a run leaves a document with. -/
structure Accounted (w : Wire) (actions : List Action)
    (d : ClientDocument) : Prop where
  /-- what is reserved is what the credits have outstanding -/
  reserved : d.reserved = ((d.attempts.map Attempt.outstanding).sum : Nat)
  /-- a credit is for a response, and a response is of one attempt -/
  credited : ∀ a ∈ d.attempts, a.credit.isSome = true →
    a.response.isSome = true
  single : ∀ (i j : Nat) (a b : Attempt) (response : ResponseId),
    d.attempts[i]? = some a → d.attempts[j]? = some b →
    a.response = some response → b.response = some response → i = j
  /-- the limit of the document holds until the user goes on -/
  received : d.received = (d.attempts.map Attempt.offset).sum
  limit : (d.received : Int) + d.reserved ≤ (DOCUMENT_BYTES : Nat)
    ∨ d.continued = true ∧ .continueReceiving ∈ actions
  /-- that of a response until the user allows it -/
  automatic : ∀ a ∈ d.attempts, a.offset ≤ AUTO_BYTES
    ∨ a.allowed = true ∧ .allow a.id ∈ actions
  head : ∀ a ∈ d.attempts, a.state = .ready ∨ a.state = .sizeNotice
    ∨ a.state = .receiving → a.head.isSome = true
  /-- what comes next continues each attempt -/
  next : ∀ action, ∃ kept admitted,
    (d.step w action).attempts = kept ++ admitted
      ∧ List.Forall₂ (Evolves w d action) d.attempts kept

/-- Consent and credit are accounted for in every run, whatever the server
sends and the client does. -/
theorem consent_and_credit (w : Wire) (key : DocumentKey)
    (limits : ClientLimits) (actions : List Action) :
    Accounted w actions
      (ClientDocument.run w (.new key limits) actions) := by
  have h : Consented actions _ :=
    (Consented.new key limits).run (w := w) actions
  have hl := h.ledger
  refine ⟨hl.reserved, fun a ha hc => ?_, fun i j a b response hi hj =>
    hl.single hi hj, hl.received, ?_, fun a ha => ?_,
    fun a ha => (hl.good a ha).head, fun action => ?_⟩
  · rw [Attempt.response, Option.isSome_map]
    exact (hl.good a ha).credited hc
  · exact hl.limit.symm.imp_right fun hc => ⟨hc, h.continued hc⟩
  · exact (hl.good a ha).automatic.symm.imp_right fun hal =>
      ⟨hal, h.allowed a ha hal⟩
  · obtain ⟨kept, admitted, heq, hkept, -⟩ :=
      (step_stepped (w := w) hl action).attempts
    exact ⟨kept, admitted, heq, hkept⟩

end Tasty.Remote.Http
