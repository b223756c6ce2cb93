/-
Streams that may lose stretches of what is sent, but say where: what is
seen accounts for what was sent when every sent value is seen at its place
or lies in a stretch that a marker stands for. A marker may itself be sent;
it is then seen like any other value. Runs of seen values may be merged into
one marker, which is what a full buffer does.

A channel may also own up to its losses by number: a notice says how many
frames were lost since the notice before it. A strict frame goes in only
when nothing is owed. Then the notices that are seen before it count exactly
the frames that were lost before it.
-/


namespace Tasty

variable {α : Type} {marker : α → Prop} {sent sent' seen seen' : List α}
  {x m : α}

/-- What was sent, cut into what is seen and the stretches that a marker
is seen for. -/
inductive Accounts (marker : α → Prop) : List α → List α → Prop
  | nil : Accounts marker [] []
  | kept {sent seen : List α} (x : α) (rest : Accounts marker sent seen) :
      Accounts marker (x :: sent) (x :: seen)
  | lost {sent seen : List α} (stretch : List α) (m : α)
      (some_lost : stretch ≠ []) (marked : marker m)
      (rest : Accounts marker sent seen) :
      Accounts marker (stretch ++ sent) (m :: seen)

namespace Accounts

theorem append (h : Accounts marker sent seen)
    (h' : Accounts marker sent' seen') :
    Accounts marker (sent ++ sent') (seen ++ seen') := by
  induction h with
  | nil => exact h'
  | kept x _ ih => exact .kept x ih
  | lost stretch m some_lost marked _ ih =>
    rw [List.append_assoc]
    exact .lost stretch m some_lost marked ih

theorem snoc (h : Accounts marker sent seen) (x : α) :
    Accounts marker (sent ++ [x]) (seen ++ [x]) :=
  h.append (.kept x .nil)

theorem split {first last : List α} (h : Accounts marker sent (first ++ last)) :
    ∃ sent₁ sent₂, sent = sent₁ ++ sent₂ ∧ Accounts marker sent₁ first
      ∧ Accounts marker sent₂ last := by
  induction first generalizing sent with
  | nil => exact ⟨[], sent, rfl, .nil, h⟩
  | cons x first ih =>
    cases h with
    | kept _ rest =>
      obtain ⟨sent₁, sent₂, rfl, h₁, h₂⟩ := ih rest
      exact ⟨x :: sent₁, sent₂, rfl, .kept x h₁, h₂⟩
    | lost stretch _ some_lost marked rest =>
      obtain ⟨sent₁, sent₂, rfl, h₁, h₂⟩ := ih rest
      refine ⟨stretch ++ sent₁, sent₂, ?_, ?_, h₂⟩
      · rw [List.append_assoc]
      · exact .lost stretch x some_lost marked h₁

/-- Nothing is seen for nothing. -/
theorem sent_ne_nil (h : Accounts marker sent seen) (hs : seen ≠ []) :
    sent ≠ [] := by
  cases h with
  | nil => exact absurd rfl hs
  | kept x _ => exact List.cons_ne_nil x _
  | lost stretch _ some_lost _ _ =>
    intro h
    exact some_lost (List.append_eq_nil_iff.mp h).1

theorem merge {first last : List α}
    (h : Accounts marker sent (first ++ last)) (hl : last ≠ [])
    (hm : marker m) : Accounts marker sent (first ++ [m]) := by
  obtain ⟨sent₁, sent₂, rfl, h₁, h₂⟩ := h.split
  apply h₁.append
  have := Accounts.lost sent₂ m (h₂.sent_ne_nil hl) hm .nil
  rwa [List.append_nil] at this

end Accounts

end Tasty

-- ==== notices

namespace Tasty

/-- What a receiver sees. -/
inductive Seen (α : Type) where
  | frame (x : α)
  | notice (lost : Nat)
  deriving DecidableEq, Repr

/-- What became of a frame that was pushed. -/
inductive Fate (α : Type) where
  | sent (x : α) (strict : Bool)
  | lost
  deriving DecidableEq, Repr

namespace Notices

variable {α : Type}

/-- The frames among what is seen. -/
def frames : List (Seen α) → List α
  | [] => []
  | .frame x :: seen => x :: frames seen
  | .notice _ :: seen => frames seen

/-- How many lost frames the notices count. -/
def told : List (Seen α) → Nat
  | [] => 0
  | .frame _ :: seen => told seen
  | .notice lost :: seen => lost + told seen

/-- The frames that went in. -/
def sent : List (Fate α) → List α
  | [] => []
  | .sent x _ :: fates => x :: sent fates
  | .lost :: fates => sent fates

/-- How many were lost. -/
def lost : List (Fate α) → Nat
  | [] => 0
  | .sent _ _ :: fates => lost fates
  | .lost :: fates => lost fates + 1

@[simp] theorem frames_append (seen seen' : List (Seen α)) :
    frames (seen ++ seen') = frames seen ++ frames seen' := by
  induction seen with
  | nil => rfl
  | cons s seen ih => cases s <;> simp [frames, ih]

@[simp] theorem told_append (seen seen' : List (Seen α)) :
    told (seen ++ seen') = told seen + told seen' := by
  induction seen with
  | nil => simp [told]
  | cons s seen ih => cases s <;> simp [told, ih, Nat.add_assoc]

@[simp] theorem sent_append (fates fates' : List (Fate α)) :
    sent (fates ++ fates') = sent fates ++ sent fates' := by
  induction fates with
  | nil => rfl
  | cons f fates ih => cases f <;> simp [sent, ih]

@[simp] theorem lost_append (fates fates' : List (Fate α)) :
    lost (fates ++ fates') = lost fates + lost fates' := by
  induction fates with
  | nil => simp [lost]
  | cons f fates ih =>
    cases f <;> simp [lost, ih, Nat.add_right_comm]

/-- What is seen of the fates so far, and how many lost frames are still
owed a notice. -/
inductive Tells : List (Fate α) → List (Seen α) → Nat → Prop
  | start : Tells [] [] 0
  | sent {fates : List (Fate α)} {seen : List (Seen α)} {owed : Nat}
      (x : α) (strict : Bool) (told : Tells fates seen owed)
      (paid : strict = true → owed = 0) :
      Tells (fates ++ [.sent x strict]) (seen ++ [.frame x]) owed
  | lost {fates : List (Fate α)} {seen : List (Seen α)} {owed : Nat}
      (told : Tells fates seen owed) :
      Tells (fates ++ [.lost]) seen (owed + 1)
  | notice {fates : List (Fate α)} {seen : List (Seen α)} {owed : Nat}
      (told : Tells fates seen owed) :
      Tells fates (seen ++ [.notice owed]) 0

namespace Tells

variable {fates : List (Fate α)} {seen : List (Seen α)} {owed : Nat}

theorem counted (h : Tells fates seen owed) :
    told seen + owed = Notices.lost fates := by
  induction h with
  | start => rfl
  | sent x strict _ _ ih => simpa [told, Notices.lost] using ih
  | lost _ ih =>
    rw [lost_append, ← ih]
    rfl
  | notice _ ih =>
    rw [told_append, ← ih]
    simp [told]

theorem kept (h : Tells fates seen owed) :
    frames seen = Notices.sent fates := by
  induction h with
  | start => rfl
  | sent x strict _ _ ih =>
    rw [frames_append, sent_append, ih]
    rfl
  | lost _ ih =>
    rw [sent_append, ← ih]
    exact (List.append_nil _).symm
  | notice _ ih =>
    rw [frames_append, ih]
    exact List.append_nil _

theorem before {before after : List (Seen α)} {x : α}
    (h : Tells fates seen owed) (hs : seen = before ++ .frame x :: after) :
    ∃ past strict later n, fates = past ++ .sent x strict :: later
      ∧ Tells past before n ∧ (strict = true → n = 0) := by
  induction h generalizing after with
  | start => simp at hs
  | sent y strict told paid ih =>
    rename_i fates seen n
    obtain rfl | ⟨after, last, rfl⟩ := List.eq_nil_or_concat after
    · obtain ⟨rfl, hy⟩ := List.append_inj' hs rfl
      cases hy
      exact ⟨fates, strict, [], n, rfl, told, paid⟩
    · rw [List.concat_eq_append, ← List.cons_append, ← List.append_assoc] at hs
      obtain ⟨rfl, -⟩ := List.append_inj' hs rfl
      obtain ⟨past, strict', later, m, rfl, hpast, hpaid⟩ := ih rfl
      refine ⟨past, strict', later ++ [.sent y strict], m, ?_, hpast, hpaid⟩
      rw [List.append_assoc, List.cons_append]
  | lost _ ih =>
    obtain ⟨past, strict, later, m, rfl, hpast, hpaid⟩ := ih hs
    refine ⟨past, strict, later ++ [.lost], m, ?_, hpast, hpaid⟩
    rw [List.append_assoc, List.cons_append]
  | notice _ ih =>
    obtain rfl | ⟨after, last, rfl⟩ := List.eq_nil_or_concat after
    · obtain ⟨-, hx⟩ := List.append_inj' hs rfl
      cases hx
    · rw [List.concat_eq_append, ← List.cons_append, ← List.append_assoc] at hs
      obtain ⟨rfl, -⟩ := List.append_inj' hs rfl
      exact ih rfl

end Tells

end Notices

end Tasty
