/-
Programs over a store that is written one atomic write at a time, where
each write may fail and what was written stays: the disk remembers the
stores it was, so that a statement can speak of every state a program
passes through, whatever write it stops at.

`Evolves R` is the closure of the writes that `R` describes, and `Runs`
is the rule set that follows a program through its binds: a program all
of whose writes are in `R` only evolves the disk by `R`, also when it
fails half-way.
-/
import Mathlib.Data.List.Infix

namespace Tasty

open List

/-- A store, the stores it was before (latest first), whether the writes to
come succeed (once the list is used up they do), and what is kept beside
it. -/
structure Disk (σ ρ : Type) where
  store : σ
  past : List σ
  outcomes : List Bool
  env : ρ

namespace Disk

variable {σ ρ : Type}

/-- All the stores it has been, latest first. -/
def stores (d : Disk σ ρ) : List σ := d.store :: d.past

/-- Each store written since `d` satisfies `P`. -/
def Since (d d' : Disk σ ρ) (P : σ → Prop) : Prop :=
  ∃ written, d'.stores = written ++ d.stores ∧ ∀ s ∈ written, P s

/-- The store changed from `s` to `s'` at some write. -/
def Moves (d : Disk σ ρ) (s s' : σ) : Prop := [s', s] <:+: d.stores

end Disk

/-- A program that reads and writes a disk and may fail on the way. -/
abbrev Prog (σ ρ ε : Type) := ExceptT ε (StateM (Disk σ ρ))

-- ==== the programs

namespace Prog

variable {σ ρ ε α β : Type}

def read : Prog σ ρ ε σ := fun d => (.ok d.store, d)

/-- What is kept beside the store, changed. -/
def withEnv (f : ρ → α × ρ) : Prog σ ρ ε α :=
  fun d => (.ok (f d.env).1, { d with env := (f d.env).2 })

/-- One atomic write; `e` is the error when it fails. -/
def commit (e : ε) (f : σ → σ) : Prog σ ρ ε Unit := fun d =>
  if d.outcomes.headD true then
    (.ok (), { d with
      store := f d.store, past := d.store :: d.past,
      outcomes := d.outcomes.tail })
  else (.error e, { d with outcomes := d.outcomes.tail })

/-- A write to what is not part of the store, which may fail too. -/
def beside (e : ε) : Prog σ ρ ε Unit := fun d =>
  (if d.outcomes.headD true then .ok () else .error e,
    { d with outcomes := d.outcomes.tail })

/-- A computation outside the store. -/
def lift (x : Except ε α) : Prog σ ρ ε α := fun d => (x, d)

/-- Run it for what it does; a failure becomes a value. -/
def attempt (x : Prog σ ρ ε α) : Prog σ ρ ε (Except ε α) :=
  fun d => (.ok (x d).1, (x d).2)

/-- Another error in the place of the one it fails with. -/
def mapError (f : ε → ε) (x : Prog σ ρ ε α) : Prog σ ρ ε α :=
  fun d => ((x d).1.mapError f, (x d).2)

theorem bind_def (x : Prog σ ρ ε α) (f : α → Prog σ ρ ε β) (d : Disk σ ρ) :
    (x >>= f) d = match (x d).1 with
      | .ok a => f a (x d).2
      | .error e => (.error e, (x d).2) := by
  show StateT.bind x (ExceptT.bindCont f) d = _
  unfold StateT.bind
  show ExceptT.bindCont f (x d).1 (x d).2 = _
  cases (x d).1 <;> rfl

theorem bind_ok {x : Prog σ ρ ε α} {f : α → Prog σ ρ ε β}
    {d : Disk σ ρ} {a : α} (h : (x d).1 = .ok a) :
    (x >>= f) d = f a (x d).2 := by
  rw [bind_def, h]

theorem bind_error {x : Prog σ ρ ε α} {f : α → Prog σ ρ ε β}
    {d : Disk σ ρ} {e : ε} (h : (x d).1 = .error e) :
    (x >>= f) d = (.error e, (x d).2) := by
  rw [bind_def, h]

end Prog

-- ==== evolution

/-- The writes between two disks are all in `R`. -/
inductive Evolves {σ ρ : Type} (R : σ → σ → Prop) :
    Disk σ ρ → Disk σ ρ → Prop
  | refl (d : Disk σ ρ) : Evolves R d d
  | quiet {d d' d'' : Disk σ ρ} : Evolves R d d' →
      d''.store = d'.store → d''.past = d'.past → Evolves R d d''
  | write {d d' d'' : Disk σ ρ} : Evolves R d d' →
      R d'.store d''.store → d''.past = d'.store :: d'.past →
      Evolves R d d''

namespace Evolves

variable {σ ρ : Type} {R : σ → σ → Prop} {d d' d'' : Disk σ ρ}

variable (h : Evolves R d d')

include h

theorem trans (h' : Evolves R d' d'') : Evolves R d d'' := by
  induction h' with
  | refl => exact h
  | quiet _ hs hp ih => exact ih.quiet hs hp
  | write _ hR hp ih => exact ih.write hR hp

theorem suffix : d.stores <:+ d'.stores := by
  induction h with
  | refl => exact suffix_refl _
  | quiet _ hs hp ih =>
    unfold Disk.stores at *
    rw [hs, hp]
    exact ih
  | write _ _ hp ih =>
    unfold Disk.stores at *
    rw [hp]
    exact ih.trans (suffix_cons _ _)

variable {I : σ → Prop}

/-- What each write of `R` keeps, as long as the changes are in `C`. -/
theorem invariant {C : σ → σ → Prop} (hC : ∀ s s', d'.Moves s s' → C s s')
    (hstep : ∀ s s', R s s' → C s s' → I s → I s') (hI : I d.store) :
    I d'.store := by
  induction h with
  | refl => exact hI
  | quiet hev hs hp ih =>
    rw [hs]
    refine ih fun s s' hm => hC s s' ?_
    unfold Disk.Moves Disk.stores at hm ⊢
    rwa [hs, hp]
  | @write d₁ d₂ hev hw hp ih =>
    have hmove : d₂.Moves d₁.store d₂.store := by
      unfold Disk.Moves Disk.stores
      rw [hp]
      exact ⟨[], d₁.past, rfl⟩
    refine hstep _ _ hw (hC _ _ hmove) (ih fun s s' hm => ?_)
    refine hC s s' (List.IsInfix.trans hm ?_)
    unfold Disk.stores
    rw [hp]
    exact (suffix_cons _ _).isInfix

theorem keeps (hstep : ∀ s s', R s s' → I s → I s')
    (hI : I d.store) : I d'.store :=
  h.invariant (C := fun _ _ => True) (fun _ _ _ => trivial)
    (fun s s' hR _ => hstep s s' hR) hI

/-- What each write of `R` keeps holds at every store on the way. -/
theorem keeps_all (hstep : ∀ s s', R s s' → I s → I s')
    (hI : ∀ s ∈ d.stores, I s) : ∀ s ∈ d'.stores, I s := by
  induction h with
  | refl => exact hI
  | quiet _ hs hp ih =>
    unfold Disk.stores at *
    rw [hs, hp]
    exact ih
  | @write d₁ d₂ _ hw hp ih =>
    intro s hs
    unfold Disk.stores at hs
    rw [hp] at hs
    rcases mem_cons.1 hs with rfl | hs
    · exact hstep _ _ hw (ih _ mem_cons_self)
    · exact ih s hs

theorem keeps_since {P : σ → Prop}
    (hstep : ∀ s s', R s s' → P s → P s' → I s → I s') (hP : P d.store)
    (hI : I d.store) (hsince : d.Since d' P) : P d'.store ∧ I d'.store := by
  induction h with
  | refl => exact ⟨hP, hI⟩
  | quiet _ hs hp ih =>
    rw [hs]
    refine ih ?_
    unfold Disk.Since Disk.stores at *
    rwa [hs, hp] at hsince
  | @write d₁ d₂ hev hw hp ih =>
    obtain ⟨written, hstores, hall⟩ := hsince
    obtain ⟨before, hbefore⟩ := hev.suffix
    have heq : written ++ d.stores = (d₂.store :: before) ++ d.stores := by
      rw [← hstores, cons_append, hbefore]
      unfold Disk.stores
      rw [hp]
    rw [append_cancel_right heq] at hall
    have hold := ih ⟨before, hbefore.symm,
      fun s hs => hall s (mem_cons_of_mem _ hs)⟩
    have hnew := hall _ mem_cons_self
    exact ⟨hnew, hstep _ _ hw hold.1 hnew hold.2⟩

/-- Of the stores written, those from a disk on the way on. -/
theorem since {P : σ → Prop} (h' : Evolves R d' d'')
    (hP : P d.store) (hsince : d.Since d'' P) :
    P d'.store ∧ d'.Since d'' P := by
  obtain ⟨written, hstores, hall⟩ := hsince
  obtain ⟨before, hbefore⟩ := h.suffix
  obtain ⟨after, hafter⟩ := h'.suffix
  have heq : written ++ d.stores = (after ++ before) ++ d.stores := by
    rw [← hstores, append_assoc, hbefore, hafter]
  rw [append_cancel_right heq] at hall
  refine ⟨?_, after, hafter.symm, fun s hs => hall s (mem_append_left _ hs)⟩
  cases before with
  | nil =>
    have hhead := congrArg List.head? hbefore
    rw [← Option.some.inj hhead]
    exact hP
  | cons s before =>
    have hhead := congrArg List.head? hbefore
    rw [← Option.some.inj hhead]
    exact hall s (mem_append_right _ mem_cons_self)

omit h

end Evolves

-- ==== following a run

/-- From `d`, the program only writes by `R`, and if it succeeds its result
and the disk are in `Q`. -/
def Runs {σ ρ ε α : Type} (R : σ → σ → Prop) (x : Prog σ ρ ε α)
    (d : Disk σ ρ) (Q : α → Disk σ ρ → Prop) : Prop :=
  Evolves R d (x d).2 ∧ ∀ a, (x d).1 = .ok a → Q a (x d).2

namespace Runs

variable {σ ρ ε α β : Type} {R : σ → σ → Prop} {x : Prog σ ρ ε α}
  {d : Disk σ ρ} {P Q : α → Disk σ ρ → Prop}

theorem weaken (h : Runs R x d P) (hPQ : ∀ a d', P a d' → Q a d') :
    Runs R x d Q :=
  ⟨h.1, fun a ha => hPQ a _ (h.2 a ha)⟩

theorem pure {a : α} (h : Q a d) : Runs R (pure a : Prog σ ρ ε α) d Q := by
  refine ⟨.refl d, fun b hb => ?_⟩
  cases hb
  exact h

variable {e : ε}

theorem throw : Runs R (throw e : Prog σ ρ ε α) d Q :=
  ⟨.refl d, fun _ h => by cases h⟩

theorem bind {f : α → Prog σ ρ ε β} {Q : β → Disk σ ρ → Prop}
    (hx : Runs R x d P)
    (hf : ∀ a d', Evolves R d d' → P a d' → Runs R (f a) d' Q) :
    Runs R (x >>= f) d Q := by
  cases hr : (x d).1 with
  | error e =>
    have heq := Prog.bind_error (f := f) hr
    refine ⟨?_, fun b hb => ?_⟩
    · rw [heq]
      exact hx.1
    · rw [heq] at hb
      cases hb
  | ok a =>
    have heq := Prog.bind_ok (f := f) hr
    have hfa := hf a _ hx.1 (hx.2 a hr)
    refine ⟨?_, fun b hb => ?_⟩
    · rw [heq]
      exact hx.1.trans hfa.1
    · rw [heq] at hb ⊢
      exact hfa.2 b hb

theorem throw_bind {f : α → Prog σ ρ ε β} {Q : β → Disk σ ρ → Prop} :
    Runs R ((MonadExcept.throw e : Prog σ ρ ε α) >>= f) d Q :=
  bind (P := fun _ _ => False) throw fun _ _ _ h => h.elim

theorem read {Q : σ → Disk σ ρ → Prop} (h : Q d.store d) :
    Runs R (Prog.read : Prog σ ρ ε σ) d Q := by
  refine ⟨.refl d, fun s hs => ?_⟩
  cases hs
  exact h

theorem withEnv {f : ρ → α × ρ}
    (h : Q (f d.env).1 { d with env := (f d.env).2 }) :
    Runs R (Prog.withEnv f : Prog σ ρ ε α) d Q := by
  refine ⟨(Evolves.refl d).quiet rfl rfl, fun a ha => ?_⟩
  cases ha
  exact h

theorem lift {y : Except ε α} (h : ∀ a, y = .ok a → Q a d) :
    Runs R (Prog.lift y : Prog σ ρ ε α) d Q :=
  ⟨.refl d, fun a ha => h a ha⟩

/-- A program that reads the store goes on with it. -/
theorem read_bind {f : σ → Prog σ ρ ε α} (h : Runs R (f d.store) d Q) :
    Runs R (Prog.read >>= f) d Q := by
  refine (read (Q := fun s d' => s = d.store ∧ d' = d) ⟨rfl, rfl⟩).bind ?_
  rintro s d' - ⟨rfl, rfl⟩
  exact h

theorem lift_bind {y : Except ε β} {f : β → Prog σ ρ ε α}
    (h : ∀ b, y = .ok b → Runs R (f b) d Q) :
    Runs R (Prog.lift y >>= f) d Q := by
  refine (lift (Q := fun b d' => y = .ok b ∧ d' = d) fun _ hb =>
    ⟨hb, rfl⟩).bind ?_
  rintro b d' - ⟨hb, rfl⟩
  exact h b hb

/-- A write of `R`. -/
theorem commit {f : σ → σ} {Q : Unit → Disk σ ρ → Prop}
    (hR : R d.store (f d.store)) (hQ : ∀ d', d'.store = f d.store → Q () d') :
    Runs R (Prog.commit e f : Prog σ ρ ε Unit) d Q := by
  unfold Prog.commit Runs
  by_cases h : d.outcomes.headD true = true
  · simp only [h, if_true]
    exact ⟨(Evolves.refl d).write hR rfl, fun _ _ => hQ _ rfl⟩
  · simp only [h]
    exact ⟨(Evolves.refl d).quiet rfl rfl, fun a ha => by cases ha⟩

theorem beside {Q : Unit → Disk σ ρ → Prop}
    (hQ : ∀ d' : Disk σ ρ, d'.store = d.store → Q () d') :
    Runs R (Prog.beside e : Prog σ ρ ε Unit) d Q :=
  ⟨(Evolves.refl d).quiet rfl rfl, fun _ _ => hQ _ rfl⟩

theorem attempt {Q : Except ε α → Disk σ ρ → Prop}
    (hx : Evolves R d (x d).2) (hQ : Q (x d).1 (x d).2) :
    Runs R (Prog.attempt x) d Q := by
  refine ⟨hx, fun r hr => ?_⟩
  cases hr
  exact hQ

theorem mapError {f : ε → ε} (hx : Runs R x d Q) :
    Runs R (Prog.mapError f x) d Q := by
  refine ⟨hx.1, fun a ha => hx.2 a ?_⟩
  unfold Prog.mapError at ha
  dsimp only at ha
  cases hr : (x d).1 with
  | ok b =>
    rw [hr] at ha
    exact ha
  | error e =>
    rw [hr] at ha
    cases ha

theorem ite {p : Prop} [Decidable p] {y : Prog σ ρ ε α}
    (hx : p → Runs R x d Q) (hy : ¬ p → Runs R y d Q) :
    Runs R (if p then x else y) d Q := by
  by_cases h : p
  · rw [if_pos h]
    exact hx h
  · rw [if_neg h]
    exact hy h

/-- A loop over a list keeps what each round keeps. -/
theorem forM {γ : Type} {f : γ → Prog σ ρ ε PUnit} {l : List γ}
    {I : Disk σ ρ → Prop}
    (hf : ∀ c ∈ l, ∀ d, I d → Runs R (f c) d fun _ d' => I d')
    (hI : I d) : Runs R (l.forM f) d fun _ d' => I d' := by
  induction l generalizing d with
  | nil => exact .pure hI
  | cons c l ih =>
    exact (hf c mem_cons_self d hI).bind fun _ d' _ hI' =>
      ih (fun c hc => hf c (mem_cons_of_mem _ hc)) hI'

theorem foldlM {γ : Type} {f : β → γ → Prog σ ρ ε β} {l : List γ} {b : β}
    {I : List γ → β → Disk σ ρ → Prop} (hf : ∀ seen c b d, I seen b d →
      Runs R (f b c) d fun b' d' => I (seen ++ [c]) b' d')
    (hI : I [] b d) : Runs R (l.foldlM f b) d fun b' d' => I l b' d' := by
  suffices h : ∀ seen b d, I seen b d →
      Runs R (l.foldlM f b) d fun b' d' => I (seen ++ l) b' d' by
    exact h [] b d hI
  clear hI
  induction l with
  | nil =>
    intro seen b d hI
    rw [append_nil]
    exact .pure hI
  | cons c l ih =>
    intro seen b d hI
    rw [foldlM_cons]
    refine (hf seen c b d hI).bind fun b' d' _ hI' => ?_
    have h := ih (seen ++ [c]) b' d' hI'
    rwa [append_assoc] at h

end Runs

end Tasty
