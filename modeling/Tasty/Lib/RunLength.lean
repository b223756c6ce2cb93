/-
Runs of equal values. A list is written down as values with counts, each
run as long as it can be, and read back by position; what stands behind the
last run is read as a fallback. The counts may be kept in fewer digits than
they have: the last theorem says which lists are read back all the same.
-/
import Mathlib.Data.List.Chain
import Mathlib.Algebra.GroupWithZero.Nat

namespace Tasty

open List

variable {α ν : Type}

-- ==== reading

/-- The value at a position, `beyond` behind the last run. -/
def runAt (beyond : α) : List (Nat × α) → Nat → α
  | [], _ => beyond
  | (n, a) :: runs, k => if k < n then a else runAt beyond runs (k - n)

variable {a : α} {n : Nat} {runs : List (Nat × α)}

/-- A run with one value taken off its front. -/
theorem runAt_pred {beyond : α} (h : 0 < n) (k : Nat) : runAt beyond ((n - 1, a) :: runs) k
      = runAt beyond ((n, a) :: runs) (k + 1) := by
  by_cases hk : k < n - 1
  · rw [runAt, runAt, if_pos hk, if_pos (by omega)]
  · rw [runAt, runAt, if_neg hk, if_neg (by omega)]
    congr 1
    omega

/-- How many values the runs stand for. -/
def runTotal (runs : List (Nat × α)) : Nat := (runs.map Prod.fst).sum

@[simp] theorem runTotal_nil : runTotal ([] : List (Nat × α)) = 0 := rfl

@[simp] theorem runTotal_cons (n : Nat) (a : α) (runs : List (Nat × α)) :
    runTotal ((n, a) :: runs) = n + runTotal runs := by
  simp [runTotal]

theorem runAt_of_lt {beyond : α} {k : Nat} (h : k < n) : runAt beyond ((n, a) :: runs) k = a := if_pos h

theorem runAt_of_le {beyond : α} {k : Nat} (h : n ≤ k) :
    runAt beyond ((n, a) :: runs) k = runAt beyond runs (k - n) :=
  if_neg (Nat.not_lt.2 h)

theorem runAt_add (beyond a : α) (n k : Nat) (runs : List (Nat × α)) :
    runAt beyond ((n, a) :: runs) (n + k) = runAt beyond runs k := by
  rw [runAt_of_le (Nat.le_add_right n k), Nat.add_sub_cancel_left]

/-- The values one after another. -/
def expandRuns (runs : List (Nat × α)) : List α :=
  runs.flatMap fun run => List.replicate run.1 run.2

theorem expandRuns_append (runs runs' : List (Nat × α)) :
    expandRuns (runs ++ runs') = expandRuns runs ++ expandRuns runs' :=
  flatMap_append

theorem length_expandRuns (runs : List (Nat × α)) :
    (expandRuns runs).length = runTotal runs := by
  simp [expandRuns, runTotal, length_flatMap]

theorem runAt_eq_getElem (beyond : α) (runs : List (Nat × α)) (k : Nat) :
    runAt beyond runs k = (expandRuns runs)[k]?.getD beyond := by
  induction runs generalizing k with
  | nil => rfl
  | cons run runs ih =>
    obtain ⟨n, a⟩ := run
    have hexpand : expandRuns ((n, a) :: runs)
        = List.replicate n a ++ expandRuns runs := rfl
    rw [hexpand]
    by_cases hk : k < n
    · rw [runAt_of_lt hk, getElem?_append_left (by simpa using hk),
        getElem?_replicate_of_lt hk]
      rfl
    · have hle : n ≤ k := Nat.le_of_not_lt hk
      rw [runAt_of_le hle, ih, getElem?_append_right (by simpa using hle),
        length_replicate]

-- ==== writing

/-- No run is empty, and none goes on in the next. -/
structure MaximalRuns (runs : List (Nat × α)) : Prop where
  pos : ∀ run ∈ runs, 0 < run.1
  apart : runs.IsChain fun x y => x.2 ≠ y.2

variable {run : Nat × α}

theorem MaximalRuns.tail (h : MaximalRuns (run :: runs)) : MaximalRuns runs where
  pos := fun run hrun => h.pos run (mem_cons_of_mem _ hrun)
  apart := h.apart.tail

section Pushing

variable [DecidableEq α]

/-- One value more: it lengthens the last run or begins another. -/
def pushRun [Add ν] [OfNat ν 1] (runs : List (ν × α)) (a : α) :
    List (ν × α) :=
  match runs.getLast? with
  | some (n, b) =>
    if b = a then runs.dropLast ++ [(n + 1, b)] else runs ++ [(1, a)]
  | none => runs ++ [(1, a)]

/-- The longest runs of equal values. -/
def runsOf (values : List α) : List (Nat × α) := values.foldl pushRun []

variable [Add ν] [OfNat ν 1]

theorem pushRun_nil (a : α) : pushRun ([] : List (ν × α)) a = [(1, a)] := rfl

theorem pushRun_concat (runs : List (ν × α)) (n : ν) (b a : α) :
    pushRun (runs ++ [(n, b)]) a
      = if b = a then runs ++ [(n + 1, b)]
        else runs ++ [(n, b)] ++ [(1, a)] := by
  unfold pushRun
  rw [getLast?_concat]
  dsimp only
  rw [dropLast_concat]

/-- Counts of another kind count the same. -/
theorem map_foldl_pushRun {h : Nat → ν} (hone : h 1 = 1)
    (hsucc : ∀ n, h (n + 1) = h n + 1) (values : List α)
    (runs : List (Nat × α)) :
    (values.foldl pushRun runs).map (Prod.map h id)
      = values.foldl pushRun (runs.map (Prod.map h id)) := by
  induction values generalizing runs with
  | nil => rfl
  | cons a values ih =>
    rw [foldl_cons, foldl_cons, ih]
    congr 1
    induction runs using reverseRecOn with
    | nil => simp [pushRun_nil, hone]
    | append_singleton runs run =>
      obtain ⟨n, b⟩ := run
      rw [map_append, map_singleton, pushRun_concat]
      show _ = pushRun (_ ++ [(h n, b)]) a
      rw [pushRun_concat]
      split
      · simp [hsucc]
      · simp [hone]

theorem MaximalRuns.pushRun (h : MaximalRuns runs) (a : α) : MaximalRuns (pushRun runs a) := by
  induction runs using reverseRecOn with
  | nil =>
    rw [pushRun_nil]
    exact ⟨forall_mem_cons.2 ⟨Nat.one_pos, nofun⟩, isChain_singleton _⟩
  | append_singleton runs run =>
    obtain ⟨n, b⟩ := run
    have hpos := h.pos
    have hapart := h.apart
    rw [pushRun_concat]
    by_cases hb : b = a
    · rw [if_pos hb]
      refine ⟨fun run hrun => ?_, ?_⟩
      · rcases mem_append.1 hrun with hrun | hrun
        · exact hpos run (mem_append_left _ hrun)
        · rw [mem_singleton.1 hrun]
          exact Nat.succ_pos n
      · rw [isChain_append] at hapart ⊢
        refine ⟨hapart.1, isChain_singleton _, fun x hx y hy => ?_⟩
        cases hy
        exact hapart.2.2 x hx (n, b) rfl
    · rw [if_neg hb]
      refine ⟨fun run hrun => ?_, ?_⟩
      · rcases mem_append.1 hrun with hrun | hrun
        · exact hpos run hrun
        · rw [mem_singleton.1 hrun]
          exact Nat.one_pos
      · rw [isChain_append]
        refine ⟨hapart, isChain_singleton _, fun x hx y hy => ?_⟩
        rw [getLast?_concat] at hx
        cases hx
        cases hy
        exact hb

theorem expandRuns_pushRun (runs : List (Nat × α)) (a : α) :
    expandRuns (pushRun runs a) = expandRuns runs ++ [a] := by
  induction runs using reverseRecOn with
  | nil => simp [pushRun_nil, expandRuns]
  | append_singleton runs run =>
    obtain ⟨n, b⟩ := run
    rw [pushRun_concat]
    by_cases hb : b = a
    · rw [if_pos hb, expandRuns_append, expandRuns_append, append_assoc]
      subst hb
      simp [expandRuns, replicate_succ']
    · rw [if_neg hb, expandRuns_append]
      simp [expandRuns]

variable (values : List α)

theorem maximalRuns_runsOf : MaximalRuns (runsOf values) := by
  induction values using reverseRecOn with
  | nil => exact ⟨nofun, isChain_nil⟩
  | append_singleton values a ih =>
    unfold runsOf
    rw [foldl_append]
    exact ih.pushRun a

theorem expandRuns_runsOf : expandRuns (runsOf values) = values := by
  induction values using reverseRecOn with
  | nil => rfl
  | append_singleton values a ih =>
    unfold runsOf at ih ⊢
    rw [foldl_append, foldl_cons, foldl_nil, expandRuns_pushRun, ih]

theorem runTotal_runsOf : runTotal (runsOf values) = values.length := by
  rw [← length_expandRuns, expandRuns_runsOf]

theorem runAt_runsOf (beyond : α) (values : List α) (k : Nat) :
    runAt beyond (runsOf values) k = values[k]?.getD beyond := by
  rw [runAt_eq_getElem, expandRuns_runsOf]

theorem exists_head_runsOf (a : α) (values : List α) :
    ∃ n, (runsOf (a :: values)).head? = some (n, a) := by
  have hmax := maximalRuns_runsOf (a :: values)
  have hexpand := expandRuns_runsOf (a :: values)
  cases hruns : runsOf (a :: values) with
  | nil =>
    rw [hruns] at hexpand
    cases hexpand
  | cons run runs =>
    obtain ⟨n, b⟩ := run
    rw [hruns] at hmax hexpand
    obtain ⟨m, rfl⟩ :=
      Nat.exists_eq_succ_of_ne_zero
        (Nat.ne_of_gt (hmax.pos _ mem_cons_self))
    have hb : b = a := (List.cons.inj hexpand).1
    exact ⟨m + 1, by rw [hb]; rfl⟩

end Pushing

-- ==== cut counts

section Cut

variable (w : Nat → Nat)

/-- The runs with the counts that were kept of theirs. -/
def cutRuns (runs : List (Nat × α)) : List (Nat × α) :=
  runs.map fun run => (w run.1, run.2)

@[simp] theorem cutRuns_cons (n : Nat) (a : α) (runs : List (Nat × α)) :
    cutRuns w ((n, a) :: runs) = (w n, a) :: cutRuns w runs := rfl

/-- Every count is kept; that of the last run need not be if its value is
the one behind all runs. -/
def CountsKept (beyond : α) (runs : List (Nat × α)) : Prop :=
  (∀ run ∈ runs.dropLast, w run.1 = run.1)
    ∧ ∀ run ∈ runs.getLast?, w run.1 = run.1 ∨ run.2 = beyond

variable {w} {beyond : α}

theorem countsKept_cons (h : runs ≠ []) :
    CountsKept w beyond (run :: runs)
      ↔ w run.1 = run.1 ∧ CountsKept w beyond runs := by
  unfold CountsKept
  rw [dropLast_cons_of_ne_nil h, forall_mem_cons,
    getLast?_cons_of_ne_nil h, and_assoc]

theorem countsKept_singleton :
    CountsKept w beyond [run] ↔ w run.1 = run.1 ∨ run.2 = beyond := by
  unfold CountsKept
  simp

/-- What reads as maximal runs does not read as the same runs pushed back
by a value of another kind: at each run the push is found again, in the
value of the run before. -/
theorem not_pushed_back (beyond : α) (hruns : MaximalRuns runs)
    (hne : runs ≠ []) {x : α} (hx : ∀ run ∈ runs.head?, run.2 ≠ x)
    {m d : Nat} (hm : 0 < m) :
    ¬ ∀ k < m + runTotal runs, runAt beyond (cutRuns w runs) (d + k)
      = if k < m then x else runAt beyond runs (k - m) := by
  induction runs generalizing x m d with
  | nil => exact absurd rfl hne
  | cons run runs ih =>
    obtain ⟨n, v⟩ := run
    have hv : v ≠ x := hx (n, v) rfl
    have hn : 0 < n := hruns.pos (n, v) mem_cons_self
    intro hall
    rw [runTotal_cons] at hall
    have hfirst := hall 0 (by omega)
    have hsecond := hall m (by omega)
    rw [if_pos hm] at hfirst
    rw [if_neg (Nat.lt_irrefl m), Nat.sub_self, runAt_of_lt hn]
      at hsecond
    by_cases hd : d < w n
    · rw [cutRuns_cons, Nat.add_zero, runAt_of_lt hd] at hfirst
      exact hv hfirst
    have hbehind (k : Nat) : runAt beyond (cutRuns w ((n, v) :: runs))
        (d + k) = runAt beyond (cutRuns w runs) (d - w n + k) := by
      rw [cutRuns_cons, runAt_of_le (by omega)]
      congr 1
      omega
    rw [hbehind] at hfirst hsecond
    cases runs with
    | nil => exact hv (hsecond.symm.trans hfirst)
    | cons next runs =>
      have hapart := isChain_cons_cons.1 hruns.apart
      refine ih hruns.tail nofun (x := v) (m := n) (d := d - w n + m)
        ?_ hn ?_
      · intro run hrun
        cases hrun
        exact hapart.1.symm
      · intro k hk
        have hstep := hall (m + k) (by omega)
        rw [hbehind, if_neg (by omega), Nat.add_sub_cancel_left] at hstep
        rw [Nat.add_assoc, hstep]
        by_cases hkn : k < n
        · rw [if_pos hkn, runAt_of_lt hkn]
        · rw [if_neg hkn, runAt_of_le (Nat.le_of_not_lt hkn)]

theorem runAt_cutRuns_iff (hw : ∀ n, w n ≤ n) (hruns : MaximalRuns runs) :
    (∀ k < runTotal runs, runAt beyond (cutRuns w runs) k = runAt beyond runs k)
      ↔ CountsKept w beyond runs := by
  induction runs with
  | nil => exact iff_of_true nofun ⟨nofun, nofun⟩
  | cons run runs ih =>
    obtain ⟨n, v⟩ := run
    rw [runTotal_cons, cutRuns_cons]
    cases runs with
    | nil =>
      rw [countsKept_singleton]
      constructor
      · intro hall
        rcases Nat.lt_or_eq_of_le (hw n) with hlt | heq
        · have hat := hall (w n) (by simpa using hlt)
          rw [runAt_of_le (Nat.le_refl _), runAt_of_lt hlt] at hat
          exact .inr hat.symm
        · exact .inl heq
      · rintro (heq | rfl) k hk
        · rw [heq]
          rfl
        · simp only [runAt, cutRuns, map_nil, ite_self]
    | cons next runs =>
      have hapart := isChain_cons_cons.1 hruns.apart
      have hrest : MaximalRuns (next :: runs) := hruns.tail
      rw [countsKept_cons (cons_ne_nil _ _), ← ih hrest]
      constructor
      · intro hall
        have hkept : w n = n := by
          refine Nat.le_antisymm (hw n) (Nat.le_of_not_lt fun hlt => ?_)
          refine not_pushed_back (w := w) beyond hrest
            (cons_ne_nil _ _) (x := v) (m := n - w n) (d := 0)
            ?_ (Nat.sub_pos_of_lt hlt) ?_
          · intro run hrun
            cases hrun
            exact hapart.1.symm
          · intro k hk
            have hat := hall (w n + k) (by omega)
            rw [runAt_add] at hat
            rw [Nat.zero_add, hat]
            by_cases hkn : k < n - w n
            · rw [if_pos hkn, runAt_of_lt (by omega)]
            · rw [if_neg hkn, runAt_of_le (by omega)]
              congr 1
              omega
        refine ⟨hkept, fun k hk => ?_⟩
        have hat := hall (n + k) (by omega)
        rw [hkept, runAt_add, runAt_add] at hat
        exact hat
      · rintro ⟨hkept, hall⟩ k hk
        dsimp only at hkept
        rw [hkept]
        by_cases hkn : k < n
        · rw [runAt_of_lt hkn, runAt_of_lt hkn]
        · rw [runAt_of_le (by omega), runAt_of_le (by omega)]
          exact hall (k - n) (by omega)

theorem map_runAt_cutRuns_iff [DecidableEq α] (hw : ∀ n, w n ≤ n)
    (values : List α) :
    (List.range values.length).map (runAt beyond (cutRuns w (runsOf values)))
        = values ↔ CountsKept w beyond (runsOf values) := by
  rw [← runAt_cutRuns_iff hw (maximalRuns_runsOf values), runTotal_runsOf]
  constructor
  · intro h k hk
    have hat := congrArg (fun l => l[k]?) h
    rw [getElem?_map, getElem?_range hk, Option.map_some] at hat
    rw [runAt_runsOf, ← hat, Option.getD_some]
  · intro h
    refine ext_getElem (by simp) fun k hk hk' => ?_
    rw [getElem_map, getElem_range, h k hk', runAt_runsOf,
      getElem?_eq_getElem hk', Option.getD_some]

end Cut

end Tasty
