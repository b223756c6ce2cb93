/-
The live rows of a table and the bytes of its rows. What a write looks at
and what it leaves to the reads is told by the live rows alone; the counter
of the bytes holds the expired ones as well, and the quota takes them off.
-/
import Tasty.Memory.Store

namespace Tasty.Memory

open List

open Table (Unique)

variable {κ : Type} [DecidableEq κ] {place : Row → κ} {now later : Int}
  {rows : List Row}

-- ==== live rows

variable {r : Row}

theorem isExpired_mono (hle : now ≤ later) (h : r.isExpired now = true) : r.isExpired later = true := by
  unfold Row.isExpired at h ⊢
  cases hexp : r.expiresAt with
  | none =>
    rw [hexp] at h
    cases h
  | some expiresAt =>
    rw [hexp] at h
    exact decide_eq_true (Int.le_trans (of_decide_eq_true h) hle)

theorem mem_live : r ∈ live now rows ↔ r ∈ rows ∧ r.isExpired now = false := by
  rw [live, mem_filter, Bool.not_eq_true']

theorem live_live (hle : now ≤ later) (rows : List Row) :
    live later (live now rows) = live later rows := by
  unfold live
  rw [filter_filter]
  refine filter_congr fun r _ => ?_
  by_cases hnow : r.isExpired now = true
  · rw [hnow, isExpired_mono hle hnow]
    rfl
  · rw [Bool.eq_false_iff.2 hnow]
    exact Bool.and_true _

theorem live_append (now : Int) (rows rows' : List Row) :
    live now (rows ++ rows') = live now rows ++ live now rows' :=
  filter_append ..

theorem live_delete (now : Int) (p : Row → Bool) (rows : List Row) :
    live now (Table.delete p rows) = Table.delete p (live now rows) := by
  unfold live Table.delete
  rw [filter_filter, filter_filter]
  exact filter_congr fun r _ => Bool.and_comm _ _

theorem live_delete_expired {p : Row → Bool}
    (h : ∀ r ∈ rows, p r = true → r.isExpired now = true) :
    live now (Table.delete p rows) = live now rows := by
  rw [live_delete]
  refine filter_eq_self.2 fun r hr => ?_
  obtain ⟨hr, hlive⟩ := mem_live.1 hr
  cases hp : p r with
  | false => rfl
  | true => exact absurd (h r hr hp) (by rw [hlive]; exact Bool.false_ne_true)

theorem live_update (rows : List Row) {p : Row → Bool} {f : Row → Row}
    (h : ∀ r ∈ rows, p r = true → r.isExpired now = false) :
    live now (Table.update p f rows)
      = live now (Table.update p f (live now rows)) := by
  induction rows with
  | nil => rfl
  | cons r rows ih =>
    have hrest := ih fun x hx => h x (mem_cons_of_mem _ hx)
    by_cases hexp : r.isExpired now = true
    · have hp : p r = false := by
        cases hp : p r with
        | false => rfl
        | true =>
          rw [h r mem_cons_self hp] at hexp
          cases hexp
      have hdrop : live now (r :: rows) = live now rows :=
        filter_cons_of_neg (by rw [hexp]; exact Bool.false_ne_true)
      have hdrop' : live now (Table.update p f (r :: rows))
          = live now (Table.update p f rows) := by
        rw [show Table.update p f (r :: rows) = r :: Table.update p f rows by
          rw [Table.update, map_cons, hp]; rfl]
        exact filter_cons_of_neg
          (by rw [hexp]; exact Bool.false_ne_true)
      rw [hdrop, hdrop', hrest]
    · have hkeep : live now (r :: rows) = r :: live now rows :=
        filter_cons_of_pos (by rw [Bool.eq_false_iff.2 hexp]; rfl)
      have hhead (l : List Row) :
          live now (Table.update p f (r :: l))
            = live now [if p r then f r else r]
              ++ live now (Table.update p f l) :=
        live_append now [if p r then f r else r] _
      rw [hkeep, hhead, hhead, hrest]

theorem find_live (h : Unique place rows) (k : κ) :
    Table.find place k (live now rows)
      = (Table.find place k rows).filter fun r => !r.isExpired now := by
  have hlive : Unique place (live now rows) := h.sublist filter_sublist
  cases hfind : Table.find place k rows with
  | none =>
    refine Table.find_eq_none.2 fun r hr => ?_
    exact Table.find_eq_none.1 hfind r (mem_live.1 hr).1
  | some r =>
    have hmem := Table.find_mem hfind
    have hkey := Table.find_key hfind
    by_cases hexp : r.isExpired now = true
    · rw [Option.filter_some, hexp]
      refine Table.find_eq_none.2 fun r' hr' hkey' => ?_
      obtain ⟨hr', hne⟩ := mem_live.1 hr'
      obtain rfl := h.eq_of_key hr' hmem (hkey'.trans hkey.symm)
      rw [hexp] at hne
      cases hne
    · have hnot := Bool.eq_false_iff.2 hexp
      rw [Option.filter_some, hnot]
      exact hlive.find_eq_some.2 ⟨mem_live.2 ⟨hmem, hnot⟩, hkey⟩

-- ==== their bytes

theorem usedBytes_nonneg (rows : List Row) : 0 ≤ usedBytes rows := by
  induction rows with
  | nil => exact Int.le_refl 0
  | cons r rows ih =>
    rw [usedBytes]
    omega

theorem usedBytes_append (rows rows' : List Row) :
    usedBytes (rows ++ rows') = usedBytes rows + usedBytes rows' := by
  induction rows with
  | nil => exact (Int.zero_add _).symm
  | cons r rows ih =>
    rw [cons_append, usedBytes, usedBytes, ih, Int.add_assoc]

/-- Some rows and the others. -/
theorem usedBytes_split (p : Row → Bool) (rows : List Row) :
    usedBytes rows
      = usedBytes (rows.filter p) + usedBytes (rows.filter fun r => !p r) := by
  induction rows with
  | nil => rfl
  | cons r rows ih =>
    rw [filter_cons, filter_cons]
    cases hp : p r with
    | true =>
      rw [if_pos rfl, if_neg (by decide), usedBytes, usedBytes, ih]
      omega
    | false =>
      rw [if_neg Bool.false_ne_true, if_pos (by decide), usedBytes,
        usedBytes, ih]
      omega

theorem filter_place (h : Unique place rows) {k : κ}
    (hfind : Table.find place k rows = some r) :
    rows.filter (fun r' => place r' = k) = [r] := by
  induction rows with
  | nil => cases hfind
  | cons x rows ih =>
    obtain ⟨hnew, hrest⟩ := nodup_cons.1 h
    by_cases hx : place x = k
    · obtain rfl : x = r := by
        rw [Table.find, List.find?_cons_of_pos (by simpa using hx)] at hfind
        exact Option.some.inj hfind
      rw [filter_cons_of_pos (by simpa using hx),
        filter_eq_nil_iff.2 fun y hy hyk => ?_]
      have hyk : place y = k := by simpa using hyk
      exact hnew (mem_map.2 ⟨y, hy, hyk.trans hx.symm⟩)
    · rw [filter_cons_of_neg (by simpa using hx)]
      rw [Table.find, List.find?_cons_of_neg (by simpa using hx)] at hfind
      exact ih hrest hfind

/-- The bytes at a key. -/
def sizeAt (place : Row → κ) (k : κ) (rows : List Row) : Int :=
  ((Table.find place k rows).map fun r => (r.value.length : Int)).getD 0

theorem usedBytes_place (h : Unique place rows) (k : κ) :
    usedBytes (rows.filter fun r => place r = k) = sizeAt place k rows := by
  unfold sizeAt
  cases hfind : Table.find place k rows with
  | none =>
    rw [filter_eq_nil_iff.2 fun r hr => by
      simpa using Table.find_eq_none.1 hfind r hr]
    rfl
  | some r =>
    rw [filter_place h hfind]
    exact Int.add_zero _

theorem usedBytes_delete (h : Unique place rows) (k : κ) :
    usedBytes (Table.delete (fun r => place r = k) rows)
      = usedBytes rows - sizeAt place k rows := by
  have hsplit := usedBytes_split (fun r => place r = k) rows
  rw [usedBytes_place h] at hsplit
  show usedBytes (rows.filter fun r => !decide (place r = k)) = _
  omega

theorem usedBytes_update (h : Unique place rows) {k : κ} {f : Row → Row}
    {n : Nat} (hfind : Table.find place k rows = some r)
    (hf : ∀ r, (f r).value.length = n) :
    usedBytes (Table.update (fun r => place r = k) f rows)
      = usedBytes rows - sizeAt place k rows + n := by
  have hsum (rows : List Row) :
      usedBytes (Table.update (fun r => place r = k) f rows)
        = usedBytes (rows.filter fun r => !decide (place r = k))
          + (rows.filter fun r => place r = k).length * n := by
    induction rows with
    | nil => simp [Table.update, usedBytes]
    | cons x rows ih =>
      rw [Table.update, map_cons, filter_cons, filter_cons]
      by_cases hx : place x = k
      · rw [if_pos (by simpa using hx), if_neg (by simpa using hx),
          if_pos (by simpa using hx), usedBytes, hf,
          ← Table.update, ih, length_cons, Int.natCast_succ,
          Int.add_mul]
        omega
      · rw [if_neg (by simpa using hx), if_pos (by simpa using hx),
          if_neg (by simpa using hx), usedBytes, usedBytes,
          ← Table.update, ih]
        omega
  have hsplit := usedBytes_split (fun r => place r = k) rows
  rw [usedBytes_place h] at hsplit
  rw [hsum, filter_place h hfind, length_singleton, Int.natCast_one,
    Int.one_mul]
  omega

end Tasty.Memory
