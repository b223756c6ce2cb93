/-
Bytes in files and on the wire: writing at a position, cutting to a length,
numbers in little-endian and in big-endian bytes. Records lie one after
another, with the offsets at which they begin, or each behind its length in
four bytes; a length that four bytes do not hold is cut, and what the cut
length leaves of a record is read as further ones. A list cut into chunks of
one width is collected by their index in any order.
-/
import Mathlib.Algebra.GroupWithZero.Nat
import Mathlib.Data.List.Basic

namespace Tasty.ByteFile

open List

/-- The file with `bytes` written at a position; what lies between its end
and the position is zero. -/
def writeAt (file : List UInt8) (pos : Nat) (bytes : List UInt8) :
    List UInt8 :=
  file.take pos ++ List.replicate (pos - file.length) 0 ++ bytes
    ++ file.drop (pos + bytes.length)

/-- The file cut, or filled with zeros, to a length. -/
def setLen (file : List UInt8) (n : Nat) : List UInt8 :=
  file.take n ++ List.replicate (n - file.length) 0

variable {file bytes : List UInt8} {pos n : Nat}

/-- A write ends where it says, and leaves what lies before it alone. -/
theorem take_writeAt (h : pos ≤ file.length) :
    (writeAt file pos bytes).take (pos + bytes.length)
      = file.take pos ++ bytes := by
  have hlen : (file.take pos ++ bytes).length = pos + bytes.length := by
    rw [List.length_append, length_take, Nat.min_eq_left h]
  unfold writeAt
  rw [Nat.sub_eq_zero_of_le h, replicate_zero, append_nil,
    List.take_append_of_le_length (Nat.le_of_eq hlen.symm), ← hlen, take_length]

theorem length_writeAt (h : pos ≤ file.length) :
    pos + bytes.length ≤ (writeAt file pos bytes).length := by
  unfold writeAt
  simp only [List.length_append, length_take, length_replicate, length_drop]
  omega

theorem take_setLen (hn : n ≤ file.length) : setLen file n = file.take n := by
  unfold setLen
  rw [Nat.sub_eq_zero_of_le hn, replicate_zero, append_nil]

-- ==== numbers

/-- The low `w` bytes of a number, the lowest first. -/
def le : Nat → Nat → List UInt8
  | 0, _ => []
  | w + 1, n => UInt8.ofNat n :: le w (n / 256)

/-- The number that bytes stand for, the lowest first. -/
def ofLe : List UInt8 → Nat
  | [] => 0
  | b :: bs => b.toNat + 256 * ofLe bs

@[simp] theorem length_le (w n : Nat) : (le w n).length = w := by
  induction w generalizing n with
  | zero => rfl
  | succ w ih => simp [le, ih]

theorem ofLe_le (w n : Nat) : ofLe (le w n) = n % 256 ^ w := by
  induction w generalizing n with
  | zero => simp [le, ofLe, Nat.mod_one]
  | succ w ih =>
    have hb : (UInt8.ofNat n).toNat = n % 256 := by simp
    rw [le, ofLe, ih, hb, Nat.pow_succ', Nat.mod_mul]

theorem ofLe_le_of_lt {w n : Nat} (h : n < 256 ^ w) : ofLe (le w n) = n := by
  rw [ofLe_le, Nat.mod_eq_of_lt h]

/-- The bytes of the number that bytes stand for are those bytes. -/
theorem le_ofLe (bs : List UInt8) : le bs.length (ofLe bs) = bs := by
  induction bs with
  | nil => rfl
  | cons b bs ih =>
    have hlow : UInt8.ofNat (b.toNat + 256 * ofLe bs) = b := by
      apply UInt8.toNat_inj.1
      have hb : b.toNat < 256 := b.toNat_lt
      rw [UInt8.toNat_ofNat']
      omega
    have hhigh : (b.toNat + 256 * ofLe bs) / 256 = ofLe bs := by
      have hb : b.toNat < 256 := b.toNat_lt
      omega
    rw [length_cons, ofLe, le, hlow, hhigh, ih]

-- ==== records

/-- Where each of the records begins, the first of them at `base`. -/
def offsets (base : Nat) : List (List UInt8) → List Nat
  | [] => []
  | r :: rs => base :: offsets (base + r.length) rs

@[simp] theorem length_offsets (base : Nat) (rs : List (List UInt8)) :
    (offsets base rs).length = rs.length := by
  induction rs generalizing base with
  | nil => rfl
  | cons r rs ih => simp [offsets, ih]

theorem offsets_append (base : Nat) (rs rs' : List (List UInt8)) :
    offsets base (rs ++ rs')
      = offsets base rs ++ offsets (base + rs.flatten.length) rs' := by
  induction rs generalizing base with
  | nil => simp [offsets]
  | cons r rs ih => simp [offsets, ih, Nat.add_assoc]

theorem offsets_drop (base n : Nat) (rs : List (List UInt8)) :
    (offsets base rs).drop n
      = offsets (base + (rs.take n).flatten.length) (rs.drop n) := by
  induction n generalizing base rs with
  | zero => simp
  | succ n ih =>
    cases rs with
    | nil => simp [offsets]
    | cons r rs => simp [offsets, ih, Nat.add_assoc]

theorem offsets_getElem? {base : Nat} {rs : List (List UInt8)} {i : Nat}
    (h : i < rs.length) :
    (offsets base rs)[i]? = some (base + (rs.take i).flatten.length) := by
  induction rs generalizing base i with
  | nil => simp at h
  | cons r rs ih =>
    cases i with
    | zero => simp [offsets]
    | succ i =>
      rw [length_cons] at h
      simp [offsets, ih (show i < rs.length by omega), Nat.add_assoc]

/-- Records that are moved keep their order. -/
theorem offsets_shift {base base' : Nat} (rs : List (List UInt8)) :
    ∀ b, base ≤ b →
      (offsets b rs).map (fun o => o - base + base')
        = offsets (b - base + base') rs := by
  induction rs with
  | nil => intro b _; rfl
  | cons r rs ih =>
    intro b hb
    simp only [offsets, List.map_cons, List.cons.injEq, true_and]
    rw [ih _ (by omega)]
    congr 1
    omega

end Tasty.ByteFile

namespace Tasty.ByteFile

/-- A record behind its length. -/
def frame (r : List UInt8) : List UInt8 := le 4 r.length ++ r

@[simp] theorem length_frame (r : List UInt8) :
    (frame r).length = 4 + r.length := by
  rw [frame, List.length_append, length_le]

/-- The records that are there from the first byte to the last; a length
without so many bytes behind it ends them. -/
def unframe (data : List UInt8) : List (List UInt8) :=
  if data.length < 4 then []
  else
    let len := ofLe (data.take 4)
    if (data.drop 4).length < len then []
    else (data.drop 4).take len :: unframe ((data.drop 4).drop len)
termination_by data.length
decreasing_by
  simp only [List.length_drop]
  omega

theorem unframe_nil : unframe [] = [] := by
  rw [unframe]
  rfl

theorem unframe_frame_append (r rest : List UInt8) :
    unframe (frame r ++ rest) = r.take (r.length % 256 ^ 4)
      :: unframe (r.drop (r.length % 256 ^ 4) ++ rest) := by
  have hcut : r.length % 256 ^ 4 ≤ r.length := Nat.mod_le _ _
  have hlong : ¬ (frame r ++ rest).length < 4 := by
    rw [List.length_append, length_frame]
    omega
  have htake : (frame r ++ rest).take 4 = le 4 r.length := by
    rw [frame, List.append_assoc, List.take_left' (length_le 4 _)]
  have hdrop : (frame r ++ rest).drop 4 = r ++ rest := by
    rw [frame, List.append_assoc, List.drop_left' (length_le 4 _)]
  rw [unframe, if_neg hlong, htake, hdrop, ofLe_le]
  dsimp only
  rw [if_neg (by rw [List.length_append]; omega),
    List.take_append_of_le_length hcut, List.drop_append_of_le_length hcut]

end Tasty.ByteFile

namespace Tasty

namespace ByteFile

/-- The low `w` bytes of a number, the highest first. -/
def be (w n : Nat) : List UInt8 := (le w n).reverse

/-- The number that bytes stand for, the highest first. -/
def ofBe (bs : List UInt8) : Nat := ofLe bs.reverse

@[simp] theorem length_be (w n : Nat) : (be w n).length = w := by
  rw [be, List.length_reverse, length_le]

theorem ofBe_be_of_lt {w n : Nat} (h : n < 256 ^ w) : ofBe (be w n) = n := by
  rw [ofBe, be, List.reverse_reverse, ofLe_le_of_lt h]

end ByteFile

variable {α ι β : Type}

-- ==== cutting

/-- The chunk with this number. -/
def chunkAt (width : Nat) (xs : List α) (i : Nat) : List α :=
  (xs.drop (i * width)).take width

theorem flatMap_chunkAt (width count : Nat) (xs : List α) :
    (List.range count).flatMap (chunkAt width xs)
      = xs.take (count * width) := by
  induction count with
  | zero => rw [Nat.zero_mul, List.take_zero]; rfl
  | succ count ih =>
    rw [List.range_succ, List.flatMap_append, ih, Nat.succ_mul,
      List.take_add, List.flatMap_singleton]
    rfl

theorem length_chunkAt_le (width : Nat) (xs : List α) (i : Nat) :
    (chunkAt width xs i).length ≤ width := List.length_take_le _ _

-- ==== collecting

/-- Parts by their index, as a map holds them. -/
def putPart [DecidableEq ι] (parts : List (ι × β)) (i : ι) (part : β) :
    List (ι × β) :=
  (i, part) :: parts.filter fun entry => entry.1 ≠ i

/-- The parts of these indices, the last of them on top. -/
def partsOf (part : ι → β) (indices : List ι) : List (ι × β) :=
  indices.map fun i => (i, part i)

variable [DecidableEq ι] {part : ι → β} {indices : List ι}

theorem putPart_partsOf (part : ι → β) {i : ι} (h : i ∉ indices) :
    putPart (partsOf part indices) i (part i)
      = partsOf part (i :: indices) := by
  unfold putPart partsOf
  rw [List.map_cons, List.filter_eq_self.2]
  intro entry hentry
  obtain ⟨j, hj, rfl⟩ := List.mem_map.1 hentry
  exact decide_eq_true fun heq => h (heq ▸ hj)

theorem lookup_partsOf (part : ι → β) {i : ι} (h : i ∈ indices) :
    (partsOf part indices).lookup i = some (part i) := by
  induction indices with
  | nil => cases h
  | cons j indices ih =>
    rw [partsOf, List.map_cons, List.lookup_cons]
    by_cases hij : i = j
    · rw [hij, beq_self_eq_true]
    · rw [beq_eq_false_iff_ne.2 hij]
      exact ih ((List.mem_cons.1 h).resolve_left hij)

/-- Lookups that all succeed. -/
theorem mapM_eq_some_map {γ : Type} {l : List γ} {f : γ → Option β}
    {g : γ → β} (h : ∀ x ∈ l, f x = some (g x)) :
    l.mapM f = some (l.map g) := by
  induction l with
  | nil => rfl
  | cons x l ih =>
    rw [List.mapM_cons, h x List.mem_cons_self,
      ih fun y hy => h y (List.mem_cons_of_mem _ hy)]
    rfl

end Tasty
