/-
IEEE 754 double precision numbers by their bits: which are finite, how
they compare, and which integers they hold exactly; the double nearest to an
integer, the integer that a whole double is, and equality of doubles as
numbers. Other arithmetic is not needed here; their text is a parameter.
-/
import Mathlib.Algebra.Order.Ring.Int
import Mathlib.Data.Nat.Log

namespace Tasty

/-- A double, as its bits. -/
structure F64 where
  bits : UInt64
  deriving DecidableEq

namespace F64

/-- Exponent and mantissa, without the sign. -/
def magnitude (x : F64) : Nat := x.bits.toNat % 2 ^ 63

def negative (x : F64) : Bool := 2 ^ 63 ≤ x.bits.toNat

/-- The magnitude of the infinities. -/
def infinity : Nat := 2047 * 2 ^ 52

def isNan (x : F64) : Bool := infinity < x.magnitude

def isFinite (x : F64) : Bool := x.magnitude < infinity

/-- The place of a number on the line; both zeros are 0. -/
def key (x : F64) : Int :=
  if x.negative then -(x.magnitude : Int) else x.magnitude

/-- `a < b`, false when one is not a number. -/
def lt (a b : F64) : Bool := !a.isNan && !b.isNan && a.key < b.key

/-- `a <= b`, false when one is not a number. -/
def le (a b : F64) : Bool := !a.isNan && !b.isNan && a.key ≤ b.key

/-- What is not below a bound is not below a smaller one. -/
theorem lt_of_lt_of_le {x a b : F64} (hab : a.le b = true)
    (hx : x.lt a = true) : x.lt b = true := by
  unfold lt le at *
  simp only [Bool.and_eq_true, decide_eq_true_eq] at *
  exact ⟨⟨hx.1.1, hab.1.2⟩, by omega⟩

theorem lt_of_le_of_lt {x a b : F64} (hab : a.le b = true)
    (hx : b.lt x = true) : a.lt x = true := by
  unfold lt le at *
  simp only [Bool.and_eq_true, decide_eq_true_eq] at *
  exact ⟨⟨hab.1.1, hx.1.2⟩, by omega⟩

/-- The value is a whole number (`fract() == 0.0`), for a finite one:
a mantissa of 53 bits, shifted by the exponent. -/
def isWhole (x : F64) : Bool :=
  let exponent := x.magnitude / 2 ^ 52
  let mantissa := x.magnitude % 2 ^ 52
  if x.magnitude = 0 ∨ 1075 ≤ exponent then true
  else if exponent < 1023 then false
  else mantissa % 2 ^ (1075 - exponent) = 0

/-- The double of a positive integer that has at most 53 significant
bits. -/
def ofNatExact (n : Nat) : Option F64 :=
  if n = 0 then some ⟨0⟩
  else
    let e := Nat.log2 n
    let scaled := n * 2 ^ 52 / 2 ^ e
    if scaled * 2 ^ e = n * 2 ^ 52 ∧ e < 1024 then
      some ⟨UInt64.ofNat ((e + 1023) * 2 ^ 52 + (scaled - 2 ^ 52))⟩
    else none

/-- The double that is equal to an integer, if there is one. -/
def ofIntExact (i : Int) : Option F64 :=
  if 0 ≤ i then ofNatExact i.toNat
  else (ofNatExact i.natAbs).map fun x =>
    ⟨UInt64.ofNat (x.bits.toNat + 2 ^ 63)⟩

/-- The bits of an exact positive integer are those of a finite number. -/
theorem ofNatExact_lt {n : Nat} {x : F64} (h : ofNatExact n = some x) :
    x.bits.toNat < infinity := by
  unfold ofNatExact at h
  split at h
  · cases h
    exact Nat.mul_pos (by omega) (Nat.two_pow_pos _)
  · rename_i hn
    dsimp only at h
    split at h
    · rename_i hexact
      rw [← Option.some.inj h]
      have hlog : n < 2 ^ (n.log2 + 1) := (Nat.log2_lt hn).1 (by omega)
      have hscaled : n * 2 ^ 52 / 2 ^ n.log2 < 2 ^ 53 := by
        rw [Nat.div_lt_iff_lt_mul (Nat.two_pow_pos _)]
        calc n * 2 ^ 52 < 2 ^ (n.log2 + 1) * 2 ^ 52 :=
              Nat.mul_lt_mul_of_pos_right hlog (by decide)
          _ = 2 ^ 53 * 2 ^ n.log2 := by
              rw [Nat.pow_succ]
              omega
      show (UInt64.ofNat _).toNat < infinity
      rw [UInt64.toNat_ofNat']
      refine Nat.lt_of_le_of_lt (Nat.mod_le _ _) ?_
      have hroom : (n.log2 + 1023) * 2 ^ 52 ≤ 2046 * 2 ^ 52 :=
        Nat.mul_le_mul_right _ (by omega)
      unfold infinity
      omega
    · cases h

theorem ofIntExact_isFinite {i : Int} {x : F64}
    (h : ofIntExact i = some x) : x.isFinite = true := by
  have hsmall : infinity < 2 ^ 63 := by
    unfold infinity
    omega
  unfold ofIntExact at h
  unfold isFinite magnitude
  rw [decide_eq_true_eq]
  split at h
  · have hlt := ofNatExact_lt h
    exact Nat.lt_of_le_of_lt (Nat.mod_le _ _) hlt
  · obtain ⟨y, hy, rfl⟩ := Option.map_eq_some_iff.1 h
    have hlt := ofNatExact_lt hy
    rw [UInt64.toNat_ofNat']
    omega

end F64

/-- The text forms of doubles: `to_string`, what a JSON writer prints, and
`str::parse`. -/
class F64Text where
  display : F64 → String
  json : F64 → String
  parse : String → Option F64

end Tasty

-- ==== rounding

namespace Tasty.F64

/-- `a == b`, false when one is not a number. -/
def eq (a b : F64) : Bool := !a.isNan && !b.isNan && a.key = b.key

/-- `n / 2 ^ s`, rounded to the nearest, and half to even. -/
def roundShift (n s : Nat) : Nat :=
  let quotient := n / 2 ^ s
  let rest := n % 2 ^ s
  if 2 ^ s < 2 * rest ∨ (2 * rest = 2 ^ s ∧ quotient % 2 = 1) then
    quotient + 1
  else quotient

/-- The 53 bits of the double nearest to a positive integer, at the place
of its highest bit; a carry leads to the next place. -/
def significand (n : Nat) : Nat :=
  let e := Nat.log2 n
  if e ≤ 52 then n * 2 ^ (52 - e) else roundShift n (e - 52)

/-- The double nearest to a positive integer below `2 ^ 64`. -/
def ofNatRounded (n : Nat) : F64 :=
  if n = 0 then ⟨0⟩
  else ⟨UInt64.ofNat
    ((Nat.log2 n + 1023) * 2 ^ 52 + (significand n - 2 ^ 52))⟩

/-- `i as f64`, for an integer of 64 bits. -/
def ofIntRounded (i : Int) : F64 :=
  if 0 ≤ i then ofNatRounded i.toNat
  else ⟨UInt64.ofNat ((ofNatRounded i.natAbs).bits.toNat + 2 ^ 63)⟩

/-- The integer that a whole number is. -/
def wholeValue (x : F64) : Int :=
  let exponent := x.magnitude / 2 ^ 52
  let mantissa := 2 ^ 52 + x.magnitude % 2 ^ 52
  let n : Nat :=
    if exponent = 0 then 0
    else if 1075 ≤ exponent then mantissa * 2 ^ (exponent - 1075)
    else mantissa / 2 ^ (1075 - exponent)
  if x.negative then -(n : Int) else n

-- ==== equality

section Equality

variable {a b c : F64}

theorem isNan_of_isFinite (h : a.isFinite = true) : a.isNan = false := by
  unfold isFinite at h
  unfold isNan
  simp only [decide_eq_true_eq, decide_eq_false_iff_not] at *
  omega

theorem eq_iff : a.eq b = true
    ↔ a.isNan = false ∧ b.isNan = false ∧ a.key = b.key := by
  unfold eq
  simp [and_assoc]

theorem eq_refl (h : a.isNan = false) : a.eq a = true := eq_iff.2 ⟨h, h, rfl⟩

theorem eq_symm (h : a.eq b = true) : b.eq a = true := by
  obtain ⟨ha, hb, hkey⟩ := eq_iff.1 h
  exact eq_iff.2 ⟨hb, ha, hkey.symm⟩

theorem eq_trans (h : a.eq b = true) (h' : b.eq c = true) : a.eq c = true := by
  obtain ⟨ha, _, hab⟩ := eq_iff.1 h
  obtain ⟨_, hc, hbc⟩ := eq_iff.1 h'
  exact eq_iff.2 ⟨ha, hc, hab.trans hbc⟩

/-- Equal numbers are equally far from zero. -/
theorem magnitude_of_key (h : a.key = b.key) : a.magnitude = b.magnitude := by
  unfold key at h
  split at h <;> split at h <;> omega

theorem isWhole_of_magnitude (h : a.magnitude = b.magnitude) :
    a.isWhole = b.isWhole := by
  unfold isWhole
  rw [h]

end Equality

-- ==== rounding

theorem significand_bounds {n : Nat} (hn : n ≠ 0) :
    2 ^ 52 ≤ significand n ∧ significand n ≤ 2 ^ 53 := by
  have hlow : 2 ^ n.log2 ≤ n := Nat.log2_self_le hn
  have hhigh : n < 2 ^ (n.log2 + 1) := Nat.lt_log2_self
  unfold significand
  dsimp only
  split
  · rename_i he
    have hsplit : 2 ^ n.log2 * 2 ^ (52 - n.log2) = 2 ^ 52 := by
      rw [← Nat.pow_add]
      congr 1
      omega
    constructor
    · rw [← hsplit]
      exact Nat.mul_le_mul_right _ hlow
    · calc n * 2 ^ (52 - n.log2)
          ≤ 2 ^ (n.log2 + 1) * 2 ^ (52 - n.log2) :=
            Nat.mul_le_mul_right _ hhigh.le
        _ = 2 ^ 53 := by
            rw [Nat.pow_succ, Nat.mul_right_comm, hsplit, ← Nat.pow_succ]
  · rename_i he
    have hsplit : 2 ^ 52 * 2 ^ (n.log2 - 52) = 2 ^ n.log2 := by
      rw [← Nat.pow_add]
      congr 1
      omega
    have hpos : 0 < 2 ^ (n.log2 - 52) := Nat.two_pow_pos _
    have hleast : 2 ^ 52 ≤ n / 2 ^ (n.log2 - 52) := by
      rw [Nat.le_div_iff_mul_le hpos, hsplit]
      exact hlow
    have hmost : n / 2 ^ (n.log2 - 52) < 2 ^ 53 := by
      rw [Nat.div_lt_iff_lt_mul hpos]
      calc n < 2 ^ (n.log2 + 1) := hhigh
        _ = 2 ^ 53 * 2 ^ (n.log2 - 52) := by
            rw [Nat.pow_succ, ← hsplit]
            omega
    unfold roundShift
    dsimp only
    split <;> omega

theorem bits_ofNatRounded {n : Nat} (hn : n ≠ 0) (hlt : n < 2 ^ 64) :
    (ofNatRounded n).bits.toNat
      = (n.log2 + 1023) * 2 ^ 52 + (significand n - 2 ^ 52) := by
  have hlog : n.log2 < 64 := (Nat.log2_lt hn).2 hlt
  obtain ⟨hlow, hhigh⟩ := significand_bounds hn
  unfold ofNatRounded
  rw [if_neg hn]
  show (UInt64.ofNat _).toNat = _
  rw [UInt64.toNat_ofNat']
  apply Nat.mod_eq_of_lt
  have hroom : (n.log2 + 1023) * 2 ^ 52 ≤ 1086 * 2 ^ 52 :=
    Nat.mul_le_mul_right _ (by omega)
  omega

/-- The double nearest to an integer is whole. -/
theorem ofNatRounded_isWhole {n : Nat} (hlt : n < 2 ^ 64) :
    (ofNatRounded n).isWhole = true
      ∧ (ofNatRounded n).magnitude ≤ 1087 * 2 ^ 52 := by
  by_cases hn : n = 0
  · have hzero : (ofNatRounded n).magnitude = 0 := by
      rw [hn, show ofNatRounded 0 = ⟨0⟩ from if_pos rfl]
      exact Nat.zero_mod _
    refine ⟨if_pos (.inl hzero), ?_⟩
    rw [hzero]
    exact Nat.zero_le _
  · have hlog : n.log2 < 64 := (Nat.log2_lt hn).2 hlt
    obtain ⟨hlow, hhigh⟩ := significand_bounds hn
    have hroom : (n.log2 + 1023) * 2 ^ 52 ≤ 1086 * 2 ^ 52 :=
      Nat.mul_le_mul_right _ (by omega)
    have hmag : (ofNatRounded n).magnitude
        = (n.log2 + 1023) * 2 ^ 52 + (significand n - 2 ^ 52) := by
      unfold magnitude
      rw [bits_ofNatRounded hn hlt]
      apply Nat.mod_eq_of_lt
      omega
    refine ⟨?_, by omega⟩
    by_cases hlarge : 52 ≤ n.log2
    · -- the exponent alone makes it whole
      have hexp : 1075 ≤ (ofNatRounded n).magnitude / 2 ^ 52 := by
        have hfloor : 1075 * 2 ^ 52 ≤ (n.log2 + 1023) * 2 ^ 52 :=
          Nat.mul_le_mul_right _ (Nat.add_le_add_right hlarge 1023)
        rw [hmag, Nat.le_div_iff_mul_le (Nat.two_pow_pos _)]
        exact Nat.le_trans hfloor (Nat.le_add_right _ _)
      exact if_pos (.inr hexp)
    · -- an integer of few bits is its own significand, shifted
      have hsig : significand n = n * 2 ^ (52 - n.log2) :=
        if_pos (by omega)
      have hsplit : 2 ^ n.log2 * 2 ^ (52 - n.log2) = 2 ^ 52 := by
        rw [← Nat.pow_add]
        congr 1
        omega
      have hcarry : n * 2 ^ (52 - n.log2) < 2 ^ 53 := by
        calc n * 2 ^ (52 - n.log2)
            < 2 ^ (n.log2 + 1) * 2 ^ (52 - n.log2) :=
              Nat.mul_lt_mul_of_pos_right Nat.lt_log2_self
                (Nat.two_pow_pos _)
          _ = 2 ^ 53 := by
              rw [Nat.pow_succ, Nat.mul_right_comm, hsplit, ← Nat.pow_succ]
      have hdiv : (ofNatRounded n).magnitude / 2 ^ 52 = n.log2 + 1023 := by
        rw [hmag, hsig]
        omega
      have hrest : (ofNatRounded n).magnitude % 2 ^ 52
          = (n - 2 ^ n.log2) * 2 ^ (52 - n.log2) := by
        rw [hmag, hsig, Nat.sub_mul, hsplit]
        omega
      unfold isWhole
      dsimp only
      rw [hdiv, hrest, if_neg (by omega), if_neg (by omega),
        show 1075 - (n.log2 + 1023) = 52 - n.log2 by omega,
        Nat.mul_mod_left]
      rfl

/-- The double nearest to an integer of 64 bits is whole, and far below
the largest doubles. -/
theorem ofIntRounded_isWhole {i : Int} (hi : i.natAbs < 2 ^ 64) :
    (ofIntRounded i).isWhole = true
      ∧ (ofIntRounded i).magnitude ≤ 1087 * 2 ^ 52 := by
  unfold ofIntRounded
  split
  · exact ofNatRounded_isWhole (by omega)
  · obtain ⟨hwhole, hsmall⟩ := ofNatRounded_isWhole hi
    have hn : i.natAbs ≠ 0 := by omega
    have hsame : (⟨UInt64.ofNat
        ((ofNatRounded i.natAbs).bits.toNat + 2 ^ 63)⟩ : F64).magnitude
        = (ofNatRounded i.natAbs).magnitude := by
      unfold magnitude
      show (UInt64.ofNat _).toNat % 2 ^ 63 = _
      rw [UInt64.toNat_ofNat']
      omega
    rw [isWhole_of_magnitude hsame, hsame]
    exact ⟨hwhole, hsmall⟩

end Tasty.F64
