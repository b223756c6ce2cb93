/-
The numbers of documents as doubles and as integers, and the equality of
`crates/tasty-agent/src/reducer.rs` that compares their values: as
integers or as doubles, and never one of each kind.
-/
import Tasty.Agent.Value

namespace Tasty.Agent

namespace Number

/-- `as_f64`. -/
def asF64 : Number → F64
  | posInt n => .ofNatRounded n.toNat
  | negInt n => .ofIntRounded n.toInt
  | float f => f

/-- `1.7e38`, as its bits. -/
def i128Bound : Nat := 5179132097285906349

/-- The integer that a number is exactly: integer tokens, and whole
doubles that an `i128` holds. -/
def exact : Number → Option Int
  | posInt n => some n.toNat
  | negInt n => some n.toInt
  | float f =>
    if f.isWhole ∧ f.magnitude < i128Bound then some f.wholeValue
    else none

/-- `number_equal`. -/
def equal (a b : Number) : Bool :=
  match a.exact, b.exact with
  | some x, some y => x = y
  | _, _ => a.asF64.eq b.asF64

/-- A double in a document is a finite one. -/
def Finite : Number → Prop
  | float f => f.isFinite
  | _ => True

-- ==== an equivalence

variable {a b c : Number}

theorem exact_isSome (n : Number) : n.exact.isSome = true
    ↔ n.asF64.isWhole = true ∧ n.asF64.magnitude < i128Bound := by
  have hroom : 1087 * 2 ^ 52 < i128Bound := by decide
  cases n with
  | posInt n =>
    obtain ⟨hwhole, hsmall⟩ := F64.ofNatRounded_isWhole n.toNat_lt
    exact ⟨fun _ => ⟨hwhole, hsmall.trans_lt hroom⟩, fun _ => rfl⟩
  | negInt n =>
    have hn : n.toInt.natAbs < 2 ^ 64 := by
      have := n.toInt_lt
      have := n.le_toInt
      omega
    obtain ⟨hwhole, hsmall⟩ := F64.ofIntRounded_isWhole hn
    exact ⟨fun _ => ⟨hwhole, hsmall.trans_lt hroom⟩, fun _ => rfl⟩
  | float f =>
    show (if f.isWhole ∧ f.magnitude < i128Bound then some f.wholeValue
      else none).isSome = true ↔ _
    split
    · rename_i h
      exact ⟨fun _ => h, fun _ => rfl⟩
    · rename_i h
      exact ⟨fun hsome => (Bool.false_ne_true hsome).elim,
        fun hwhole => (h hwhole).elim⟩

/-- Equal doubles are both integers or neither. -/
theorem exact_isSome_of_eq (h : a.asF64.eq b.asF64 = true) :
    a.exact.isSome = b.exact.isSome := by
  obtain ⟨-, -, hkey⟩ := F64.eq_iff.1 h
  have hmag := F64.magnitude_of_key hkey
  rw [Bool.eq_iff_iff, exact_isSome, exact_isSome, hmag,
    F64.isWhole_of_magnitude hmag]

/-- Both are one integer, or neither is an integer and their doubles are
equal. -/
theorem equal_iff : a.equal b = true
    ↔ (∃ x, a.exact = some x ∧ b.exact = some x)
      ∨ (a.exact = none ∧ b.exact = none ∧ a.asF64.eq b.asF64 = true) := by
  unfold equal
  cases ha : a.exact with
  | some x =>
    cases hb : b.exact with
    | some y =>
      refine ⟨fun h => .inl ⟨x, rfl, ?_⟩, ?_⟩
      · rw [of_decide_eq_true h]
      · rintro (⟨z, hz, hz'⟩ | ⟨hnone, _⟩)
        · exact decide_eq_true
            (Option.some.inj (hz.trans hz'.symm))
        · cases hnone
    | none =>
      have hdiff (h : a.asF64.eq b.asF64 = true) : False := by
        have := exact_isSome_of_eq h
        rw [ha, hb] at this
        cases this
      simpa using hdiff
  | none =>
    cases hb : b.exact with
    | some y =>
      have hdiff (h : a.asF64.eq b.asF64 = true) : False := by
        have := exact_isSome_of_eq h
        rw [ha, hb] at this
        cases this
      simpa using hdiff
    | none => simp

theorem equal_refl (h : a.Finite) : a.equal a = true := by
  rw [equal_iff]
  cases ha : a.exact with
  | some x => exact .inl ⟨x, rfl, rfl⟩
  | none =>
    cases a with
    | posInt n => cases ha
    | negInt n => cases ha
    | float f =>
      exact .inr ⟨rfl, rfl, F64.eq_refl (F64.isNan_of_isFinite h)⟩

theorem equal_symm (h : a.equal b = true) : b.equal a = true := by
  rw [equal_iff] at h ⊢
  rcases h with ⟨x, ha, hb⟩ | ⟨ha, hb, heq⟩
  · exact .inl ⟨x, hb, ha⟩
  · exact .inr ⟨hb, ha, F64.eq_symm heq⟩

theorem equal_trans (h : a.equal b = true) (h' : b.equal c = true) :
    a.equal c = true := by
  rw [equal_iff] at h h' ⊢
  rcases h with ⟨x, ha, hb⟩ | ⟨ha, hb, heq⟩
  · rcases h' with ⟨y, hb', hc⟩ | ⟨hb', _, _⟩
    · obtain rfl : x = y := Option.some.inj (hb.symm.trans hb')
      exact .inl ⟨x, ha, hc⟩
    · rw [hb] at hb'
      cases hb'
  · rcases h' with ⟨y, hb', _⟩ | ⟨_, hc, heq'⟩
    · rw [hb] at hb'
      cases hb'
    · exact .inr ⟨ha, hc, F64.eq_trans heq heq'⟩

end Number

end Tasty.Agent
