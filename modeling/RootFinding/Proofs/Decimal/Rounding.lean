import RootFinding.Proofs.Binary64.Bits
import RootFinding.Proofs.Binary64.Scientific
import RootFinding.Proofs.Decimal.Shortest
import RootFinding.Json.Conversion

namespace RootFinding

open Float.Model Float.Model.UnpackedFloat Binary64

namespace Decimal

def signFor (negative : Bool) : Sign := if negative then .negative else .positive

variable {v : Float} {s : Sign} {m : Nat} {e : ℤ} {pos : 0 < m}

/-- Whatever its size, a decimal is correctly rounded. -/
theorem correct_toFloat (negative : Bool) (digits : Nat) (exponent : Int) :
    Correct (signFor negative) (digits * 10 ^ exponent)
      (decoded (toFloat negative digits exponent)) := by
  have magnitude : Correct .positive (digits * 10 ^ exponent)
      (decoded (toFloat false digits exponent)) := by
    simp only [toFloat, Bool.false_eq_true, if_false]
    split
    · rename_i none
      rw [beq_iff_eq.mp none, Nat.cast_zero, zero_mul]
      exact .zero (by positivity)
    rename_i some'
    have pos : 0 < digits := Nat.pos_of_ne_zero fun zero => some' (beq_iff_eq.mpr zero)
    split
    · exact .infinity (limit_le_decimal pos (by omega))
    split
    · rename_i tiny
      rw [Bool.and_eq_true, decide_eq_true_eq, decide_eq_true_eq] at tiny
      exact .zero (decimal_le_unit (by omega))
    · exact correct_literal pos exponent
  cases negative with
  | false => exact magnitude
  | true => exact magnitude.neg

theorem toFloat_eq_iff {negative : Bool} {digits : Nat} {exponent : Int} :
    toFloat negative digits exponent = v ↔
      Correct (signFor negative) (digits * 10 ^ exponent) (decoded v) := by
  have correct := correct_toFloat negative digits exponent
  constructor
  · rintro rfl
    exact correct
  · exact fun same => decoded_injective (correct.unique same)

theorem toFloat_of_within (known : decoded v = .finite s m e pos) {d : Scaled}
    (within : Within m e d.value) : toFloat (s == .negative) d.digits d.exponent = v := by
  have sign : signFor (s == .negative) = s := by cases s <;> rfl
  rw [toFloat_eq_iff, sign, known]
  exact .finite pos (decoded_canonical known) within

theorem floatOfInt_eq_ok {i : Int} :
    floatOfInt i = .ok v ↔
      (i.natAbs : ℚ) < limit ∧ Correct (signFor (i < 0)) i.natAbs (decoded v) := by
  have whole : (i.natAbs : ℚ) = i.natAbs * 10 ^ (0 : ℤ) := by rw [zpow_zero, mul_one]
  have correct := correct_toFloat (i < 0) i.natAbs 0
  have isInf : (toFloat (i < 0) i.natAbs 0).isInf ↔ limit ≤ (i.natAbs : ℚ) := by
    rw [whole]
    exact correct.isInf_iff
  rw [floatOfInt]
  split
  · rename_i large
    exact ⟨nofun, fun fits => absurd fits.1 (isInf.mp large).not_gt⟩
  · rename_i fits
    rw [Except.ok.injEq, toFloat_eq_iff, ← whole]
    exact (and_iff_right (not_le.mp fun large => fits (isInf.mpr large))).symm

def truncated (q : ℚ) : Int := if q < 0 then ⌈q⌉ else ⌊q⌋

theorem floor_ofFloat (known : decoded v = .finite s m e pos) :
    ((Binary.ofFloat v).floor : ℤ) = ⌊(m : ℚ) * 2 ^ e⌋ := by
  have quotient :
      (m : ℚ) * 2 ^ e = ((m * 2 ^ e.toNat : Nat) : ℚ) / ((2 ^ (-e).toNat : Nat) : ℚ) := by
    have positive : (0 : ℚ) < 2 ^ (-e).toNat := by positivity
    push_cast
    rw [eq_div_iff positive.ne', mul_assoc, zpow_mul_toNat two_ne_zero]
  rw [(ofFloat_eq known).1, quotient, ← Int.natCast_floor_eq_floor (by positivity),
    Nat.floor_div_eq_div]
  simp only [Binary.floor, Binary.ratio, Nat.pow_eq, Int.toNat_zero, neg_zero, pow_zero, mul_one]

theorem truncated_value (s : Sign) (pos : 0 < m) :
    truncated (value (.finite s m e pos)) = s.apply ⌊(m : ℚ) * 2 ^ e⌋ := by
  have positive : (0 : ℚ) < m * 2 ^ e := by positivity
  cases s with
  | negative =>
    simp only [value, Sign.apply, Int.cast_neg, Int.cast_natCast, neg_mul, truncated,
      neg_lt_zero, positive, if_true, Int.ceil_neg]
  | positive =>
    simp only [value, Sign.apply, Int.cast_natCast, truncated, positive.not_gt, if_false]

theorem truncate_eq_ok {i : Int} :
    truncate v = .ok i ↔ v.isFinite ∧ i = truncated (toRat v) := by
  have classes : v.isNaN = (decoded v).isNaN ∧ v.isInf = (decoded v).isInf ∧
      v.isFinite = (decoded v).isFinite := ⟨rfl, rfl, rfl⟩
  rw [truncate, classes.1, classes.2.1, classes.2.2, toRat]
  cases known : decoded v with
  | notANumber | infinity s => exact ⟨nofun, fun both => nomatch both.1⟩
  | zero s =>
    have none : (Binary.ofFloat v).floor = 0 := by
      cases s with
      | negative =>
        obtain rfl : v = -0.0 := decoded_injective known
        decide +kernel
      | positive =>
        obtain rfl : v = 0.0 := decoded_injective known
        decide +kernel
    have value' : truncated (value (.zero s)) = 0 := Int.floor_zero
    change Except.ok (if isNegative v then -((Binary.ofFloat v).floor : Int) else
      (Binary.ofFloat v).floor) = Except.ok i ↔ _
    rw [none, value', Nat.cast_zero, neg_zero, ite_self, Except.ok.injEq]
    exact ⟨fun same => ⟨rfl, same.symm⟩, fun both => both.2.symm⟩
  | finite s m e pos =>
    change Except.ok (if isNegative v then -((Binary.ofFloat v).floor : Int) else
      (Binary.ofFloat v).floor) = Except.ok i ↔ _
    have signed : (if isNegative v then -⌊(m : ℚ) * 2 ^ e⌋ else ⌊(m : ℚ) * 2 ^ e⌋) =
        s.apply ⌊(m : ℚ) * 2 ^ e⌋ := by
      rw [(ofFloat_eq known).2]
      cases s <;> rfl
    rw [floor_ofFloat known, signed, truncated_value s pos, Except.ok.injEq]
    exact ⟨fun same => ⟨rfl, same.symm⟩, fun both => both.2.symm⟩

end Decimal

end RootFinding
