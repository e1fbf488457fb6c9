import RootFinding.Proofs.Exact.Coordinates

namespace RootFinding.Exact

open Finset

variable {m n : Nat}

/-- The Jacobian for unknowns that are multiplied by these factors: its columns are as well. -/
def rescaled (units : Vec ℝ n) (jac : Mat ℝ m n) : Mat ℝ m n := jac.map (scaled units)

def rescaledWeights (units d : Vec ℝ n) : Vec ℝ n := scaled (units.map (|·|)) d

variable (units : Vec ℝ n) (jac : Mat ℝ m n)

theorem rescaled_get (i : Fin m) : (rescaled units jac).get i = scaled units (jac.get i) :=
  map_get _ jac i

theorem rescaledWeights_get (d : Vec ℝ n) (j : Fin n) :
    (rescaledWeights units d).get j = |units.get j| * d.get j := by
  rw [rescaledWeights, scaled_get, map_get]

theorem dot_scaled (u v : Vec ℝ n) : (scaled units u).dot v = u.dot (scaled units v) := by
  rw [dot_eq, dot_eq]
  refine sum_congr rfl fun j _ => ?_
  rw [scaled_get, scaled_get]
  ring

theorem rescaled_column (j : Fin n) :
    (rescaled units jac).column j = Vec.scale (units.get j) (jac.column j) := by
  refine ext_get fun i => ?_
  rw [column_get, rescaled_get, scaled_get, scale_get, column_get]

theorem norm_rescaled_column (j : Fin n) :
    ((rescaled units jac).column j).norm = |units.get j| * (jac.column j).norm := by
  rw [rescaled_column, Vec.norm, dot_scale_self]
  change Real.sqrt _ = |units.get j| * Real.sqrt _
  rw [Real.sqrt_mul (mul_self_nonneg _), Real.sqrt_mul_self_eq_abs]

theorem weightedDot_rescaled (d u v : Vec ℝ n) :
    weightedDot (rescaledWeights units d) u v =
      weightedDot d (scaled units u) (scaled units v) := by
  rw [weightedDot_eq, weightedDot_eq, dot_eq, dot_eq]
  refine sum_congr rfl fun j _ => ?_
  simp only [scaled_get, rescaledWeights_get]
  have square := abs_mul_abs_self (units.get j)
  linear_combination d.get j * d.get j * u.get j * v.get j * square

theorem updateScaling_rescaled (d : Vec ℝ n) (decay : ℝ) :
    updateScaling (rescaledWeights units d) (rescaled units jac) decay =
      rescaledWeights units (updateScaling d jac decay) := by
  refine ext_get fun j => ?_
  rw [rescaledWeights_get, updateScaling_get, updateScaling_get, norm_rescaled_column,
    rescaledWeights_get, mul_max_of_nonneg _ _ (abs_nonneg _), mul_left_comm]

variable {units} (nonzero : ∀ j, units.get j ≠ 0)
include nonzero

theorem scaled_bijective : Function.Bijective (scaled units) := by
  constructor
  · intro u v same
    refine ext_get fun j => ?_
    have entry := congrArg (·.get j) same
    simp only [scaled_get] at entry
    exact mul_left_cancel₀ (nonzero j) entry
  · intro v
    refine ⟨Vector.zipWith (· / ·) v units, ext_get fun j => ?_⟩
    rw [scaled_get, zipWith_get, mul_div_cancel₀ _ (nonzero j)]

def Coordinates.inUnits : Coordinates m n :=
  .ofUnknowns (scaled units) (scaled units) (scaled_bijective nonzero) (scaled_add units)
    (fun a v => scaled_scale units v a) (dot_scaled units)

theorem scaledGradient_rescaled (fx : Vec ℝ m) (d : Vec ℝ n) :
    scaled units (scaledGradient (rescaled units jac) fx (rescaledWeights units d)) =
      scaledGradient jac fx d := by
  refine ext_get fun j => ?_
  have gradient := (Coordinates.inUnits nonzero).tmulVec_residual jac fx
  change (rescaled units jac).tmulVec fx = scaled units (jac.tmulVec fx) at gradient
  rw [scaled_get, scaledGradient_get, scaledGradient_get, gradient, scaled_get,
    rescaledWeights_get, mul_mul_mul_comm, abs_mul_abs_self, ← mul_div_assoc, ← mul_assoc,
    mul_div_mul_left _ _ (mul_ne_zero (nonzero j) (nonzero j))]

theorem weighs_rescaledWeights (d : Vec ℝ n) :
    (Coordinates.inUnits (m := m) nonzero).Weighs d (rescaledWeights units d) :=
  ⟨weightedDot_rescaled units d, fun jac fx => scaledGradient_rescaled jac nonzero fx d⟩

theorem initialScaling_rescaled (columns : ∀ j, jac.column j ≠ 0) :
    initialScaling (rescaled units jac) = rescaledWeights units (initialScaling jac) := by
  refine ext_get fun j => ?_
  have length := norm_column_ne_zero (columns j)
  have rescaledLength : ((rescaled units jac).column j).norm ≠ 0 := by
    rw [norm_rescaled_column]
    exact mul_ne_zero (abs_ne_zero.mpr (nonzero j)) length
  rw [rescaledWeights_get, initialScaling_get, if_neg rescaledLength, initialScaling_get,
    if_neg length, norm_rescaled_column]

end RootFinding.Exact
