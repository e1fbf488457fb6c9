import RootFinding.Proofs.Exact.Vec

namespace RootFinding.Exact

open Finset

variable {m n : Nat}

def scaled (d v : Vec ℝ n) : Vec ℝ n := Vector.zipWith (· * ·) d v

theorem scaled_get (d v : Vec ℝ n) (i : Fin n) : (scaled d v).get i = d.get i * v.get i :=
  zipWith_get _ d v i

theorem scaled_add (d u v : Vec ℝ n) : scaled d (u + v) = scaled d u + scaled d v := by
  refine ext_get fun i => ?_
  rw [add_get, scaled_get, scaled_get, scaled_get, add_get, mul_add]

theorem scaled_scale (d v : Vec ℝ n) (c : ℝ) :
    scaled d (Vec.scale c v) = Vec.scale c (scaled d v) := by
  refine ext_get fun i => ?_
  rw [scaled_get, scale_get, scale_get, scaled_get]
  ring

theorem weightedDot_eq (d u v : Vec ℝ n) : weightedDot d u v = (scaled d u).dot (scaled d v) := by
  rw [weightedDot, sum_eq, dot_eq]
  refine sum_congr rfl fun i _ => ?_
  rw [zipWith_get, zipWith_get, scaled_get, scaled_get]
  ring

theorem weightedNorm_eq (d v : Vec ℝ n) : weightedNorm d v = (scaled d v).norm := by
  rw [weightedNorm, Vec.norm, sum_eq, dot_eq]
  refine congrArg Real.sqrt (sum_congr rfl fun i _ => ?_)
  rw [zipWith_get, scaled_get]

theorem weightedNorm_nonneg (d v : Vec ℝ n) : 0 ≤ weightedNorm d v := Real.sqrt_nonneg _

theorem weightedNorm_sq (d v : Vec ℝ n) :
    weightedNorm d v * weightedNorm d v = weightedDot d v v := by
  rw [weightedNorm_eq, norm_sq, weightedDot_eq]

theorem weightedNorm_zero (d : Vec ℝ n) : weightedNorm d 0 = 0 := by
  have zero : weightedDot d 0 0 = 0 := by
    rw [weightedDot, sum_eq]
    refine sum_eq_zero fun i _ => ?_
    rw [zipWith_get, zero_get, mul_zero]
  rw [← mul_self_eq_zero, weightedNorm_sq, zero]

theorem weightedDot_self_nonneg (d v : Vec ℝ n) : 0 ≤ weightedDot d v v := by
  rw [← weightedNorm_sq]
  exact mul_self_nonneg _

theorem weightedDot_self_pos {d v : Vec ℝ n} (nonzero : scaled d v ≠ 0) :
    0 < weightedDot d v v := by
  refine lt_of_le_of_ne (weightedDot_self_nonneg d v) fun zero => nonzero ?_
  exact eq_zero_of_dot_self (by rw [← weightedDot_eq, ← zero])

theorem weightedNorm_le_iff {d v : Vec ℝ n} {delta : ℝ} (nonneg : 0 ≤ delta) :
    weightedNorm d v ≤ delta ↔ weightedDot d v v ≤ delta * delta := by
  rw [← weightedNorm_sq]
  exact mul_self_le_mul_self_iff (weightedNorm_nonneg d v) nonneg

theorem weightedNorm_lt_iff {d v : Vec ℝ n} {delta : ℝ} (nonneg : 0 ≤ delta) :
    weightedNorm d v < delta ↔ weightedDot d v v < delta * delta := by
  rw [← weightedNorm_sq]
  exact mul_self_lt_mul_self_iff (weightedNorm_nonneg d v) nonneg

theorem weightedNorm_scale (d v : Vec ℝ n) (c : ℝ) :
    weightedNorm d (Vec.scale c v) = |c| * weightedNorm d v := by
  rw [weightedNorm_eq, weightedNorm_eq, scaled_scale, Vec.norm, Vec.norm, dot_scale_self]
  change Real.sqrt _ = |c| * Real.sqrt _
  rw [Real.sqrt_mul (mul_self_nonneg c), Real.sqrt_mul_self_eq_abs]

theorem weightedDot_along (d u v : Vec ℝ n) (t : ℝ) :
    weightedDot d (u + Vec.scale t v) (u + Vec.scale t v) =
      weightedDot d v v * (t * t) + 2 * weightedDot d u v * t + weightedDot d u u := by
  simp only [weightedDot_eq, scaled_add, scaled_scale]
  rw [dot_add_self, dot_scale_right, dot_scale_self]
  ring

/-- The columns are no longer than the scaling says, and no entry of it is zero. -/
structure Fits (d : Vec ℝ n) (a : Mat ℝ m n) : Prop where
  positive : ∀ j, 0 < d.get j
  column : ∀ j, (a.column j).norm ≤ d.get j

theorem columnNorms_get (a : Mat ℝ m n) (j : Fin n) :
    (columnNorms a).get j = (a.column j).norm := by
  rw [columnNorms, map_get]
  exact congrArg Vec.norm (Vector.getElem_ofFn j.isLt)

theorem initialScaling_get (a : Mat ℝ m n) (j : Fin n) : (initialScaling a).get j =
    if (a.column j).norm = 0 then 1 else (a.column j).norm := by
  rw [initialScaling, map_get, columnNorms_get]
  exact ite_congr decide_eq_true_eq (fun _ => rfl) fun _ => rfl

theorem updateScaling_get (d : Vec ℝ n) (a : Mat ℝ m n) (decay : ℝ) (j : Fin n) :
    (updateScaling d a decay).get j = max (decay * d.get j) (a.column j).norm := by
  rw [updateScaling, zipWith_get, larger_eq, columnNorms_get]

theorem fits_initialScaling (a : Mat ℝ m n) : Fits (initialScaling a) a := by
  refine ⟨fun j => ?_, fun j => ?_⟩
  · rw [initialScaling_get]
    split
    · exact one_pos
    · rename_i nonzero
      exact lt_of_le_of_ne (norm_nonneg _) (Ne.symm nonzero)
  · rw [initialScaling_get]
    split
    · rename_i zero
      rw [zero]
      exact zero_le_one
    · exact le_refl _

theorem fits_updateScaling {d : Vec ℝ n} (positive : ∀ j, 0 < d.get j) (a : Mat ℝ m n) :
    Fits (updateScaling d a 0.1) a := by
  refine ⟨fun j => ?_, fun j => ?_⟩
  · rw [updateScaling_get]
    have decayed : 0 < 0.1 * d.get j := mul_pos (by norm_num) (positive j)
    exact lt_max_of_lt_left decayed
  · rw [updateScaling_get]
    exact le_max_right _ _

theorem norm_column_ne_zero {a : Mat ℝ m n} {j : Fin n} (nonzero : a.column j ≠ 0) :
    (a.column j).norm ≠ 0 := by
  intro zero
  refine nonzero (eq_zero_of_dot_self ?_)
  rw [← norm_sq, zero, mul_zero]

theorem updateScaling_initialScaling {a : Mat ℝ m n} (columns : ∀ j, a.column j ≠ 0) :
    updateScaling (initialScaling a) a 0.1 = initialScaling a := by
  refine ext_get fun j => ?_
  rw [updateScaling_get, initialScaling_get, if_neg (norm_column_ne_zero (columns j))]
  refine max_eq_right (mul_le_of_le_one_left (norm_nonneg _) ?_)
  norm_num

end RootFinding.Exact
