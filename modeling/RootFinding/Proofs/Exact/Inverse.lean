import RootFinding.Proofs.Exact.Decrease

namespace RootFinding.Exact

open Finset

variable {n : Nat} {a : Mat ℝ n n}

def toMatrix (a : Mat ℝ n n) : Matrix (Fin n) (Fin n) ℝ := fun i j => (a.get i).get j

theorem toMatrix_mulVec (a : Mat ℝ n n) (v : Vec ℝ n) :
    (toMatrix a).mulVec v.get = (a.mulVec v).get := by
  funext i
  rw [mulVec_get, dot_eq]
  rfl

theorem get_ofFn {γ : Type} (f : Fin n → γ) : (Vector.ofFn f).get = f := by
  funext i
  exact Vector.getElem_ofFn i.isLt

theorem regular_iff_isUnit : Regular a ↔ IsUnit (toMatrix a) := by
  rw [← Matrix.mulVec_injective_iff_isUnit]
  constructor
  · intro regular
    refine (injective_iff_map_eq_zero (toMatrix a).mulVecLin).mpr fun f maps => ?_
    have zero : Vector.ofFn f = 0 := by
      refine regular _ (ext_get fun i => ?_)
      rw [← toMatrix_mulVec, get_ofFn, zero_get]
      exact congrFun maps i
    funext i
    rw [← get_ofFn f, zero, zero_get]
    rfl
  · intro injective v zero
    have same : (toMatrix a).mulVec v.get = (toMatrix a).mulVec 0 := by
      rw [toMatrix_mulVec, zero, Matrix.mulVec_zero]
      exact funext zero_get
    refine ext_get fun i => ?_
    rw [injective same, zero_get]
    rfl

theorem regular_iff_det : Regular a ↔ (toMatrix a).det ≠ 0 := by
  rw [regular_iff_isUnit, Matrix.isUnit_iff_isUnit_det, isUnit_iff_ne_zero]

theorem Regular.isUnit_det (regular : Regular a) : IsUnit (toMatrix a).det :=
  isUnit_iff_ne_zero.mpr (regular_iff_det.mp regular)

theorem Regular.inverse_mulVec (regular : Regular a) (v : Vec ℝ n) :
    (toMatrix a)⁻¹.mulVec (a.mulVec v).get = v.get := by
  rw [← toMatrix_mulVec, Matrix.mulVec_mulVec, Matrix.nonsing_inv_mul _ regular.isUnit_det,
    Matrix.one_mulVec]

theorem Regular.solvable (regular : Regular a) (w : Vec ℝ n) : ∃ v, a.mulVec v = w := by
  refine ⟨Vector.ofFn ((toMatrix a)⁻¹.mulVec w.get), ext_get fun i => ?_⟩
  rw [← toMatrix_mulVec, get_ofFn, Matrix.mulVec_mulVec,
    Matrix.mul_nonsing_inv _ regular.isUnit_det, Matrix.one_mulVec]

theorem Regular.weightedDot_le (regular : Regular a) (d : Vec ℝ n) :
    ∃ bound ≥ 0, ∀ v, weightedDot d v v ≤ bound * (a.mulVec v).dot (a.mulVec v) := by
  let inverse := (toMatrix a)⁻¹
  refine ⟨∑ j, d.get j ^ 2 * ∑ i, inverse j i ^ 2,
    sum_nonneg fun j _ => mul_nonneg (sq_nonneg _) (sum_nonneg fun i _ => sq_nonneg _),
    fun v => ?_⟩
  rw [weightedDot_eq, dot_eq, dot_eq, sum_mul]
  refine sum_le_sum fun j _ => ?_
  -- Each entry is the product of a row of the inverse with the image.
  have entry : v.get j = ∑ i, inverse j i * (a.mulVec v).get i :=
    (congrFun (regular.inverse_mulVec v) j).symm
  have shorter := sum_mul_sq_le_sq_mul_sq univ (inverse j) (a.mulVec v).get
  rw [← entry] at shorter
  calc (scaled d v).get j * (scaled d v).get j = d.get j ^ 2 * v.get j ^ 2 := by
        rw [scaled_get]
        ring
    _ ≤ d.get j ^ 2 * ((∑ i, inverse j i ^ 2) * ∑ i, (a.mulVec v).get i ^ 2) :=
        mul_le_mul_of_nonneg_left shorter (sq_nonneg _)
    _ = d.get j ^ 2 * (∑ i, inverse j i ^ 2) *
          ∑ i, (a.mulVec v).get i * (a.mulVec v).get i := by
        simp only [sq]
        ring

theorem ext_single {u v : Vec ℝ 1} (same : u.get 0 = v.get 0) : u = v :=
  ext_get fun i => Subsingleton.elim 0 i ▸ same

theorem mulVec_single (c v : ℝ) : Mat.mulVec #v[#v[c]] #v[v] = #v[c * v] := by
  refine ext_single ?_
  rw [mulVec_get, dot_eq, Fin.sum_univ_one]
  rfl

theorem norm_single (v : ℝ) : Vec.norm #v[v] = |v| := by
  change Real.sqrt (Vec.dot #v[v] #v[v]) = _
  rw [dot_eq, Fin.sum_univ_one]
  exact Real.sqrt_mul_self_eq_abs v

theorem weightedNorm_single (c v : ℝ) : weightedNorm #v[c] #v[v] = |c * v| := by
  rw [weightedNorm_eq, show scaled #v[c] #v[v] = #v[c * v] from ext_single (scaled_get _ _ 0),
    norm_single]

theorem regular_single {c : ℝ} (nonzero : c ≠ 0) : Regular #v[#v[c]] := by
  intro v zero
  have entry := congrArg (·.get 0) zero
  simp only [mulVec_get, dot_eq, Fin.sum_univ_one, zero_get] at entry
  refine ext_single ?_
  rw [zero_get]
  exact (mul_eq_zero.mp entry).resolve_left nonzero

theorem Regular.column_ne_zero (regular : Regular a) (j : Fin n) : a.column j ≠ 0 := by
  intro zero
  -- The column is the image of a unit vector.
  have unit : Vector.ofFn (Pi.single j (1 : ℝ)) = 0 := by
    refine regular _ (ext_get fun i => ?_)
    have entry := congrArg (·.get i) zero
    simp only [column_get, zero_get] at entry
    rw [← toMatrix_mulVec, get_ofFn, Matrix.mulVec_single_one, zero_get]
    exact entry
  have entry := congrFun (congrArg Vector.get unit) j
  rw [get_ofFn, Pi.single_eq_same, zero_get] at entry
  exact one_ne_zero entry

theorem Regular.tmulVec_eq_zero (regular : Regular a) {w : Vec ℝ n} (zero : a.tmulVec w = 0) :
    w = 0 := by
  obtain ⟨v, rfl⟩ := regular.solvable w
  refine eq_zero_of_dot_self ?_
  rw [dot_mulVec, zero, dot_comm, dot_zero_right]

theorem Regular.gaussNewtonStep (regular : Regular a) (fx : Vec ℝ n) :
    ∃ p, RootFinding.gaussNewtonStep a fx = some p ∧ a.mulVec p = -fx := by
  obtain ⟨p, solves⟩ := regular.solvable (-fx)
  exact ⟨p, gaussNewtonStep_eq_some.mpr ⟨regular, solves⟩, solves⟩

/-- Where the residual is not zero there is a gradient, and the linear model predicts a decrease for
every step, in any weights. -/
theorem Regular.predicted_lt (regular : Regular a) {fx d : Vec ℝ n} {delta : ℝ}
    (weights : ∀ j, 0 < d.get j) (positive : 0 < delta) (nonzero : fx ≠ 0) :
    predicted a fx (doglegStep a fx d delta).p < fx.dot fx := by
  have gradient : a.tmulVec fx ≠ 0 := fun level => nonzero (regular.tmulVec_eq_zero level)
  exact predicted_doglegPath_lt positive (gaussNewtonStep_solves a fx)
    (slope_pos weights gradient)

end RootFinding.Exact
