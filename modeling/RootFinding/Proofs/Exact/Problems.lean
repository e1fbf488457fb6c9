import RootFinding.Proofs.Exact.Vec
import RootFinding.Problem

namespace RootFinding

open Exact

noncomputable instance : Elementary ℝ where
  pi := Real.pi
  exp := Real.exp
  log := Real.log
  sin := Real.sin
  cos := Real.cos
  atan := Real.arctan
  tanh := Real.tanh
  hypot u v := √(u ^ 2 + v ^ 2)
  withSign magnitude sign := if sign < 0 then -|magnitude| else |magnitude|

/-- The first callable yields a map, and the second its derivative at a point: the rows of the
matrix are the directional derivatives of the components. -/
def Callable.IsDerivativeAt {n : Nat} (j f : Callable ℝ) (x : Vec ℝ n) : Prop :=
  ∃ (map : Vec ℝ n → Vec ℝ n) (jac : Mat ℝ n n),
    (∀ (y : Vec ℝ n) separate, f ⟨y.toArray, separate⟩ = .ok (.ofVec (map y))) ∧
      (∀ separate, j ⟨x.toArray, separate⟩ = .ok (.ofMat jac)) ∧
      ∀ (h : Vec ℝ n) i,
        HasDerivAt (fun t => (map (x + Vec.scale t h)).get i) (Vec.dot (jac.get i) h) 0

namespace Problem

section Line

variable {n : Nat}

theorem line_hasDerivAt (x h : Vec ℝ n) (i : Fin n) :
    HasDerivAt (fun t => (x + Vec.scale t h).get i) (h.get i) 0 := by
  simp only [add_get, scale_get]
  exact (((hasDerivAt_id (0 : ℝ)).mul_const (h.get i)).const_add (x.get i)).congr_deriv (one_mul _)

theorem line_zero (x h : Vec ℝ n) : x + Vec.scale 0 h = x := by
  refine ext_get fun i => ?_
  rw [add_get, scale_get, zero_mul, add_zero]

end Line

theorem readme_derivative (x : Vec ℝ 2) : readmeJacobian.IsDerivativeAt readmeResidual x := by
  let map (y : Vec ℝ 2) : Vec ℝ 2 :=
    #v[(y.get 0 + 3.0) * (y.get 1 ^ 3 - 7.0) + 18.0, Real.sin (y.get 1 * Real.exp (y.get 0) - 1)]
  let c := Real.cos (x.get 1 * Real.exp (x.get 0) - 1)
  let jac : Mat ℝ 2 2 := #v[#v[x.get 1 ^ 3 - 7.0, 3.0 * x.get 1 ^ 2 * (x.get 0 + 3.0)],
    #v[c * x.get 1 * Real.exp (x.get 0), c * Real.exp (x.get 0)]]
  refine ⟨map, jac, fun y separate => ?_, fun separate => ?_, fun h i => ?_⟩
  · rw [toArray_eq]
    rfl
  · rw [toArray_eq]
    rfl
  · have u := line_hasDerivAt x h 0
    have v := line_hasDerivAt x h 1
    have seven : (7.0 : ℝ) = 7 := by norm_num
    rw [dot_eq, Fin.sum_univ_two]
    match i with
    | 0 =>
      refine (((u.add_const 3.0).mul ((v.pow 3).sub_const 7.0)).add_const 18.0).congr_deriv ?_
      change _ = (x.get 1 ^ 3 - 7.0) * h.get 0 + 3.0 * x.get 1 ^ 2 * (x.get 0 + 3.0) * h.get 1
      simp only [Pi.pow_apply, line_zero, three_eq, seven]
      push_cast
      ring
    | 1 =>
      refine ((v.mul u.exp).sub_const 1).sin.congr_deriv ?_
      change _ = c * x.get 1 * Real.exp (x.get 0) * h.get 0 + c * Real.exp (x.get 0) * h.get 1
      simp only [Pi.mul_apply, line_zero, c]
      ring

theorem rosenbrock_derivative (x : Vec ℝ 2) :
    rosenbrockJacobian.IsDerivativeAt rosenbrockResidual x := by
  let map (y : Vec ℝ 2) : Vec ℝ 2 := #v[10.0 * (y.get 1 - y.get 0 ^ 2), 1 - y.get 0]
  let jac : Mat ℝ 2 2 := #v[#v[-20.0 * x.get 0, 10.0], #v[-1, 0]]
  refine ⟨map, jac, fun y separate => ?_, fun separate => ?_, fun h i => ?_⟩
  · rw [toArray_eq]
    rfl
  · rw [toArray_eq]
    rfl
  · have u := line_hasDerivAt x h 0
    have v := line_hasDerivAt x h 1
    have twenty : (20.0 : ℝ) = 20 := by norm_num
    rw [dot_eq, Fin.sum_univ_two]
    match i with
    | 0 =>
      refine ((v.sub (u.pow 2)).const_mul 10.0).congr_deriv ?_
      change _ = -20.0 * x.get 0 * h.get 0 + 10.0 * h.get 1
      simp only [line_zero, ten_eq, twenty]
      push_cast
      ring
    | 1 =>
      refine (u.const_sub 1).congr_deriv ?_
      change _ = -1 * h.get 0 + 0 * h.get 1
      ring

theorem powellSingular_derivative (x : Vec ℝ 4) :
    powellSingularJacobian.IsDerivativeAt powellSingularResidual x := by
  let map (y : Vec ℝ 4) : Vec ℝ 4 := #v[y.get 0 + 10.0 * y.get 1, √5.0 * (y.get 2 - y.get 3),
    (y.get 1 - 2.0 * y.get 2) ^ 2, √10.0 * (y.get 0 - y.get 3) ^ 2]
  let inner := 2.0 * (x.get 1 - 2.0 * x.get 2)
  let outer := 2.0 * √10.0 * (x.get 0 - x.get 3)
  let jac : Mat ℝ 4 4 := #v[#v[1, 10.0, 0, 0], #v[0, 0, √5.0, -√5.0],
    #v[0, inner, -2.0 * inner, 0], #v[outer, 0, 0, -outer]]
  refine ⟨map, jac, fun y separate => ?_, fun separate => ?_, fun h i => ?_⟩
  · rw [toArray_eq]
    rfl
  · rw [toArray_eq]
    rfl
  · have a := line_hasDerivAt x h 0
    have b := line_hasDerivAt x h 1
    have c := line_hasDerivAt x h 2
    have d := line_hasDerivAt x h 3
    rw [dot_eq, Fin.sum_univ_four]
    match i with
    | 0 =>
      refine (a.add (b.const_mul 10.0)).congr_deriv ?_
      change _ = 1 * h.get 0 + 10.0 * h.get 1 + 0 * h.get 2 + 0 * h.get 3
      rw [one_mul, zero_mul, zero_mul, add_zero, add_zero]
    | 1 =>
      refine ((c.sub d).const_mul √5.0).congr_deriv ?_
      change _ = 0 * h.get 0 + 0 * h.get 1 + √5.0 * h.get 2 + -√5.0 * h.get 3
      rw [zero_mul, zero_mul, zero_add, zero_add, mul_sub, neg_mul, sub_eq_add_neg]
    | 2 =>
      refine ((b.sub (c.const_mul 2.0)).pow 2).congr_deriv ?_
      change _ = 0 * h.get 0 + inner * h.get 1 + -2.0 * inner * h.get 2 + 0 * h.get 3
      simp only [Pi.sub_apply, line_zero, inner, two_eq]
      push_cast
      ring
    | 3 =>
      refine (((a.sub d).pow 2).const_mul √10.0).congr_deriv ?_
      change _ = outer * h.get 0 + 0 * h.get 1 + 0 * h.get 2 + -outer * h.get 3
      simp only [Pi.sub_apply, line_zero, outer, two_eq]
      generalize √10.0 = root
      push_cast
      ring

theorem powellBadlyScaled_derivative (x : Vec ℝ 2) :
    powellBadlyScaledJacobian.IsDerivativeAt powellBadlyScaledResidual x := by
  let map (y : Vec ℝ 2) : Vec ℝ 2 :=
    #v[1e4 * y.get 0 * y.get 1 - 1, Real.exp (-y.get 0) + Real.exp (-y.get 1) - 1.0001]
  let jac : Mat ℝ 2 2 := #v[#v[1e4 * x.get 1, 1e4 * x.get 0],
    #v[-Real.exp (-x.get 0), -Real.exp (-x.get 1)]]
  refine ⟨map, jac, fun y separate => ?_, fun separate => ?_, fun h i => ?_⟩
  · rw [toArray_eq]
    rfl
  · rw [toArray_eq]
    rfl
  · have u := line_hasDerivAt x h 0
    have v := line_hasDerivAt x h 1
    rw [dot_eq, Fin.sum_univ_two]
    match i with
    | 0 =>
      refine (((u.const_mul 1e4).mul v).sub_const 1).congr_deriv ?_
      change _ = 1e4 * x.get 1 * h.get 0 + 1e4 * x.get 0 * h.get 1
      simp only [line_zero]
      generalize (1e4 : ℝ) = factor
      ring
    | 1 =>
      refine ((u.neg.exp.add v.neg.exp).sub_const 1.0001).congr_deriv ?_
      change _ = -Real.exp (-x.get 0) * h.get 0 + -Real.exp (-x.get 1) * h.get 1
      simp only [Pi.neg_apply, line_zero]
      ring

theorem affine_derivative (x : Vec ℝ 3) :
    Callable.IsDerivativeAt (fun _ => .ok (.ofMat affineMatrix)) affineResidual x := by
  refine ⟨fun y => affineMatrix.mulVec y - affineOffset, affineMatrix,
    fun y separate => dif_pos y.size_toArray, fun separate => rfl, fun h i => ?_⟩
  simp only [mulVec_add, mulVec_scale, sub_get, add_get, scale_get]
  rw [← mulVec_get]
  refine ((((hasDerivAt_id (0 : ℝ)).mul_const _).const_add _).sub_const _).congr_deriv ?_
  exact one_mul _

theorem constant_derivative (x : Vec ℝ 1) :
    Callable.IsDerivativeAt (fun _ => .ok (.rows [[0]])) (fun _ => .ok (.row [1])) x := by
  refine ⟨fun _ => #v[1], #v[#v[0]], fun y separate => rfl, fun separate => rfl, fun h i => ?_⟩
  obtain rfl := Subsingleton.elim i 0
  rw [dot_eq, Fin.sum_univ_one]
  exact (hasDerivAt_const (0 : ℝ) (1 : ℝ)).congr_deriv (zero_mul (h.get 0)).symm

section Angle

theorem fullTurn_eq : (fullTurn : ℝ) = 2 * Real.pi := by
  rw [fullTurn, two_eq]
  rfl

theorem turns_of_above {v : ℝ} (above : 0 < v) (u : ℝ) :
    turns u v = 1 / 4 - Real.arctan (u / v) / (2 * Real.pi) := by
  have whole : (2 : ℝ) * Real.pi ≠ 0 := mul_ne_zero two_ne_zero Real.pi_ne_zero
  have quarter : (0.25 : ℝ) = 1 / 4 := by norm_num
  have inverse : v / u = (u / v)⁻¹ := (inv_div u v).symm
  rw [turns, fullTurn_eq]
  split
  · rename_i right
    change Real.arctan (v / u) / _ = _
    rw [inverse, Real.arctan_inv_of_pos (div_pos right above)]
    field_simp
    ring
  · split
    · rename_i left
      change Real.arctan (v / u) / _ + 0.5 = _
      rw [inverse, Real.arctan_inv_of_neg (div_neg_of_neg_of_pos left above), half_eq]
      field_simp
      ring
    · rename_i right left
      obtain rfl : u = 0 := le_antisymm (not_lt.mp right) (not_lt.mp left)
      change (if v < 0 then -|(0.25 : ℝ)| else |0.25|) = _
      rw [if_neg above.not_gt, quarter, zero_div, Real.arctan_zero, zero_div, sub_zero,
        abs_of_pos (by norm_num)]

variable {u v : ℝ → ℝ} {u' v' t : ℝ}

theorem turns_hasDerivAt (first : HasDerivAt u u' t) (second : HasDerivAt v v' t)
    (smooth : u t = 0 → 0 < v t) :
    HasDerivAt (fun r => turns (u r) (v r))
      ((u t * v' - v t * u') / (2 * Real.pi * (u t ^ 2 + v t ^ 2))) t := by
  have whole : (2 : ℝ) * Real.pi ≠ 0 := mul_ne_zero two_ne_zero Real.pi_ne_zero
  by_cases level : u t = 0
  · have above := smooth level
    have near : (fun r => turns (u r) (v r)) =ᶠ[nhds t] fun r =>
        1 / 4 - Real.arctan (u r / v r) / (2 * Real.pi) := by
      filter_upwards [second.continuousAt.eventually (lt_mem_nhds above)] with r positive
      exact turns_of_above positive (u r)
    have curve := ((first.div second above.ne').arctan.div_const (2 * Real.pi)).const_sub (1 / 4)
    refine (curve.congr_of_eventuallyEq near).congr_deriv ?_
    simp only [Pi.div_apply, level]
    have nonzero := above.ne'
    field_simp
    ring
  · obtain ⟨shift, near⟩ : ∃ shift : ℝ, (fun r => turns (u r) (v r)) =ᶠ[nhds t] fun r =>
        Real.arctan (v r / u r) / (2 * Real.pi) + shift := by
      rcases lt_or_gt_of_ne level with left | right
      · refine ⟨0.5, ?_⟩
        filter_upwards [first.continuousAt.eventually (gt_mem_nhds left)] with r negative
        rw [turns, if_neg negative.not_gt, if_pos negative, fullTurn_eq]
        rfl
      · refine ⟨0, ?_⟩
        filter_upwards [first.continuousAt.eventually (lt_mem_nhds right)] with r positive
        rw [turns, if_pos positive, fullTurn_eq, add_zero]
        rfl
    have curve := ((second.div first level).arctan.div_const (2 * Real.pi)).add_const shift
    refine (curve.congr_of_eventuallyEq near).congr_deriv ?_
    have square : u t ^ 2 + v t ^ 2 ≠ 0 := by positivity
    simp only [Pi.div_apply]
    field_simp

theorem hypot_hasDerivAt (first : HasDerivAt u u' t) (second : HasDerivAt v v' t)
    (away : u t ^ 2 + v t ^ 2 ≠ 0) :
    HasDerivAt (fun r => √(u r ^ 2 + v r ^ 2))
      ((u t * u' + v t * v') / √(u t ^ 2 + v t ^ 2)) t := by
  refine (((first.pow 2).add (second.pow 2)).sqrt away).congr_deriv ?_
  simp only [Pi.add_apply, Pi.pow_apply]
  push_cast
  ring

end Angle

theorem helicalValley_derivative {x : Vec ℝ 3} (smooth : x.get 0 = 0 → 0 < x.get 1) :
    helicalValleyJacobian.IsDerivativeAt helicalValleyResidual x := by
  let map (y : Vec ℝ 3) : Vec ℝ 3 := #v[10.0 * (y.get 2 - 10.0 * turns (y.get 0) (y.get 1)),
    10.0 * (√(y.get 0 ^ 2 + y.get 1 ^ 2) - 1), y.get 2]
  let square := x.get 0 ^ 2 + x.get 1 ^ 2
  let jac : Mat ℝ 3 3 := #v[
    #v[100.0 * x.get 1 / (fullTurn * square), -100.0 * x.get 0 / (fullTurn * square), 10.0],
    #v[10.0 * x.get 0 / √square, 10.0 * x.get 1 / √square, 0], #v[0, 0, 1]]
  refine ⟨map, jac, fun y separate => ?_, fun separate => ?_, fun h i => ?_⟩
  · rw [toArray_eq]
    rfl
  · rw [toArray_eq]
    rfl
  · have u := line_hasDerivAt x h 0
    have v := line_hasDerivAt x h 1
    have w := line_hasDerivAt x h 2
    have hundred : (100.0 : ℝ) = 100 := by norm_num
    rw [dot_eq, Fin.sum_univ_three]
    match i with
    | 0 =>
      have angle := turns_hasDerivAt u v (by rwa [line_zero])
      refine ((w.sub (angle.const_mul 10.0)).const_mul 10.0).congr_deriv ?_
      change _ = 100.0 * x.get 1 / (fullTurn * square) * h.get 0 +
        -100.0 * x.get 0 / (fullTurn * square) * h.get 1 + 10.0 * h.get 2
      simp only [line_zero, fullTurn_eq, ten_eq, hundred, square]
      ring
    | 1 =>
      have away : square ≠ 0 := by
        by_cases level : x.get 0 = 0
        · have above := smooth level
          positivity
        · positivity
      have distance := hypot_hasDerivAt u v (by rwa [line_zero])
      refine ((distance.sub_const 1).const_mul 10.0).congr_deriv ?_
      change _ = 10.0 * x.get 0 / √square * h.get 0 + 10.0 * x.get 1 / √square * h.get 1 +
        0 * h.get 2
      simp only [line_zero, ten_eq, square]
      ring
    | 2 =>
      refine w.congr_deriv ?_
      change _ = 0 * h.get 0 + 0 * h.get 1 + 1 * h.get 2
      ring

/-- The Jacobian callable of every problem yields the derivative of its residual callable, at every
point where the angle of the helical valley has one. -/
theorem jacobian_isDerivative {p : Problem ℝ} (member : p ∈ all) (x : Vec ℝ p.dimension)
    (smooth : p.name = "helical_valley" → ∀ i j : Fin p.dimension, i.val = 0 → j.val = 1 →
      x.get i = 0 → 0 < x.get j) :
    ∃ (map : Vec ℝ p.dimension → Vec ℝ p.dimension) (jac : Mat ℝ p.dimension p.dimension),
      (∀ (y : Vec ℝ p.dimension) separate,
        p.residual ⟨y.toArray, separate⟩ = .ok (.ofVec (map y))) ∧
        (∀ separate, p.jacobian ⟨x.toArray, separate⟩ = .ok (.ofMat jac)) ∧
        ∀ (h : Vec ℝ p.dimension) i,
          HasDerivAt (fun t => (map (x + Vec.scale t h)).get i) (Vec.dot (jac.get i) h) 0 := by
  suffices derivative : p.jacobian.IsDerivativeAt p.residual x from derivative
  simp only [all, List.mem_cons, List.not_mem_nil, or_false] at member
  rcases member with rfl | rfl | rfl | rfl | rfl | rfl | rfl
  · exact readme_derivative x
  · exact rosenbrock_derivative x
  · exact powellSingular_derivative x
  · exact helicalValley_derivative (smooth rfl (0 : Fin 3) (1 : Fin 3) rfl rfl)
  · exact powellBadlyScaled_derivative x
  · exact affine_derivative x
  · exact constant_derivative x

/-- On the second axis, where the angle is not computed from a quotient. -/
theorem jacobian_isDerivative_helicalValley :
    (helicalValley : Problem ℝ) ∈ all ∧
      ∃ (map : Vec ℝ 3 → Vec ℝ 3) (jac : Mat ℝ 3 3),
        helicalValleyResidual ⟨#[0, 1, 0], false⟩ = .ok (.ofVec (map #v[0, 1, 0])) ∧
          helicalValleyJacobian ⟨#[0, 1, 0], false⟩ = .ok (.ofMat jac) ∧
          ∀ (h : Vec ℝ 3) i, HasDerivAt (fun t => (map (#v[0, 1, 0] + Vec.scale t h)).get i)
            (Vec.dot (jac.get i) h) 0 := by
  have member : (helicalValley : Problem ℝ) ∈ all := by simp [all]
  obtain ⟨map, jac, residual, jacobian, derivative⟩ :=
    jacobian_isDerivative member (#v[0, 1, 0] : Vec ℝ 3) fun _ i j _ second _ => by
      obtain rfl : j = (1 : Fin 3) := Fin.ext second
      exact one_pos
  exact ⟨member, map, jac, residual #v[0, 1, 0] false, jacobian false, derivative⟩

end Problem

end RootFinding
