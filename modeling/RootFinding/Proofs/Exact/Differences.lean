import RootFinding.Proofs.Exact.Inverse
import RootFinding.Proofs.SquareSystem.Differences

namespace RootFinding

open Exact

variable {m n : Nat}

section Step

theorem differenceStep_eq (x : ℝ) : differenceStep x = √(2 ^ (-52 : ℤ)) * max |x| 1 := by
  have epsilon : (Scalar.epsilon : ℝ) = 2 ^ (-52 : ℤ) := by
    norm_num [Scalar.epsilon]
  rw [differenceStep, larger_eq, epsilon]
  rfl

theorem differenceStep_pos (x : ℝ) : 0 < differenceStep x := by
  rw [differenceStep_eq]
  have root : 0 < √(2 ^ (-52 : ℤ)) := Real.sqrt_pos.mpr (zpow_pos two_pos _)
  exact mul_pos root (lt_max_of_lt_right one_pos)

theorem takenStep_eq (x : ℝ) : takenStep x = differenceStep x := by
  rw [takenStep, stepped, add_sub_cancel_left]

end Step

def along (f : Vec ℝ n → Vec ℝ m) (x : Vec ℝ n) (i : Fin m) (j : Fin n) : ℝ → ℝ := fun t =>
  (f (x.set j t j.isLt)).get i

theorem set_get (x : Vec ℝ n) (j : Fin n) (t : ℝ) (i : Fin n) :
    (x.set j t j.isLt : Vec ℝ n).get i = if i = j then t else x.get i := by
  change (x.set j t)[i.val] = _
  rw [Vector.getElem_set]
  by_cases same : i = j
  · rw [if_pos same, if_pos (congrArg Fin.val same).symm]
  · rw [if_neg same, if_neg fun h => same (Fin.ext h.symm)]
    rfl

theorem along_self (f : Vec ℝ n → Vec ℝ m) (x : Vec ℝ n) (i : Fin m) (j : Fin n) :
    along f x i j (x.get j) = (f x).get i := by
  have same : x.set j (x.get j) j.isLt = x := Vector.set_getElem_self j.isLt
  rw [along, same]

theorem differenceColumn_get (base moved : Vec ℝ m) (step : ℝ) (i : Fin m) :
    (differenceColumn base moved step).get i = (moved.get i - base.get i) / step := by
  rw [differenceColumn, map_get, sub_get]

theorem differenceQuotients_get (f : Vec ℝ n → Vec ℝ m) (x : Vec ℝ n) (i : Fin m) (j : Fin n) :
    ((differenceQuotients f x).get i).get j =
      (along f x i j (x.get j + differenceStep (x.get j)) - along f x i j (x.get j)) /
        differenceStep (x.get j) := by
  rw [differenceQuotients, get_ofFn, get_ofFn, differenceColumn_get, takenStep_eq, along_self]
  rfl

theorem quotient_parabola {g : ℝ → ℝ} {c₀ c₁ c₂ : ℝ}
    (parabola : ∀ t, g t = c₀ + c₁ * t + c₂ * t ^ 2) (x : ℝ) {h : ℝ} (nonzero : h ≠ 0) :
    Differentiable ℝ g ∧ Differentiable ℝ (deriv g) ∧
      (g (x + h) - g x) / h = deriv g x + h / 2 * deriv (deriv g) x := by
  have first (t : ℝ) : HasDerivAt g (c₁ + 2 * c₂ * t) t := by
    have line := ((hasDerivAt_id t).const_mul c₁).const_add c₀
    have square := ((hasDerivAt_id t).pow 2).const_mul c₂
    rw [show g = fun t => c₀ + c₁ * t + c₂ * t ^ 2 from funext parabola]
    refine (line.add square).congr_deriv ?_
    simp only [id_eq]
    ring
  have slope : deriv g = fun t => c₁ + 2 * c₂ * t := funext fun t => (first t).deriv
  have second (t : ℝ) : HasDerivAt (deriv g) (2 * c₂) t := by
    rw [slope]
    exact (((hasDerivAt_id t).const_mul (2 * c₂)).const_add c₁).congr_deriv (mul_one _)
  refine ⟨fun t => (first t).differentiableAt, fun t => (second t).differentiableAt, ?_⟩
  rw [(first x).deriv, (second x).deriv, parabola, parabola, div_eq_iff nonzero]
  ring

def Quadratic (f : Vec ℝ n → Vec ℝ m) : Prop :=
  ∀ i, ∃ p : MvPolynomial (Fin n) ℝ, p.totalDegree ≤ 2 ∧ ∀ y, (f y).get i = p.eval y.get

theorem Quadratic.along {f : Vec ℝ n → Vec ℝ m} (quadratic : Quadratic f) (x : Vec ℝ n)
    (i : Fin m) (j : Fin n) :
    ∃ c₀ c₁ c₂ : ℝ, ∀ t, along f x i j t = c₀ + c₁ * t + c₂ * t ^ 2 := by
  obtain ⟨p, degree, values⟩ := quadratic i
  -- The polynomial with constants for the other coordinates.
  let entry (k : Fin n) : Polynomial ℝ := if k = j then .X else .C (x.get k)
  have entries (k : Fin n) : (entry k).natDegree ≤ 1 := by
    by_cases same : k = j
    · simp only [entry, if_pos same, Polynomial.natDegree_X, le_refl]
    · simp only [entry, if_neg same, Polynomial.natDegree_C, zero_le]
  have short := p.aeval_natDegree_le degree entry entries
  refine ⟨(MvPolynomial.aeval entry p).coeff 0, (MvPolynomial.aeval entry p).coeff 1,
    (MvPolynomial.aeval entry p).coeff 2, fun t => ?_⟩
  have point : (x.set j t j.isLt : Vec ℝ n).get = fun k => Polynomial.aeval t (entry k) := by
    funext k
    rw [set_get]
    by_cases same : k = j
    · simp only [entry, if_pos same, Polynomial.aeval_X]
    · simp only [entry, if_neg same, Polynomial.aeval_C, Algebra.algebraMap_self, RingHom.id_apply]
  have value : RootFinding.along f x i j t = (MvPolynomial.aeval entry p).eval t := by
    rw [RootFinding.along, values, point, ← MvPolynomial.aeval_eq_eval,
      ← MvPolynomial.comp_aeval_apply]
    rfl
  rw [value, Polynomial.eval_eq_sum_range' (Nat.lt_succ_of_le short), Finset.sum_range_succ,
    Finset.sum_range_succ, Finset.sum_range_succ, Finset.sum_range_zero]
  ring

theorem differenceQuotients_affine {f : Vec ℝ n → Vec ℝ m} {a : Mat ℝ m n} {b : Vec ℝ m}
    (map : ∀ y, f y = a.mulVec y - b) (x : Vec ℝ n) : differenceQuotients f x = a := by
  refine ext_get fun i => ext_get fun j => ?_
  have row (t : ℝ) : along f x i j t =
      along f x i j (x.get j) + (a.get i).get j * (t - x.get j) := by
    have entry (k : Fin n) : (x.set j t j.isLt : Vec ℝ n).get k =
        x.get k + if k = j then t - x.get j else 0 := by
      rw [set_get]
      by_cases same : k = j
      · rw [if_pos same, if_pos same, same, add_sub_cancel]
      · rw [if_neg same, if_neg same, add_zero]
    have moved : Vec.dot (a.get i) (x.set j t j.isLt) =
        Vec.dot (a.get i) x + (a.get i).get j * (t - x.get j) := by
      simp only [dot_eq, entry, mul_add, Finset.sum_add_distrib, mul_ite, mul_zero,
        Finset.sum_ite_eq', Finset.mem_univ, if_true]
    rw [along_self, along, map, map, sub_get, sub_get, mulVec_get, mulVec_get, moved]
    ring
  rw [differenceQuotients_get, row, div_eq_iff (differenceStep_pos _).ne']
  ring

/-- Each column hands the point on as it was handed to it, whatever the residual is. So the residual
is evaluated at the point and then at one step from it along each coordinate, in this order, and the
same quotients end up in the Jacobian buffer with and without the residual. Over the reals they are
derivatives up to the curvature, so those of an affine map are its matrix. -/
theorem forwardDifferences_exact :
    (∀ {α : Type} [Scalar α] {m n : Nat}
      (residual : {k : Nat} → Array α → Evaluation α k [m, n] Unit) (base : Vec α m) (j : Fin n)
      (x point : Vec α n) (buffer left : Vec α m) (desk after : Desk α m [m, n]),
      (Evaluation.fillColumn residual base rfl j x buffer).run desk = (.ok (point, left), after) →
        point = x) ∧
    (∀ {α : Type} [Scalar α] {m n : Nat}
      {residual : {k : Nat} → Array α → Evaluation α k [m, n] Unit} {f : Vec α n → Vec α m},
      Evaluation.Computes residual f → ∀ (x : Vec α n) (desk : Desk α m [m, n]),
        let calls := ((differencePoints x).map fun y => ⟨.f, y.toArray⟩).reverse ++ desk.calls
        (Evaluation.differenceJacobian residual x.toArray).run desk =
            (.ok (), ⟨desk.residual, differenceQuotients f x, calls⟩) ∧
          (Evaluation.differenceBoth residual x.toArray).run desk =
            (.ok (), ⟨f x, differenceQuotients f x, calls⟩)) ∧
    (∀ {m n : Nat} {f : Vec ℝ n → Vec ℝ m}, Quadratic f →
      ∀ (x : Vec ℝ n) (i : Fin m) (j : Fin n),
        let h := √(2 ^ (-52 : ℤ)) * max |x.get j| 1
        let g := along f x i j
        Differentiable ℝ g ∧ Differentiable ℝ (deriv g) ∧
          ((differenceQuotients f x).get i).get j =
            deriv g (x.get j) + h / 2 * deriv (deriv g) (x.get j)) ∧
    ∀ {m n : Nat} (a : Mat ℝ m n) (b : Vec ℝ m) (x : Vec ℝ n),
      differenceQuotients (fun y => a.mulVec y - b) x = a := by
  refine ⟨fun _ _ _ _ _ _ _ _ _ => Evaluation.fillColumn_restores,
    fun computes x desk => ?_, fun {_ _ f} quadratic x i j => ?_, fun a b x => ?_⟩
  · exact ⟨computes.differenceJacobian_run x desk, computes.differenceBoth_run x desk⟩
  · obtain ⟨c₀, c₁, c₂, parabola⟩ := quadratic.along x i j
    have step := (differenceStep_pos (x.get j)).ne'
    obtain ⟨smooth, again, quotient⟩ := quotient_parabola parabola (x.get j) step
    refine ⟨smooth, again, ?_⟩
    rw [differenceQuotients_get, quotient, differenceStep_eq]
  · exact differenceQuotients_affine (fun _ => rfl) x

theorem quadratic_squareAndLine :
    Quadratic fun y : Vec ℝ 1 => (#v[y.get 0 * y.get 0, y.get 0] : Vec ℝ 2) := by
  intro i
  match i with
  | 0 =>
    refine ⟨.X 0 * .X 0, ?_, fun y => ?_⟩
    · exact (MvPolynomial.totalDegree_mul _ _).trans (by rw [MvPolynomial.totalDegree_X])
    · rw [map_mul, MvPolynomial.eval_X]
      rfl
  | 1 =>
    refine ⟨.X 0, ?_, fun y => ?_⟩
    · rw [MvPolynomial.totalDegree_X]
      exact one_le_two
    · rw [MvPolynomial.eval_X]
      rfl

/-- A parabola and a line over one unknown. -/
theorem forwardDifferences_parabola :
    let f : Vec ℝ 1 → Vec ℝ 2 := fun y => #v[y.get 0 * y.get 0, y.get 0]
    let residual {k : Nat} : Array ℝ → Evaluation ℝ k [2, 1] Unit :=
      Evaluation.bareResidual (Callable.ofMap f)
    let x : Vec ℝ 1 := #v[3]
    ((Evaluation.differenceBoth residual x.toArray).run
        (⟨0, Block.constant 0 [2, 1], []⟩ : Desk ℝ 2 [2, 1])).2.residual = #v[9, 3] ∧
      (∃ left after, (Evaluation.fillColumn residual #v[9, 3] rfl 0 x 0).run
        (⟨0, Block.constant 0 [2, 1], []⟩ : Desk ℝ 2 [2, 1]) = (.ok (x, left), after)) ∧
      ((differenceQuotients f x).get 0).get 0 = 6 + √(2 ^ (-52 : ℤ)) * 3 := by
  intro f residual x
  obtain ⟨restores, runs, curved, _⟩ := forwardDifferences_exact
  have computes : Evaluation.Computes residual f :=
    Evaluation.bareResidual_computes fun y => Callable.ofMap_eq f y false
  refine ⟨?_, ?_, ?_⟩
  · rw [(runs computes x _).2]
    change (#v[3 * 3, 3] : Vec ℝ 2) = #v[9, 3]
    norm_num
  · obtain ⟨point, left, after, ran⟩ : ∃ point left after,
        (Evaluation.fillColumn residual #v[9, 3] rfl 0 x 0).run
          (⟨0, Block.constant 0 [2, 1], []⟩ : Desk ℝ 2 [2, 1]) = (.ok (point, left), after) :=
      ⟨_, _, _, rfl⟩
    rw [restores residual _ 0 x point 0 left _ after ran] at ran
    exact ⟨left, after, ran⟩
  · obtain ⟨_, _, entry⟩ := curved quadratic_squareAndLine x 0 0
    have square : along f x 0 0 = fun t => t * t := rfl
    have slope : deriv (fun t : ℝ => t * t) = fun t => 2 * t := by
      funext t
      exact (((hasDerivAt_id t).mul (hasDerivAt_id t)).congr_deriv (by simp only [id]; ring)).deriv
    have curvature : deriv (fun t : ℝ => 2 * t) 3 = 2 :=
      (((hasDerivAt_id (3 : ℝ)).const_mul 2).congr_deriv (mul_one _)).deriv
    have place : x.get 0 = 3 := rfl
    rw [entry, square, slope, place, curvature]
    norm_num

end RootFinding
