import RootFinding.Proofs.Exact.Directions

namespace RootFinding.Exact

variable {n : Nat} {jac : Mat ℝ n n} {fx d : Vec ℝ n} {delta : ℝ}

/-- Regular equations have their full step, which is taken if it lies in the region; any other step
ends on the boundary. -/
theorem doglegStep_of_regular (regular : Regular jac) (positive : 0 < delta) :
    ∃ newton, gaussNewtonStep jac fx = some newton ∧
      ((weightedNorm d newton ≤ delta ∧ (doglegStep jac fx d delta).p = newton) ∨
        delta < weightedNorm d newton ∧ weightedNorm d (doglegStep jac fx d delta).p = delta) := by
  obtain ⟨newton, found, _⟩ := regular.gaussNewtonStep fx
  refine ⟨newton, found, ?_⟩
  rw [doglegStep, found]
  rcases doglegPath_some jac fx d positive newton with ⟨within, _, same⟩ | ⟨beyond, _, boundary⟩
  · exact .inl ⟨within, same⟩
  · exact .inr ⟨beyond, boundary⟩

/-- The step is the full one when that lies in the region, and else as long as the region allows.
For a singular Jacobian it goes along the negative gradient, to the Cauchy point or the boundary. -/
theorem doglegStep_length (jac : Mat ℝ n n) (fx d : Vec ℝ n) (positive : 0 < delta) :
    let p := (doglegStep jac fx d delta).p
    weightedNorm d p ≤ delta ∧
      (gaussNewtonStep jac fx = some p ↔
        Regular jac ∧ ∃ newton, jac.mulVec newton = -fx ∧ weightedNorm d newton ≤ delta) ∧
      (Regular jac → gaussNewtonStep jac fx ≠ some p → weightedNorm d p = delta) ∧
      (¬ Regular jac →
        (∃ t ≥ 0, ∀ j, p.get j = -t * ((jac.tmulVec fx).get j / (d.get j * d.get j))) ∧
          weightedNorm d p = min delta (weightedNorm d (cauchyPoint jac fx d).2)) := by
  have inside : weightedNorm d (doglegStep jac fx d delta).p ≤ delta :=
    weightedNorm_doglegPath_le jac fx d positive _
  refine ⟨inside, ⟨fun full => ?_, ?_⟩, fun regular other => ?_, fun singular => ?_⟩
  · obtain ⟨regular, solves⟩ := gaussNewtonStep_eq_some.mp full
    exact ⟨regular, _, solves, inside⟩
  · rintro ⟨regular, newton, solves, within⟩
    have found := gaussNewtonStep_eq_some.mpr ⟨regular, solves⟩
    obtain ⟨newton', found', ⟨_, same⟩ | ⟨beyond, _⟩⟩ :=
      doglegStep_of_regular regular positive
    · rw [same, found']
    · obtain rfl := Option.some.inj (found.symm.trans found')
      exact absurd within beyond.not_ge
  · obtain ⟨newton, found, ⟨_, same⟩ | ⟨_, boundary⟩⟩ :=
      doglegStep_of_regular regular positive
    · exact absurd (found.trans (congrArg some same.symm)) other
    · exact boundary
  · rw [doglegStep, gaussNewtonStep_eq_none.mpr singular, cauchyPoint_eq]
    obtain ⟨⟨t, nonneg, along⟩, length⟩ := doglegPath_none jac fx d positive
    refine ⟨⟨t, nonneg, fun j => ?_⟩, length⟩
    rw [along, downhill, scale_get, scaledGradient_get]

/-- From `x = 2` the full step for `2 x` does not fit into a region of radius one. -/
theorem doglegStep_length_cut :
    (0 : ℝ) < 1 ∧ weightedNorm #v[1] (doglegStep #v[#v[2]] #v[4] #v[1] 1).p = (1 : ℝ) := by
  obtain ⟨_, full, boundary, _⟩ :=
    doglegStep_length #v[#v[2]] #v[4] #v[1] one_pos
  refine ⟨one_pos, boundary (regular_single two_ne_zero) fun found => ?_⟩
  obtain ⟨_, newton, solves, within⟩ := full.mp found
  have solution := mulVec_eq_iff.mp solves 0
  rw [weightedNorm_le_iff zero_le_one, weightedDot_eq, dot_eq, Fin.sum_univ_one, scaled_get]
    at within
  rw [dot_eq, Fin.sum_univ_one, neg_get] at solution
  change 2 * newton.get 0 = -4 at solution
  change 1 * newton.get 0 * (1 * newton.get 0) ≤ 1 * 1 at within
  rw [show newton.get 0 = -2 by linarith] at within
  norm_num at within

theorem doglegStep_of_level (positive : 0 < delta) (level : jac.tmulVec fx = 0) :
    (doglegStep jac fx d delta).p = 0 := by
  by_cases regular : Regular jac
  · -- The point is a root, and the full step from there is zero.
    have solves : jac.mulVec 0 = -fx := by
      refine mulVec_eq_iff.mpr fun i => ?_
      rw [regular.tmulVec_eq_zero level, dot_zero_right, neg_get, zero_get, neg_zero]
    obtain ⟨newton, found, taken⟩ := doglegStep_of_regular (d := d) regular positive
    cases found.symm.trans (gaussNewtonStep_eq_some.mpr ⟨regular, solves⟩)
    rw [weightedNorm_zero] at taken
    exact (taken.resolve_right fun beyond => beyond.1.not_gt positive).2
  · rw [doglegStep, gaussNewtonStep_eq_none.mpr regular]
    obtain ⟨⟨t, _, along⟩, _⟩ := doglegPath_none jac fx d positive
    rw [along, downhill, scaledGradient_of_level d level]
    refine ext_get fun j => ?_
    rw [scale_get, zero_get, mul_zero]

theorem model_downhill (jac : Mat ℝ n n) (fx d : Vec ℝ n) (t : ℝ) :
    fx + jac.mulVec (downhill jac fx d t) =
      fx - Vec.scale t (jac.mulVec (scaledGradient jac fx d)) := by
  rw [downhill, mulVec_scale]
  refine ext_get fun i => ?_
  rw [add_get, sub_get, scale_get, scale_get]
  ring

theorem model_zero (jac : Mat ℝ n n) (fx : Vec ℝ n) : fx + jac.mulVec 0 = fx := by
  refine ext_get fun i => ?_
  rw [add_get, mulVec_get, dot_zero_right, add_zero]

/-- The linear model predicts for the step no more than for any point of the gradient inside the
region, and a decrease exactly where there is a gradient: elsewhere the ratio is zero by rule. -/
theorem doglegStep_predicts (jac : Mat ℝ n n) (fx : Vec ℝ n) {d : Vec ℝ n} (positive : 0 < delta)
    (weights : ∀ j, 0 < d.get j) :
    let g := scaledGradient jac fx d
    let p := (doglegStep jac fx d delta).p
    let model := fx + jac.mulVec p
    (∀ t ≥ 0, weightedNorm d (Vec.scale t g) ≤ delta →
        let along := fx - Vec.scale t (jac.mulVec g)
        model.dot model ≤ along.dot along) ∧
      (jac.tmulVec fx ≠ 0 → model.dot model < fx.dot fx ∧ ∀ trial : Vec ℝ n,
        reductionRatio fx trial model =
          (fx.dot fx - trial.dot trial) / (fx.dot fx - model.dot model)) ∧
      (jac.tmulVec fx = 0 → p = 0 ∧ ∀ trial : Vec ℝ n, reductionRatio fx trial model = 0) := by
  have solves (newton : Vec ℝ n) (found : gaussNewtonStep jac fx = some newton) :
      jac.mulVec newton = -fx := (gaussNewtonStep_eq_some.mp found).2
  refine ⟨fun t nonneg within => ?_, fun gradient => ?_, fun level => ?_⟩
  · rw [weightedNorm_scale, abs_of_nonneg nonneg] at within
    have best := predicted_doglegPath_le positive solves within
    rw [predicted, predicted, model_downhill] at best
    exact best
  · have less := predicted_doglegPath_lt positive solves (slope_pos weights gradient)
    refine ⟨less, fun trial => ?_⟩
    rw [reductionRatio]
    exact if_pos (sub_pos.mpr less)
  · have still := doglegStep_of_level (d := d) positive level
    refine ⟨still, fun trial => ?_⟩
    rw [reductionRatio, still, model_zero, sub_self]
    exact if_neg (lt_irrefl 0)

/-- A singular Jacobian, with a gradient nevertheless. -/
theorem doglegStep_predicts_repeated :
    (0 : ℝ) < 1 ∧ (∀ j, 0 < (#v[1, 1] : Vec ℝ 2).get j) ∧
      let jac : Mat ℝ 2 2 := #v[#v[1, 1], #v[1, 1]]
      let model : Vec ℝ 2 := #v[1, 0] + jac.mulVec (doglegStep jac #v[1, 0] #v[1, 1] 1).p
      model.dot model < 1 := by
  have weights (j : Fin 2) : 0 < (#v[1, 1] : Vec ℝ 2).get j := by
    fin_cases j <;> exact one_pos
  have gradient : Mat.tmulVec (#v[#v[1, 1], #v[1, 1]] : Mat ℝ 2 2) #v[1, 0] ≠ 0 := by
    intro level
    have entry := congrArg (·.get 0) level
    simp only [tmulVec_get, dot_eq, Fin.sum_univ_two, column_get, zero_get] at entry
    have one : (1 : ℝ) * 1 + 1 * 0 = 0 := entry
    linarith
  have less := ((doglegStep_predicts _ _ one_pos weights).2.1 gradient).1
  rw [dot_eq #v[1, 0], Fin.sum_univ_two] at less
  refine ⟨one_pos, weights, less.trans_eq ?_⟩
  change (1 : ℝ) * 1 + 0 * 0 = 1
  ring

end RootFinding.Exact
