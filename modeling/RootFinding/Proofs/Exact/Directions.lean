import RootFinding.Proofs.Exact.Inverse

namespace RootFinding.Exact

variable {n : Nat} {jac : Mat ℝ n n} {fx p : Vec ℝ n} {iteration : Int}

theorem gaussNewtonStep_eq_none : gaussNewtonStep jac fx = none ↔ ¬ Regular jac := by
  constructor
  · intro none' regular
    obtain ⟨p, found, _⟩ := regular.gaussNewtonStep fx
    cases none'.symm.trans found
  · intro singular
    refine Option.eq_none_iff_forall_ne_some.mpr fun p found => ?_
    exact singular (gaussNewtonStep_eq_some.mp found).1

theorem newtonDirection_eq (jac : Mat ℝ n n) (fx : Vec ℝ n) (iteration : Int) :
    newtonDirection jac fx iteration =
      match gaussNewtonStep jac fx with
      | some p => .ok p
      | none => .error (.singular iteration) := by
  rw [newtonDirection, gaussNewtonStep]
  cases Elimination.solve jac (-fx) with
  | none => rfl
  | some p =>
    rw [Option.filter_some, if_pos (vec_allFinite p)]
    exact if_pos (vec_allFinite p)

theorem newtonDirection_eq_ok :
    newtonDirection jac fx iteration = .ok p ↔ Regular jac ∧ jac.mulVec p = -fx := by
  rw [newtonDirection_eq, ← gaussNewtonStep_eq_some]
  cases gaussNewtonStep jac fx <;> simp

/-- The two methods agree on which Jacobians are singular: there the one has no full step and the
other fails. Elsewhere both take the solution of the linear model. -/
theorem directions_agree (jac : Mat ℝ n n) (fx : Vec ℝ n) (iteration : Int) :
    List.TFAE [(toMatrix jac).det = 0, gaussNewtonStep jac fx = none,
      ∃ failure, newtonDirection jac fx iteration = .error failure ∧
        failure.className = "SingularJacobianError" ∧ failure.iteration? = some iteration] ∧
      ((toMatrix jac).det ≠ 0 → ∃ p, gaussNewtonStep jac fx = some p ∧
        newtonDirection jac fx iteration = .ok p ∧ jac.mulVec p = -fx) := by
  have step (regular : Regular jac) : ∃ p, gaussNewtonStep jac fx = some p ∧
      newtonDirection jac fx iteration = .ok p ∧ jac.mulVec p = -fx := by
    obtain ⟨p, found, solves⟩ := regular.gaussNewtonStep fx
    exact ⟨p, found, newtonDirection_eq_ok.mpr ⟨regular, solves⟩, solves⟩
  refine ⟨?_, fun nonzero => step (regular_iff_det.mpr nonzero)⟩
  tfae_have 1 ↔ 2 := by rw [gaussNewtonStep_eq_none, regular_iff_det, not_not]
  tfae_have 2 → 3 := by
    intro none'
    refine ⟨.singular iteration, ?_, rfl, rfl⟩
    rw [newtonDirection_eq, none']
  tfae_have 3 → 2 := by
    rintro ⟨failure, failed, _⟩
    refine gaussNewtonStep_eq_none.mpr fun regular => ?_
    obtain ⟨p, _, directed, _⟩ := step regular
    cases failed.symm.trans directed
  tfae_finish

end RootFinding.Exact
