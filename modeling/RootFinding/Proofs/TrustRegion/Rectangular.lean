import RootFinding.TrustRegion.Rectangular

namespace RootFinding.Rectangular

open Scalar

variable {α : Type} [Scalar α] {m n : Nat}

omit [Scalar α] in
theorem leading_self (v : Vec α n) : leading n v = .ok v := by
  rw [leading, dif_pos (Nat.le_refl n)]
  congr 1
  ext i h
  rw [Vector.getElem_cast, Vector.getElem_take]

theorem weightedNorm_eq (d v : Vec α n) :
    weightedNorm d v = .ok (RootFinding.weightedNorm d v) := by
  rw [weightedNorm, leading_self]
  rfl

theorem weightedDot_eq (d u v : Vec α n) :
    weightedDot d u v = .ok (RootFinding.weightedDot d u v) := by
  rw [weightedDot, if_neg (Nat.lt_irrefl n), leading_self, leading_self]
  rfl

theorem doglegTau_eq (start diff d : Vec α n) (delta : α) :
    doglegTau start diff d delta = .ok (RootFinding.doglegTau start diff d delta) := by
  rw [doglegTau, RootFinding.doglegTau, weightedDot_eq, weightedDot_eq, weightedDot_eq]
  change (if _ then _ else _) = _
  split <;> rfl

theorem updateScaling_eq (d : Vec α n) (a : Mat α m n) (decay : α) :
    updateScaling d a decay = .ok (RootFinding.updateScaling d a decay) := by
  rw [updateScaling, leading_self]
  rfl

theorem gaussNewtonStep_eq (jac : Mat α n n) (fx : Vec α n) :
    gaussNewtonStep jac fx = .ok (RootFinding.gaussNewtonStep jac fx) := by
  rw [gaussNewtonStep, dif_pos rfl, dif_pos rfl]

theorem newtonDirection_eq (jac : Mat α n n) (fx : Vec α n) (iteration : Int) :
    newtonDirection jac fx iteration = RootFinding.newtonDirection jac fx iteration := by
  rw [newtonDirection, dif_pos rfl, dif_pos rfl]

omit [Scalar α] in
theorem fitted_eq (fx : Vec α m) (d : Vec α n) : fitted m n fx d = .ok (fx, d) := by
  rw [fitted, dif_pos rfl, spreadScaling, dif_pos rfl]
  rfl

theorem cauchyPoint_eq (jac : Mat α m n) (fx : Vec α m) (d : Vec α n) :
    cauchyPoint jac fx d = .ok (RootFinding.cauchyPoint jac fx d) := by
  simp only [cauchyPoint, fitted_eq, leading_self]
  change (if _ then _ else _) = _
  split <;> rfl

theorem reaches_eq (full : Option (Vec α n)) (d : Vec α n) (delta : α) :
    reaches full d delta = .ok (full.any fun p => RootFinding.weightedNorm d p ≤ delta) := by
  cases full with
  | none => rfl
  | some p =>
    simp only [reaches, weightedNorm_eq]
    rfl

/-- Where all extents fit, nothing is missed, and the step is the one that the solver takes. -/
theorem doglegStep_eq (jac : Mat α n n) (fx d : Vec α n) (delta : α) :
    doglegStep jac fx d delta = .ok (RootFinding.doglegStep jac fx d delta) := by
  have path (full : Option (Vec α n)) : (fitted n n fx d >>= fun both => leading n d >>= fun _ =>
      pure (doglegPath full jac both.1 both.2 delta)) = .ok (doglegPath full jac fx d delta) := by
    rw [fitted_eq]
    change (leading n d >>= _) = _
    rw [leading_self]
    rfl
  simp only [doglegStep, gaussNewtonStep_eq, RootFinding.doglegStep]
  cases RootFinding.gaussNewtonStep jac fx with
  | none => exact path none
  | some p =>
    change (reaches (some p) d delta >>= _) = _
    rw [reaches_eq, Option.any_some]
    by_cases inside : RootFinding.weightedNorm d p ≤ delta
    · have taken : (some p).filter (fun p => RootFinding.weightedNorm d p ≤ delta) = some p :=
        if_pos (decide_eq_true inside)
      rw [decide_eq_true inside, doglegPath, taken]
      rfl
    · rw [decide_eq_false inside]
      exact path (some p)

end RootFinding.Rectangular

namespace RootFinding

variable {α : Type} [Scalar α] {n k : Nat}

omit [Scalar α] in
theorem spreadPair_eq (u v : Vec α n) : spreadPair u v = .ok ⟨n, u, v⟩ := dif_pos rfl

theorem Convergence.assessSpread_eq (x : Vec α n) (previous : Option (Vec α n)) (fx : Vec α k)
    (xtol ftol : α) :
    assessSpread x previous fx xtol ftol = .ok (assess x previous fx xtol ftol) := by
  cases previous with
  | none => rfl
  | some p =>
    simp only [assessSpread, spreadPair_eq]
    split
    · rfl
    · rename_i off
      -- The step test does not hold then, so it makes no difference that it is not made.
      rw [Bool.not_eq_true] at off
      have fails : stepTest x p xtol = false := by rw [stepTest, off, Bool.false_and]
      rw [assess, assess, Option.any_some, fails]
      rfl

end RootFinding
