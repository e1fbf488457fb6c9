import RootFinding.Proofs.Exact.Inverse

namespace RootFinding.Exact

variable {m n : Nat}

/-- Coordinates of the unknowns by the points that they stand for, with what becomes of a residual,
a Jacobian and a gradient. -/
structure Coordinates (m n : Nat) where
  point : Vec ℝ n → Vec ℝ n
  residual : Vec ℝ m → Vec ℝ m
  jacobian : Mat ℝ m n → Mat ℝ m n
  gradient : Vec ℝ n → Vec ℝ n
  point_bijective : Function.Bijective point
  point_add : ∀ u v, point (u + v) = point u + point v
  point_scale : ∀ a v, point (Vec.scale a v) = Vec.scale a (point v)
  residual_sub : ∀ u v, residual (u - v) = residual u - residual v
  dot_residual : ∀ u v, (residual u).dot (residual v) = u.dot v
  maxNorm_residual : ∀ u, (residual u).maxNorm = u.maxNorm
  jacobian_mulVec : ∀ a v, (jacobian a).mulVec v = residual (a.mulVec (point v))
  dot_gradient : ∀ g v, (gradient g).dot v = g.dot (point v)

theorem sub_self_eq (u : Vec ℝ n) : u - u = 0 := by
  refine ext_get fun i => ?_
  rw [sub_get, sub_self, zero_get]

theorem sub_eq_zero_iff {u v : Vec ℝ n} : u - v = 0 ↔ u = v := by
  constructor
  · intro zero
    refine ext_get fun i => ?_
    have entry := congrArg (·.get i) zero
    simp only [sub_get, zero_get] at entry
    linarith
  · rintro rfl
    exact sub_self_eq u

theorem ext_dot {u w : Vec ℝ n} (same : ∀ v, u.dot v = w.dot v) : u = w := by
  refine sub_eq_zero_iff.mp (eq_zero_of_dot_self ?_)
  rw [dot_sub_right, dot_comm _ u, dot_comm _ w, same, sub_self]

namespace Coordinates

variable (c : Coordinates m n)

/-- Distances are the same. -/
def Isometric : Prop := ∀ v, (c.point v).norm = v.norm

theorem residual_zero : c.residual 0 = 0 := by
  rw [← sub_self_eq (0 : Vec ℝ m), c.residual_sub, sub_self_eq, sub_self_eq]

theorem residual_neg (u : Vec ℝ m) : c.residual (-u) = -c.residual u := by
  have negated (v : Vec ℝ m) : -v = 0 - v := by
    refine ext_get fun i => ?_
    rw [neg_get, sub_get, zero_get, zero_sub]
  rw [negated, c.residual_sub, c.residual_zero, ← negated]

theorem residual_add (u v : Vec ℝ m) : c.residual (u + v) = c.residual u + c.residual v := by
  have added (u v : Vec ℝ m) : u + v = u - -v := by
    refine ext_get fun i => ?_
    rw [add_get, sub_get, neg_get, sub_neg_eq_add]
  rw [added, c.residual_sub, c.residual_neg, ← added]

theorem residual_injective : Function.Injective c.residual := by
  intro u v same
  refine sub_eq_zero_iff.mp (eq_zero_of_dot_self ?_)
  rw [← c.dot_residual, c.residual_sub, same, sub_self_eq, dot_zero_right]

theorem point_sub (u v : Vec ℝ n) : c.point (u - v) = c.point u - c.point v := by
  have scaled (u v : Vec ℝ n) : u - v = u + Vec.scale (-1) v := by
    refine ext_get fun i => ?_
    rw [sub_get, add_get, scale_get]
    ring
  rw [scaled, c.point_add, c.point_scale, ← scaled]

theorem point_zero : c.point 0 = 0 := by
  rw [← sub_self_eq (0 : Vec ℝ n), c.point_sub, sub_self_eq, sub_self_eq]

theorem point_eq_zero {v : Vec ℝ n} : c.point v = 0 ↔ v = 0 :=
  c.point_bijective.injective.eq_iff' c.point_zero

theorem tmulVec_residual (a : Mat ℝ m n) (u : Vec ℝ m) :
    (c.jacobian a).tmulVec (c.residual u) = c.gradient (a.tmulVec u) := by
  refine ext_dot fun v => ?_
  rw [← dot_mulVec, c.jacobian_mulVec, c.dot_residual, c.dot_gradient, dot_mulVec]

theorem model (a : Mat ℝ m n) (fx : Vec ℝ m) (p : Vec ℝ n) :
    c.residual fx + (c.jacobian a).mulVec p = c.residual (fx + a.mulVec (c.point p)) := by
  rw [c.residual_add, c.jacobian_mulVec]

end Coordinates

section Square

variable (c : Coordinates n n)

theorem Coordinates.regular_iff {a : Mat ℝ n n} : Regular (c.jacobian a) ↔ Regular a := by
  have maps (v : Vec ℝ n) : (c.jacobian a).mulVec v = 0 ↔ a.mulVec (c.point v) = 0 := by
    rw [c.jacobian_mulVec]
    exact c.residual_injective.eq_iff' c.residual_zero
  constructor
  · intro regular v zero
    obtain ⟨u, rfl⟩ := c.point_bijective.surjective v
    rw [regular u ((maps u).mpr zero), c.point_zero]
  · intro regular v zero
    exact c.point_eq_zero.mp (regular _ ((maps v).mp zero))

theorem Coordinates.solve_eq (a : Mat ℝ n n) (b : Vec ℝ n) :
    Elimination.solve a b =
      (Elimination.solve (c.jacobian a) (c.residual b)).map c.point := by
  refine Option.ext fun p => ?_
  rw [solve_eq_some, Option.map_eq_some_iff]
  simp only [solve_eq_some, c.regular_iff, c.jacobian_mulVec, c.residual_injective.eq_iff]
  constructor
  · rintro ⟨regular, solves⟩
    obtain ⟨u, rfl⟩ := c.point_bijective.surjective p
    exact ⟨u, ⟨regular, solves⟩, rfl⟩
  · rintro ⟨u, ⟨regular, solves⟩, rfl⟩
    exact ⟨regular, solves⟩

theorem Coordinates.gaussNewtonStep_eq (jac : Mat ℝ n n) (fx : Vec ℝ n) :
    gaussNewtonStep jac fx =
      (gaussNewtonStep (c.jacobian jac) (c.residual fx)).map c.point := by
  rw [gaussNewtonStep, gaussNewtonStep, ← c.residual_neg, c.solve_eq]
  cases Elimination.solve (c.jacobian jac) (c.residual (-fx)) with
  | none => rfl
  | some p =>
    rw [Option.map_some, Option.filter_some, Option.filter_some, if_pos (vec_allFinite _),
      if_pos (vec_allFinite _), Option.map_some]

end Square

def Coordinates.ofUnknowns (point adjoint : Vec ℝ n → Vec ℝ n)
    (bijective : Function.Bijective point) (add : ∀ u v, point (u + v) = point u + point v)
    (scale : ∀ a v, point (Vec.scale a v) = Vec.scale a (point v))
    (dot : ∀ g v, (adjoint g).dot v = g.dot (point v)) : Coordinates m n where
  point := point
  residual := id
  jacobian a := a.map adjoint
  gradient := adjoint
  point_bijective := bijective
  point_add := add
  point_scale := scale
  residual_sub _ _ := rfl
  dot_residual _ _ := rfl
  maxNorm_residual _ := rfl
  jacobian_mulVec a v := by
    refine ext_get fun i => ?_
    rw [mulVec_get, map_get, dot, id, mulVec_get]
  dot_gradient := dot

theorem Regular.mulVec_bijective {T : Mat ℝ n n} (regular : Regular T) :
    Function.Bijective T.mulVec := by
  refine ⟨fun u v same => sub_eq_zero_iff.mp (regular _ ?_), regular.solvable⟩
  rw [mulVec_sub, same, sub_self_eq]

noncomputable def Coordinates.linear (T : Mat ℝ n n) (regular : Regular T) : Coordinates m n :=
  .ofUnknowns T.mulVec T.tmulVec regular.mulVec_bijective (mulVec_add T) (mulVec_scale T)
    fun g v => (dot_mulVec T g v).symm

/-- Weights for the one coordinates that measure as those for the others do. -/
structure Coordinates.Weighs (c : Coordinates m n) (d d' : Vec ℝ n) : Prop where
  dot : ∀ u v, weightedDot d' u v = weightedDot d (c.point u) (c.point v)
  gradient : ∀ jac fx, c.point (scaledGradient (c.jacobian jac) (c.residual fx) d') =
    scaledGradient jac fx d

namespace Coordinates.Weighs

variable {c : Coordinates m n} {d d' : Vec ℝ n} (weighs : c.Weighs d d')
include weighs

theorem norm (v : Vec ℝ n) : weightedNorm d' v = weightedNorm d (c.point v) := by
  have squares := weighs.dot v v
  rw [← weightedNorm_sq, ← weightedNorm_sq] at squares
  exact (mul_self_inj (weightedNorm_nonneg _ _) (weightedNorm_nonneg _ _)).mp squares

theorem tau (start diff : Vec ℝ n) (delta : ℝ) :
    doglegTau start diff d' delta = doglegTau (c.point start) (c.point diff) d delta := by
  simp only [doglegTau, weighs.dot]

theorem cauchy (jac : Mat ℝ m n) (fx : Vec ℝ m) :
    c.point (cauchyPoint (c.jacobian jac) (c.residual fx) d').1 = (cauchyPoint jac fx d).1 ∧
      c.point (cauchyPoint (c.jacobian jac) (c.residual fx) d').2 = (cauchyPoint jac fx d).2 := by
  have gradient := weighs.gradient jac fx
  have reaches : reach (c.jacobian jac) (c.residual fx) d' = reach jac fx d := by
    rw [reach, slope, weighs.norm, bend, curvature, c.jacobian_mulVec, gradient, c.dot_residual]
    rfl
  rw [cauchyPoint_eq, cauchyPoint_eq, downhill, downhill, reaches]
  refine ⟨gradient, ?_⟩
  rw [c.point_scale, gradient]

theorem path (full : Option (Vec ℝ n)) (jac : Mat ℝ m n) (fx : Vec ℝ m) (delta : ℝ) :
    let step := doglegPath full (c.jacobian jac) (c.residual fx) d' delta
    doglegPath (full.map c.point) jac fx d delta =
      ⟨c.point step.p, step.kind, step.singular⟩ := by
  obtain ⟨gradient, cauchy⟩ := weighs.cauchy jac fx
  have inside : (full.map c.point).filter (fun p => weightedNorm d p ≤ delta) =
      (full.filter fun p => weightedNorm d (c.point p) ≤ delta).map c.point := by
    cases full with
    | none => rfl
    | some p =>
      simp only [Option.map_some, Option.filter_some]
      split <;> rfl
  simp only [doglegPath, inside, weighs.norm, gradient, cauchy]
  cases full.filter fun p => weightedNorm d (c.point p) ≤ delta with
  | some p => rfl
  | none =>
    simp only [Option.map_none]
    split
    · simp only [c.point_scale, gradient, Option.isNone_map]
    · cases full with
      | none => simp only [Option.map_none, cauchy]
      | some p =>
        simp only [Option.map_some, weighs.tau, c.point_add, c.point_scale, c.point_sub, cauchy]

end Coordinates.Weighs

theorem Coordinates.Weighs.step {c : Coordinates n n} {d d' : Vec ℝ n} (weighs : c.Weighs d d')
    (jac : Mat ℝ n n) (fx : Vec ℝ n) (delta : ℝ) :
    let step := doglegStep (c.jacobian jac) (c.residual fx) d' delta
    doglegStep jac fx d delta = ⟨c.point step.p, step.kind, step.singular⟩ := by
  have full := c.gaussNewtonStep_eq jac fx
  simp only [doglegStep, full]
  exact weighs.path _ jac fx delta

end RootFinding.Exact
