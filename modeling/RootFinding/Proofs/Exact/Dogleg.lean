import RootFinding.Proofs.Exact.Scaling
import RootFinding.Proofs.Exact.Elimination
import RootFinding.TrustRegion.Dogleg

namespace RootFinding.Exact

open Finset

variable {m n : Nat}

theorem parabola_nonpos_iff {a b c r t : ℝ} (ha : 0 ≤ a) (hc : c < 0) (hr : 0 < r)
    (root : a * (r * r) + b * r + c = 0) (ht : 0 ≤ t) : a * (t * t) + b * t + c ≤ 0 ↔ t ≤ r := by
  have slope : b * r = -c - a * (r * r) := by linarith
  have scaledUp : r * -(a * (t * t) + b * t + c) = (r - t) * (a * t * r - c) := by
    calc r * -(a * (t * t) + b * t + c) = -(r * a * (t * t) + (b * r) * t + r * c) := by ring
      _ = (r - t) * (a * t * r - c) := by rw [slope]; ring
  have above : 0 < a * t * r - c := by
    have term : 0 ≤ a * t * r := mul_nonneg (mul_nonneg ha ht) hr.le
    linarith
  rw [← neg_nonneg, ← mul_nonneg_iff_of_pos_left hr, scaledUp, mul_nonneg_iff_of_pos_right above,
    sub_nonneg]

section Root

variable {a b c : ℝ}

theorem discriminant_nonneg (gap : a * c < 0) : 0 ≤ b * b - 4 * a * c := by
  linarith [mul_self_nonneg b]

theorem abs_lt_root (gap : a * c < 0) : |b| < Real.sqrt (b * b - 4 * a * c) := by
  refine Real.lt_sqrt_of_sq_lt ?_
  rw [sq_abs]
  linarith

theorem unitRoot_of_nonneg (gap : a * c < 0) (upward : 0 ≤ b) :
    let q := -(1 / 2) * (b + Real.sqrt (b * b - 4 * a * c))
    q < 0 ∧ q * q + b * q + a * c = 0 ∧ unitRoot a b c = min (max (c / q) 0) 1 := by
  have above := abs_lt_root (b := b) gap
  have square := Real.mul_self_sqrt (discriminant_nonneg (b := b) gap)
  rw [abs_of_nonneg upward] at above
  have negative : -(1 / 2) * (b + Real.sqrt (b * b - 4 * a * c)) < 0 := by linarith
  refine ⟨negative, by linarith, ?_⟩
  simp only [unitRoot, smaller_eq, larger_eq, four_eq, half_eq,
    max_eq_left (discriminant_nonneg gap), if_pos upward]
  congr 2
  exact if_neg fun zero => negative.ne (of_decide_eq_true zero)

theorem unitRoot_of_neg (gap : a * c < 0) (downward : b < 0) :
    let q := -(1 / 2) * (b - Real.sqrt (b * b - 4 * a * c))
    0 < q ∧ q * q + b * q + a * c = 0 ∧ unitRoot a b c = min (max (q / a) 0) 1 := by
  have above := abs_lt_root (b := b) gap
  have square := Real.mul_self_sqrt (discriminant_nonneg (b := b) gap)
  rw [abs_of_neg downward] at above
  refine ⟨by linarith, by linarith, ?_⟩
  simp only [unitRoot, smaller_eq, larger_eq, four_eq, half_eq,
    max_eq_left (discriminant_nonneg gap), if_neg downward.not_ge]
  rfl

theorem unitRoot_eq (ha : 0 < a) (hc : c < 0) :
    ∃ r > 0, a * (r * r) + b * r + c = 0 ∧ unitRoot a b c = min r 1 := by
  have gap : a * c < 0 := mul_neg_of_pos_of_neg ha hc
  -- The other root is negative: it is `q / a` in the first case and `c / q` in the second.
  rcases le_or_gt 0 b with upward | downward
  · obtain ⟨negative, vieta, met⟩ := unitRoot_of_nonneg gap upward
    generalize -(1 / 2) * (b + Real.sqrt (b * b - 4 * a * c)) = q at negative vieta met
    have positive : 0 < c / q := div_pos_of_neg_of_neg hc negative
    refine ⟨c / q, positive, ?_, by rw [met, max_eq_left positive.le]⟩
    have nonzero : q ≠ 0 := negative.ne
    calc a * (c / q * (c / q)) + b * (c / q) + c = c / (q * q) * (q * q + b * q + a * c) := by
          field_simp
          ring
      _ = 0 := by rw [vieta, mul_zero]
  · obtain ⟨numerator, vieta, met⟩ := unitRoot_of_neg gap downward
    generalize -(1 / 2) * (b - Real.sqrt (b * b - 4 * a * c)) = q at numerator vieta met
    have positive : 0 < q / a := div_pos numerator ha
    refine ⟨q / a, positive, ?_, by rw [met, max_eq_left positive.le]⟩
    calc a * (q / a * (q / a)) + b * (q / a) + c = (q * q + b * q + a * c) / a := by
          field_simp
      _ = 0 := by rw [vieta, zero_div]

end Root

theorem unitRoot_mem (a b c : ℝ) : 0 ≤ unitRoot a b c ∧ unitRoot a b c ≤ 1 := by
  simp only [unitRoot, smaller_eq, larger_eq]
  exact ⟨le_min (le_max_right _ _) zero_le_one, min_le_right _ _⟩

theorem doglegTau_mem (start diff d : Vec ℝ n) (delta : ℝ) :
    0 ≤ doglegTau start diff d delta ∧ doglegTau start diff d delta ≤ 1 := by
  rw [doglegTau]
  split
  · exact ⟨le_refl 0, zero_le_one⟩
  · exact unitRoot_mem _ _ _

theorem weightedNorm_add_still {start diff d : Vec ℝ n} (still : scaled d diff = 0) (t : ℝ) :
    weightedNorm d (start + Vec.scale t diff) = weightedNorm d start := by
  have same : scaled d (start + Vec.scale t diff) = scaled d start := by
    refine ext_get fun i => ?_
    rw [scaled_add, scaled_scale, still, add_get, scale_get, zero_get, mul_zero, add_zero]
  rw [weightedNorm_eq, same, ← weightedNorm_eq]

theorem doglegTau_of_still {diff d : Vec ℝ n} (still : scaled d diff = 0) (start : Vec ℝ n)
    (delta : ℝ) : doglegTau start diff d delta = 0 := by
  rw [doglegTau]
  refine if_pos (decide_eq_true ?_)
  rw [weightedDot_eq, still, dot_zero_right]

theorem doglegTau_of_moves {diff d : Vec ℝ n} (moves : scaled d diff ≠ 0) (start : Vec ℝ n)
    (delta : ℝ) : doglegTau start diff d delta =
      unitRoot (weightedDot d diff diff) (2 * weightedDot d start diff)
        (weightedDot d start start - delta * delta) := by
  rw [doglegTau, two_eq]
  exact if_neg fun zero => (weightedDot_self_pos moves).ne' (of_decide_eq_true zero)

theorem doglegTau_eq {start diff d : Vec ℝ n} {delta : ℝ} (moves : scaled d diff ≠ 0)
    (inside : weightedNorm d start < delta) :
    ∃ r > 0, doglegTau start diff d delta = min r 1 ∧
      weightedNorm d (start + Vec.scale r diff) = delta ∧
      ∀ t ≥ 0, weightedNorm d (start + Vec.scale t diff) ≤ delta ↔ t ≤ r := by
  have positive : 0 < delta := (weightedNorm_nonneg d start).trans_lt inside
  have below : weightedDot d start start - delta * delta < 0 :=
    sub_neg.mpr ((weightedNorm_lt_iff positive.le).mp inside)
  have length : 0 < weightedDot d diff diff := weightedDot_self_pos moves
  obtain ⟨r, hr, root, met⟩ := unitRoot_eq (b := 2 * weightedDot d start diff) length below
  refine ⟨r, hr, (doglegTau_of_moves moves start delta).trans met, ?_, fun t ht => ?_⟩
  · refine (mul_self_inj (weightedNorm_nonneg _ _) positive.le).mp ?_
    rw [weightedNorm_sq, weightedDot_along]
    linarith
  · rw [weightedNorm_le_iff positive.le, weightedDot_along,
      ← parabola_nonpos_iff length.le below hr root ht]
    constructor <;> intro bound <;> linarith

theorem doglegTau_inside {start diff d : Vec ℝ n} {delta : ℝ}
    (inside : weightedNorm d start < delta) :
    weightedNorm d (start + Vec.scale (doglegTau start diff d delta) diff) ≤ delta := by
  by_cases still : scaled d diff = 0
  · rw [weightedNorm_add_still still]
    exact inside.le
  · obtain ⟨r, hr, met, _, within⟩ := doglegTau_eq still inside
    rw [met]
    exact (within _ (le_min hr.le zero_le_one)).mpr (min_le_left r 1)

theorem doglegTau_boundary {start diff d : Vec ℝ n} {delta : ℝ}
    (inside : weightedNorm d start < delta) (beyond : delta ≤ weightedNorm d (start + diff)) :
    weightedNorm d (start + Vec.scale (doglegTau start diff d delta) diff) = delta := by
  have whole : start + Vec.scale 1 diff = start + diff := by
    refine ext_get fun i => ?_
    rw [add_get, add_get, scale_get, one_mul]
  rw [← whole] at beyond
  by_cases still : scaled d diff = 0
  · rw [weightedNorm_add_still still] at beyond
    exact absurd inside beyond.not_gt
  · obtain ⟨r, hr, met, boundary, within⟩ := doglegTau_eq still inside
    have one := within 1 zero_le_one
    rw [met]
    rcases le_or_gt 1 r with late | early
    · rw [min_eq_right late]
      exact (one.mpr late).antisymm beyond
    · rw [min_eq_left early.le, boundary]

theorem gaussNewtonStep_eq_some {jac : Mat ℝ n n} {fx p : Vec ℝ n} :
    gaussNewtonStep jac fx = some p ↔ Regular jac ∧ jac.mulVec p = -fx := by
  rw [gaussNewtonStep, Option.filter_eq_some_iff, solve_eq_some]
  exact and_iff_left (vec_allFinite p)

theorem gaussNewtonStep_solves (jac : Mat ℝ n n) (fx : Vec ℝ n) :
    ∀ p, gaussNewtonStep jac fx = some p → jac.mulVec p = -fx :=
  fun _ found => (gaussNewtonStep_eq_some.mp found).2

section Gradient

variable (jac : Mat ℝ m n) (fx : Vec ℝ m) (d : Vec ℝ n)

noncomputable def slope : ℝ := weightedNorm d (scaledGradient jac fx d)

noncomputable def bend : ℝ := curvature jac (scaledGradient jac fx d)

noncomputable def reach : ℝ := slope jac fx d * slope jac fx d / bend jac fx d

noncomputable def downhill (t : ℝ) : Vec ℝ n := Vec.scale (-t) (scaledGradient jac fx d)

theorem slope_nonneg : 0 ≤ slope jac fx d := weightedNorm_nonneg d _

theorem bend_nonneg : 0 ≤ bend jac fx d := dot_self_nonneg _

theorem reach_nonneg : 0 ≤ reach jac fx d := div_nonneg (mul_self_nonneg _) (bend_nonneg jac fx d)

theorem scaledGradient_get (j : Fin n) :
    (scaledGradient jac fx d).get j = (jac.tmulVec fx).get j / (d.get j * d.get j) :=
  zipWith_get _ _ _ j

theorem scaled_scaledGradient (j : Fin n) :
    (scaled d (scaledGradient jac fx d)).get j = (jac.tmulVec fx).get j / d.get j := by
  rw [scaled_get, scaledGradient_get]
  by_cases zero : d.get j = 0
  · rw [zero, zero_mul, div_zero]
  · field_simp

variable {jac fx} in
theorem scaledGradient_of_level (level : jac.tmulVec fx = 0) : scaledGradient jac fx d = 0 := by
  refine ext_get fun j => ?_
  rw [scaledGradient_get, level, zero_get, zero_div]

variable {jac fx d} in
theorem slope_eq_zero_iff (weights : ∀ j, 0 < d.get j) :
    slope jac fx d = 0 ↔ jac.tmulVec fx = 0 := by
  constructor
  · intro flat
    rw [slope, ← mul_self_eq_zero, weightedNorm_sq, weightedDot_eq] at flat
    refine ext_get fun j => ?_
    have entry := congrArg (·.get j) (eq_zero_of_dot_self flat)
    simp only [scaled_scaledGradient, zero_get] at entry
    rw [zero_get]
    exact (div_eq_zero_iff.mp entry).resolve_right (weights j).ne'
  · intro level
    rw [slope, scaledGradient_of_level d level, weightedNorm_zero]

variable {jac fx d} in
theorem slope_pos (weights : ∀ j, 0 < d.get j) (gradient : jac.tmulVec fx ≠ 0) :
    0 < slope jac fx d := by
  refine lt_of_le_of_ne (slope_nonneg jac fx d) fun flat => gradient ?_
  exact (slope_eq_zero_iff weights).mp flat.symm

theorem slope_eq : slope jac fx d = Vec.norm (Vector.zipWith (· / ·) (jac.tmulVec fx) d) := by
  rw [slope, weightedNorm_eq]
  refine congrArg Vec.norm (ext_get fun j => ?_)
  rw [scaled_scaledGradient, zipWith_get]

theorem dot_mulVec_scaledGradient :
    fx.dot (jac.mulVec (scaledGradient jac fx d)) = slope jac fx d * slope jac fx d := by
  rw [dot_mulVec, slope, weightedNorm_sq, weightedDot_eq, dot_eq, dot_eq]
  refine sum_congr rfl fun j _ => ?_
  rw [scaled_scaledGradient, scaledGradient_get, div_mul_div_comm, mul_div_assoc]

theorem weightedNorm_downhill {t : ℝ} (nonneg : 0 ≤ t) :
    weightedNorm d (downhill jac fx d t) = t * slope jac fx d := by
  rw [downhill, weightedNorm_scale, abs_neg, abs_of_nonneg nonneg, slope]

theorem cauchyPoint_eq :
    cauchyPoint jac fx d = (scaledGradient jac fx d, downhill jac fx d (reach jac fx d)) := by
  simp only [cauchyPoint]
  split
  · rename_i flat
    have zero : bend jac fx d = 0 := of_decide_eq_true flat
    rw [downhill, reach, zero, div_zero, neg_zero]
    refine Prod.ext rfl (ext_get fun j => ?_)
    rw [scale_get, zero_mul]
    exact zero_get j
  · rfl

variable {delta : ℝ}

theorem weightedNorm_cauchy_lt (positive : 0 < delta)
    (inside : ¬ (delta ≤ weightedNorm d (downhill jac fx d (reach jac fx d)) ∧
      0 < slope jac fx d)) : weightedNorm d (downhill jac fx d (reach jac fx d)) < delta := by
  rcases (slope_nonneg jac fx d).lt_or_eq with steep | level
  · exact not_le.mp fun le => inside ⟨le, steep⟩
  · rw [weightedNorm_downhill jac fx d (reach_nonneg jac fx d), ← level, mul_zero]
    exact positive

/-- Where on the path a step can end. -/
theorem doglegPath_cases (positive : 0 < delta) (full : Option (Vec ℝ n)) :
    let p := (doglegPath full jac fx d delta).p
    let cauchy := downhill jac fx d (reach jac fx d)
    (full = some p ∧ weightedNorm d p ≤ delta) ∨
      (0 < slope jac fx d ∧ delta ≤ weightedNorm d cauchy ∧
        p = downhill jac fx d (delta / slope jac fx d)) ∨
      (weightedNorm d cauchy < delta ∧ full = none ∧ p = cauchy) ∨
      weightedNorm d cauchy < delta ∧ ∃ newton, full = some newton ∧
        p = cauchy + Vec.scale (doglegTau cauchy (newton - cauchy) d delta) (newton - cauchy) := by
  have short := weightedNorm_cauchy_lt jac fx d positive
  -- The branches of the path in its order: the full step, the boundary, and what lies between.
  simp only [doglegPath, cauchyPoint_eq]
  split
  · rename_i p found
    obtain ⟨known, within⟩ := Option.filter_eq_some_iff.mp found
    exact .inl ⟨known, of_decide_eq_true within⟩
  · split
    · rename_i outside
      exact .inr (.inl ⟨outside.2, outside.1, rfl⟩)
    · rename_i inside
      cases full with
      | none => exact .inr (.inr (.inl ⟨short inside, rfl, rfl⟩))
      | some newton => exact .inr (.inr (.inr ⟨short inside, newton, rfl, rfl⟩))

theorem weightedNorm_doglegPath_le (positive : 0 < delta) (full : Option (Vec ℝ n)) :
    weightedNorm d (doglegPath full jac fx d delta).p ≤ delta := by
  rcases doglegPath_cases jac fx d positive full with
    newton | ⟨steep, _, boundary⟩ | ⟨inside, _, cauchy⟩ | ⟨inside, newton, _, between⟩
  · exact newton.2
  · rw [boundary, weightedNorm_downhill jac fx d (div_pos positive steep).le,
      div_mul_cancel₀ _ steep.ne']
  · rw [cauchy]
    exact inside.le
  · rw [between]
    exact doglegTau_inside inside

theorem doglegPath_some (positive : 0 < delta) (newton : Vec ℝ n) :
    let step := doglegPath (some newton) jac fx d delta
    (weightedNorm d newton ≤ delta ∧ step.kind = .newton ∧ step.p = newton) ∨
      delta < weightedNorm d newton ∧ step.kind ≠ .newton ∧ weightedNorm d step.p = delta := by
  simp only [doglegPath, cauchyPoint_eq, Option.filter_some]
  by_cases within : weightedNorm d newton ≤ delta
  · rw [if_pos (decide_eq_true within)]
    exact .inl ⟨within, rfl, rfl⟩
  · rw [if_neg (by simpa using within)]
    refine .inr ⟨not_le.mp within, ?_⟩
    dsimp only
    split
    · rename_i outside
      have steep : 0 < slope jac fx d := outside.2
      refine ⟨by simp, (weightedNorm_downhill jac fx d (div_pos positive steep).le).trans ?_⟩
      exact div_mul_cancel₀ _ steep.ne'
    · rename_i inside
      have target (u : Vec ℝ n) : u + (newton - u) = newton := by
        refine ext_get fun i => ?_
        rw [add_get, sub_get, add_sub_cancel]
      refine ⟨by simp, doglegTau_boundary (weightedNorm_cauchy_lt jac fx d positive inside) ?_⟩
      rw [target]
      exact (not_le.mp within).le

theorem doglegPath_none (positive : 0 < delta) :
    let p := (doglegPath none jac fx d delta).p
    (∃ t ≥ 0, p = downhill jac fx d t) ∧
      weightedNorm d p = min delta (weightedNorm d (downhill jac fx d (reach jac fx d))) := by
  rcases doglegPath_cases jac fx d positive none with
    ⟨known, _⟩ | ⟨steep, outside, boundary⟩ | ⟨inside, _, cauchy⟩ | ⟨_, _, known, _⟩
  · cases known
  · have share : 0 ≤ delta / slope jac fx d := (div_pos positive steep).le
    refine ⟨⟨_, share, boundary⟩, ?_⟩
    rw [boundary, weightedNorm_downhill jac fx d share, div_mul_cancel₀ _ steep.ne',
      min_eq_left outside]
  · refine ⟨⟨_, reach_nonneg jac fx d, cauchy⟩, ?_⟩
    rw [cauchy, min_eq_right inside.le]
  · cases known

end Gradient

end RootFinding.Exact
