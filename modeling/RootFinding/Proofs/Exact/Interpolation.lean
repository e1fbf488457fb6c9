import RootFinding.Proofs.Exact.Vec
import RootFinding.LineSearch.Backtracking

namespace RootFinding.Exact

open Filter Polynomial Topology

variable {phi0 slope c1 : ℝ} {t older newer : Trial ℝ} {q : Polynomial ℝ}

/-- How far a trial lies above the tangent at zero. -/
noncomputable def excess (phi0 slope : ℝ) (t : Trial ℝ) : ℝ := t.phi - phi0 - slope * t.alpha

theorem lt_excess (above : phi0 + c1 * t.alpha * slope < t.phi) :
    (1 - c1) * -slope * t.alpha < excess phi0 slope t := by
  rw [excess]
  linarith

theorem excess_pos (share : c1 < 1) (downhill : slope < 0) (positive : 0 < t.alpha)
    (above : phi0 + c1 * t.alpha * slope < t.phi) : 0 < excess phi0 slope t :=
  (mul_pos (mul_pos (sub_pos.mpr share) (neg_pos.mpr downhill)) positive).trans (lt_excess above)

/-- A polynomial, of the least degree that allows for it, that agrees with a merit function in value
and slope at zero and in the values at some trials. -/
structure Interpolates (phi0 slope : ℝ) (trials : List (Trial ℝ)) (q : Polynomial ℝ) : Prop where
  degree : q.natDegree ≤ trials.length + 1
  value : q.eval 0 = phi0
  slope : q.derivative.eval 0 = slope
  passes : ∀ t ∈ trials, q.eval t.alpha = t.phi

theorem eval_toPoly (p : Cubic ℝ) (x : ℝ) :
    p.toPoly.eval x = p.a * x ^ 3 + p.b * x ^ 2 + p.c * x + p.d := by
  simp [Cubic.toPoly]

theorem eval_derivative_toPoly (p : Cubic ℝ) (x : ℝ) :
    p.toPoly.derivative.eval x = 3 * p.a * x ^ 2 + 2 * p.b * x + p.c := by
  simp [Cubic.toPoly]
  ring

theorem eq_toPoly (degree : q.natDegree ≤ 3) :
    q = Cubic.toPoly ⟨q.coeff 3, q.coeff 2, q.derivative.eval 0, q.eval 0⟩ := by
  have same := congrArg Subtype.val
    (Cubic.equiv.right_inv ⟨q, natDegree_le_iff_degree_le.mp degree⟩)
  rw [← coeff_zero_eq_eval_zero, ← coeff_zero_eq_eval_zero, coeff_derivative, Nat.cast_zero,
    zero_add, zero_add, mul_one]
  exact same.symm

theorem passes_iff {p : Cubic ℝ} :
    p.toPoly.eval t.alpha = t.phi ↔
      p.a * t.alpha ^ 3 + p.b * t.alpha ^ 2 = excess p.d p.c t := by
  rw [eval_toPoly, excess]
  constructor <;> intro same <;> linarith

theorem interpolates_single (nonzero : t.alpha ≠ 0) : Interpolates phi0 slope [t] q ↔
    q = Cubic.toPoly ⟨0, excess phi0 slope t / t.alpha ^ 2, slope, phi0⟩ := by
  have square : t.alpha ^ 2 ≠ 0 := pow_ne_zero 2 nonzero
  constructor
  · rintro ⟨degree, value, tangent, passes⟩
    have top : q.coeff 3 = 0 := coeff_eq_zero_of_natDegree_lt (degree.trans_lt (by norm_num))
    have form := eq_toPoly (degree.trans (by norm_num))
    rw [value, tangent, top] at form
    have here := passes t List.mem_cons_self
    rw [form, passes_iff, zero_mul, zero_add] at here
    rw [form, ← here, mul_div_cancel_right₀ _ square]
  · rintro rfl
    refine ⟨Cubic.natDegree_of_a_eq_zero', ?_, ?_, List.forall_mem_singleton.mpr ?_⟩
    · rw [eval_toPoly]
      ring
    · rw [eval_derivative_toPoly]
      ring
    · rw [passes_iff, zero_mul, zero_add, div_mul_cancel₀ _ square]

noncomputable def interpolant (phi0 slope : ℝ) (older newer : Trial ℝ) : Cubic ℝ :=
  let a0 := older.alpha
  let a1 := newer.alpha
  let r1 := excess phi0 slope newer
  let r0 := excess phi0 slope older
  let div := 1 / (a0 * a0 * a1 * a1 * (a1 - a0))
  ⟨(a0 * a0 * r1 - a1 * a1 * r0) * div, (-a0 ^ 3 * r1 + a1 ^ 3 * r0) * div, slope, phi0⟩

theorem eq_interpolant_iff {p : Cubic ℝ} (h0 : older.alpha ≠ 0) (h1 : newer.alpha ≠ 0)
    (apart : older.alpha ≠ newer.alpha) : p = interpolant p.d p.c older newer ↔
      p.toPoly.eval older.alpha = older.phi ∧ p.toPoly.eval newer.alpha = newer.phi := by
  have width : newer.alpha - older.alpha ≠ 0 := sub_ne_zero.mpr apart.symm
  rw [passes_iff, passes_iff, Cubic.ext_iff]
  simp only [interpolant, and_true]
  constructor
  · rintro ⟨top, second⟩
    rw [top, second]
    constructor <;> field_simp <;> ring
  · rintro ⟨before, here⟩
    rw [← before, ← here]
    constructor <;> field_simp <;> ring

theorem interpolates_pair (h0 : older.alpha ≠ 0) (h1 : newer.alpha ≠ 0)
    (apart : older.alpha ≠ newer.alpha) : Interpolates phi0 slope [older, newer] q ↔
      q = (interpolant phi0 slope older newer).toPoly := by
  constructor
  · rintro ⟨degree, value, tangent, passes⟩
    have form := eq_toPoly degree
    rw [value, tangent] at form
    have before := passes older (by simp)
    have here := passes newer (by simp)
    rw [form] at before here
    rw [form]
    exact congrArg _ ((eq_interpolant_iff h0 h1 apart).mpr ⟨before, here⟩)
  · rintro rfl
    obtain ⟨before, here⟩ := (eq_interpolant_iff (p := interpolant phi0 slope older newer)
      h0 h1 apart).mp rfl
    refine ⟨natDegree_cubic_le, ?_, ?_, ?_⟩
    · rw [eval_toPoly, interpolant]
      ring
    · rw [eval_derivative_toPoly, interpolant]
      ring
    · simp only [List.forall_mem_cons]
      exact ⟨before, here, fun _ none => nomatch none⟩

section Minimum

/-- Where the derivative vanishes, a cubic departs from its value by the squared distance times a
factor that is close to half of the second derivative there. -/
theorem eval_toPoly_sub (p : Cubic ℝ) (x y : ℝ) :
    p.toPoly.eval y - p.toPoly.eval x = (y - x) * p.toPoly.derivative.eval x +
      (y - x) ^ 2 * (3 * p.a * x + p.b + p.a * (y - x)) := by
  rw [eval_toPoly, eval_toPoly, eval_derivative_toPoly]
  ring

variable {p : Cubic ℝ} {x : ℝ}

theorem tendsto_bend : Tendsto (fun y => 3 * p.a * x + p.b + p.a * (y - x)) (𝓝 x)
    (𝓝 (3 * p.a * x + p.b)) := by
  have limit : Continuous fun y => 3 * p.a * x + p.b + p.a * (y - x) := by fun_prop
  simpa using limit.tendsto x

/-- A local minimum of a cubic is a point where it is level and bends upwards. -/
theorem isLocalMin_toPoly_iff (bends : 3 * p.a * x + p.b ≠ 0) :
    IsLocalMin (fun y => p.toPoly.eval y) x ↔
      p.toPoly.derivative.eval x = 0 ∧ 0 < 3 * p.a * x + p.b := by
  constructor
  · intro least
    have level := least.hasDerivAt_eq_zero (p.toPoly.hasDerivAt x)
    refine ⟨level, lt_of_le_of_ne ?_ bends.symm⟩
    refine ge_of_tendsto (tendsto_bend.mono_left nhdsWithin_le_nhds : Tendsto _ (𝓝[≠] x) _) ?_
    filter_upwards [nhdsWithin_le_nhds least, self_mem_nhdsWithin] with y above apart
    have change := eval_toPoly_sub p x y
    rw [level, mul_zero, zero_add] at change
    rw [← mul_nonneg_iff_of_pos_left (sq_pos_iff.mpr (sub_ne_zero.mpr apart)), ← change]
    exact sub_nonneg.mpr above
  · rintro ⟨level, upward⟩
    filter_upwards [tendsto_bend.eventually (lt_mem_nhds upward)] with y near
    have change := eval_toPoly_sub p x y
    rw [level, mul_zero, zero_add] at change
    exact sub_nonneg.mp (change.symm ▸ mul_nonneg (sq_nonneg (y - x)) near.le)

theorem isLocalMin_toPoly_iff_eq (nonzero : p.a ≠ 0)
    (discriminant : 0 < p.b * p.b - 3 * p.a * p.c) :
    IsLocalMin (fun y => p.toPoly.eval y) x ↔
      x = (-p.b + √(p.b * p.b - 3 * p.a * p.c)) / (3 * p.a) := by
  have root := Real.sqrt_pos.mpr discriminant
  have square := Real.mul_self_sqrt discriminant.le
  have three : 3 * p.a ≠ 0 := mul_ne_zero three_ne_zero nonzero
  have level : p.toPoly.derivative.eval x = 0 ↔
      (3 * p.a * x + p.b) * (3 * p.a * x + p.b) = p.b * p.b - 3 * p.a * p.c := by
    rw [eval_derivative_toPoly, ← mul_right_inj' three, mul_zero]
    constructor <;> intro same <;> linarith
  rw [eq_div_iff three]
  constructor
  · intro least
    have flat := level.mp (least.hasDerivAt_eq_zero (p.toPoly.hasDerivAt x))
    have bends : 3 * p.a * x + p.b ≠ 0 := fun zero => by
      rw [zero, mul_zero] at flat
      exact discriminant.ne flat
    obtain ⟨_, upward⟩ := (isLocalMin_toPoly_iff bends).mp least
    rw [← square] at flat
    have same := (mul_self_inj upward.le root.le).mp flat
    linarith
  · intro same
    have bend : 3 * p.a * x + p.b = √(p.b * p.b - 3 * p.a * p.c) := by linarith
    have upward : 0 < 3 * p.a * x + p.b := by rwa [bend]
    refine (isLocalMin_toPoly_iff upward.ne').mpr ⟨level.mpr ?_, upward⟩
    rw [bend, square]

end Minimum

section Quadratic

theorem quadraticStep_eq (b : Backtracking ℝ) (above : 0 < excess phi0 slope t) :
    b.quadraticStep phi0 slope t = -(slope * t.alpha * t.alpha) / (2 * excess phi0 slope t) := by
  rw [Backtracking.quadraticStep, two_eq]
  exact if_neg fun zero => (mul_pos two_pos above).ne' (of_decide_eq_true zero)

theorem quadraticStep_least (b : Backtracking ℝ) (positive : 0 < t.alpha)
    (above : 0 < excess phi0 slope t) (fits : Interpolates phi0 slope [t] q) {x : ℝ}
    (other : x ≠ b.quadraticStep phi0 slope t) :
    q.eval (b.quadraticStep phi0 slope t) < q.eval x := by
  have step := quadraticStep_eq b above
  generalize b.quadraticStep phi0 slope t = s at step other ⊢
  rw [interpolates_single positive.ne'] at fits
  have bend : 0 < excess phi0 slope t / t.alpha ^ 2 := div_pos above (pow_pos positive 2)
  have level : slope = -2 * (excess phi0 slope t / t.alpha ^ 2) * s := by
    rw [step]
    field_simp
  generalize excess phi0 slope t / t.alpha ^ 2 = k at fits bend level
  have gap : q.eval x - q.eval s = k * (x - s) ^ 2 := by
    rw [fits, eval_toPoly, eval_toPoly, level]
    ring
  rw [← sub_pos, gap]
  exact mul_pos bend (sq_pos_iff.mpr (sub_ne_zero.mpr other))

end Quadratic

section Cubic

theorem cubicProposal_eq (h0 : older.alpha ≠ 0) (h1 : newer.alpha ≠ 0)
    (apart : older.alpha ≠ newer.alpha) :
    let p := interpolant phi0 slope older newer
    cubicProposal phi0 slope older newer = .ok (
      if |p.a| ≤ Scalar.epsilon then
        if p.b = 0 then none else some (-slope / (2 * p.b))
      else some ((-p.b + √(max (p.b * p.b - 3 * p.a * slope) 0)) / (3 * p.a))) := by
  have divisor : older.alpha * older.alpha * newer.alpha * newer.alpha *
      (newer.alpha - older.alpha) ≠ 0 := by
    simp only [mul_ne_zero_iff, sub_ne_zero]
    exact ⟨⟨⟨⟨h0, h0⟩, h1⟩, h1⟩, apart.symm⟩
  have divide (u : ℝ) {v : ℝ} (nonzero : v ≠ 0) : Arithmetic.divide u v = .ok (u / v) :=
    if_neg fun zero => nonzero (of_decide_eq_true zero)
  have power (u : ℝ) : Arithmetic.power u 3 = .ok (u ^ 3) := rfl
  have usable : ¬ (older.alpha == 0 || newer.alpha == 0 || older.alpha == newer.alpha) = true := by
    simp [beq_eq, h0, h1, apart]
  simp only [cubicProposal]
  rw [if_neg usable]
  simp only [divide 1 divisor, power, Bind.bind, Except.bind, larger_eq, beq_eq, decide_eq_true_eq,
    two_eq, three_eq]
  by_cases flat : |(interpolant phi0 slope older newer).a| ≤ Scalar.epsilon
  · rw [if_pos flat]
    exact if_pos flat
  · rw [if_neg flat]
    exact if_neg flat

theorem cubicProposal_of_tangent (h0 : older.alpha ≠ 0) (h1 : newer.alpha ≠ 0)
    (apart : older.alpha ≠ newer.alpha) (before : excess phi0 slope older = 0)
    (here : excess phi0 slope newer = 0) : cubicProposal phi0 slope older newer = .ok none := by
  have top : (interpolant phi0 slope older newer).a = 0 := by
    simp only [interpolant, before, here, mul_zero, sub_zero, zero_mul]
  have second : (interpolant phi0 slope older newer).b = 0 := by
    simp only [interpolant, before, here, mul_zero, add_zero, zero_mul]
  have flat : |(0 : ℝ)| ≤ Scalar.epsilon := by
    norm_num [Scalar.epsilon]
  rw [cubicProposal_eq h0 h1 apart, top, second, if_pos flat, if_pos rfl]

theorem cubicProposal_ok (phi0 slope : ℝ) (older newer : Trial ℝ) :
    ∃ step, cubicProposal phi0 slope older newer = .ok step := by
  by_cases usable : older.alpha ≠ 0 ∧ newer.alpha ≠ 0 ∧ older.alpha ≠ newer.alpha
  · obtain ⟨h0, h1, apart⟩ := usable
    exact ⟨_, cubicProposal_eq h0 h1 apart⟩
  · refine ⟨none, ?_⟩
    simp only [cubicProposal]
    refine if_pos ?_
    simp only [beq_eq, Bool.or_eq_true, decide_eq_true_eq]
    tauto

/-- A trial above an Armijo line for no more than a quarter of the slope keeps the cubic from being
monotone. -/
theorem discriminant_pos {p : Cubic ℝ} (downhill : p.c < 0) (quarter : c1 ≤ 1 / 4)
    (positive : 0 < t.alpha) (above : p.d + c1 * t.alpha * p.c < t.phi)
    (passes : p.toPoly.eval t.alpha = t.phi) (nonzero : p.a ≠ 0) :
    0 < p.b * p.b - 3 * p.a * p.c ∧ 0 < p.b + √(p.b * p.b - 3 * p.a * p.c) := by
  rcases nonzero.lt_or_gt with downward | upward
  · -- The trial is above the line only if the quadratic term outweighs the others.
    have lifted : 3 / 4 * -p.c - p.a * t.alpha ^ 2 < p.b * t.alpha := by
      have steep := lt_excess above
      rw [← passes_iff.mp passes] at steep
      have share : 3 / 4 * -p.c ≤ (1 - c1) * -p.c :=
        mul_le_mul_of_nonneg_right (by linarith) (neg_pos.mpr downhill).le
      have shorter : (1 - c1) * -p.c * t.alpha < (p.a * t.alpha ^ 2 + p.b * t.alpha) * t.alpha := by
        linarith
      have divided := lt_of_mul_lt_mul_right shorter positive.le
      linarith
    have curved : 0 < -p.a * t.alpha ^ 2 := mul_pos (neg_pos.mpr downward) (pow_pos positive 2)
    have rising : 0 < p.b := pos_of_mul_pos_left (by linarith) positive.le
    -- Both terms on the left are positive, and their mean is no less than their geometric mean.
    have squares := mul_self_lt_mul_self (by linarith) lifted
    have mean := mul_self_nonneg (3 / 4 * -p.c + p.a * t.alpha ^ 2)
    have scaledUp : 0 < (p.b * p.b - 3 * p.a * p.c) * t.alpha ^ 2 := by linarith
    have discriminant := pos_of_mul_pos_left scaledUp (sq_nonneg t.alpha)
    exact ⟨discriminant, add_pos_of_pos_of_nonneg rising (Real.sqrt_nonneg _)⟩
  · have term : 0 < 3 * p.a * -p.c := mul_pos (mul_pos three_pos upward) (neg_pos.mpr downhill)
    have wider : |p.b| < √(p.b * p.b - 3 * p.a * p.c) := by
      refine Real.lt_sqrt_of_sq_lt ?_
      rw [sq_abs]
      linarith
    refine ⟨by linarith [mul_self_nonneg p.b], ?_⟩
    linarith [neg_abs_le p.b]

theorem lowPoint_pos {p : Cubic ℝ} (downhill : p.c < 0) (nonzero : p.a ≠ 0)
    (discriminant : 0 < p.b * p.b - 3 * p.a * p.c)
    (beyond : 0 < p.b + √(p.b * p.b - 3 * p.a * p.c)) :
    0 < (-p.b + √(p.b * p.b - 3 * p.a * p.c)) / (3 * p.a) := by
  have square := Real.mul_self_sqrt discriminant.le
  have ratio : (-p.b + √(p.b * p.b - 3 * p.a * p.c)) / (3 * p.a) =
      -p.c / (p.b + √(p.b * p.b - 3 * p.a * p.c)) := by
    rw [div_eq_div_iff (mul_ne_zero three_ne_zero nonzero) beyond.ne']
    linarith
  rw [ratio]
  exact div_pos (neg_pos.mpr downhill) beyond

end Cubic

end RootFinding.Exact
