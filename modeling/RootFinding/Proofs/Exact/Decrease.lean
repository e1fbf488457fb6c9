import RootFinding.Proofs.Exact.Dogleg
import RootFinding.TrustRegion.Radius

namespace RootFinding.Exact

open Finset

variable {m n : Nat} {jac : Mat ℝ m n} {fx : Vec ℝ m} {d : Vec ℝ n} {delta : ℝ}

noncomputable def predicted (jac : Mat ℝ m n) (fx : Vec ℝ m) (p : Vec ℝ n) : ℝ :=
  let model := fx + jac.mulVec p
  model.dot model

theorem slope_sq : slope jac fx d * slope jac fx d = reach jac fx d * bend jac fx d := by
  by_cases flat : bend jac fx d = 0
  · have constant : jac.mulVec (scaledGradient jac fx d) = 0 := eq_zero_of_dot_self flat
    rw [← dot_mulVec_scaledGradient, constant, dot_zero_right, flat, mul_zero]
  · rw [reach, div_mul_cancel₀ _ flat]

theorem predicted_downhill (t : ℝ) :
    predicted jac fx (downhill jac fx d t) =
      fx.dot fx - 2 * t * (slope jac fx d * slope jac fx d) + t * t * bend jac fx d := by
  rw [predicted, downhill, mulVec_scale, dot_add_self, dot_scale_right, dot_scale_self,
    dot_mulVec_scaledGradient, bend, curvature]
  ring

theorem predicted_downhill_le {s t : ℝ}
    (nearer : |s - reach jac fx d| ≤ |t - reach jac fx d|) :
    predicted jac fx (downhill jac fx d s) ≤ predicted jac fx (downhill jac fx d t) := by
  have squares := mul_le_mul_of_nonneg_left (sq_le_sq.mpr nearer) (bend_nonneg jac fx d)
  rw [predicted_downhill, predicted_downhill, slope_sq]
  linarith

theorem predicted_between {cauchy newton : Vec ℝ n} (solves : jac.mulVec newton = -fx) (t : ℝ) :
    predicted jac fx (cauchy + Vec.scale t (newton - cauchy)) =
      (1 - t) * (1 - t) * predicted jac fx cauchy := by
  have shrinks : fx + jac.mulVec (cauchy + Vec.scale t (newton - cauchy)) =
      Vec.scale (1 - t) (fx + jac.mulVec cauchy) := by
    rw [mulVec_add, mulVec_scale, mulVec_sub, solves]
    refine ext_get fun i => ?_
    simp only [scale_get, add_get, sub_get, neg_get]
    ring
  rw [predicted, shrinks, dot_scale_self, predicted]

theorem predicted_newton {newton : Vec ℝ n} (solves : jac.mulVec newton = -fx) :
    predicted jac fx newton = 0 := by
  have vanishes : fx + jac.mulVec newton = 0 := by
    rw [solves]
    refine ext_get fun i => ?_
    rw [add_get, neg_get, zero_get, add_neg_cancel]
  rw [predicted, vanishes, dot_zero_right]

theorem predicted_nonneg (p : Vec ℝ n) : 0 ≤ predicted jac fx p := dot_self_nonneg _

theorem predicted_doglegPath_le (positive : 0 < delta) {full : Option (Vec ℝ n)}
    (solves : ∀ newton, full = some newton → jac.mulVec newton = -fx) {t : ℝ}
    (within : t * slope jac fx d ≤ delta) :
    predicted jac fx (doglegPath full jac fx d delta).p ≤
      predicted jac fx (downhill jac fx d t) := by
  have best : predicted jac fx (downhill jac fx d (reach jac fx d)) ≤
      predicted jac fx (downhill jac fx d t) := by
    refine predicted_downhill_le ?_
    rw [sub_self, abs_zero]
    exact abs_nonneg _
  rcases doglegPath_cases jac fx d positive full with
    ⟨known, _⟩ | ⟨steep, outside, boundary⟩ | ⟨_, _, cauchy⟩ | ⟨_, newton, known, between⟩
  · rw [predicted_newton (solves _ known)]
    exact predicted_nonneg _
  · rw [boundary]
    rw [weightedNorm_downhill jac fx d (reach_nonneg jac fx d), ← div_le_iff₀ steep] at outside
    have before : t ≤ delta / slope jac fx d := (le_div_iff₀ steep).mpr within
    refine predicted_downhill_le ?_
    rw [abs_of_nonpos (by linarith), abs_of_nonpos (by linarith)]
    linarith
  · rw [cauchy]
    exact best
  · rw [between, predicted_between (solves newton known)]
    obtain ⟨least, most⟩ := doglegTau_mem (downhill jac fx d (reach jac fx d))
      (newton - downhill jac fx d (reach jac fx d)) d delta
    refine (mul_le_of_le_one_left (predicted_nonneg _) ?_).trans best
    exact mul_le_one₀ (by linarith) (by linarith) (by linarith)

theorem predicted_doglegPath_lt (positive : 0 < delta) {full : Option (Vec ℝ n)}
    (solves : ∀ newton, full = some newton → jac.mulVec newton = -fx)
    (steep : 0 < slope jac fx d) :
    predicted jac fx (doglegPath full jac fx d delta).p < fx.dot fx := by
  have square := mul_pos steep steep
  have bent : 0 < bend jac fx d := by
    refine lt_of_le_of_ne (bend_nonneg jac fx d) fun level => ?_
    rw [slope_sq, ← level, mul_zero] at square
    exact lt_irrefl 0 square
  have reaches : 0 < reach jac fx d := div_pos square bent
  -- The step is no worse than a point of the gradient inside the region, before the Cauchy point.
  obtain ⟨t, known⟩ : ∃ t, t = min (delta / slope jac fx d) (reach jac fx d) := ⟨_, rfl⟩
  have forward : 0 < t := known ▸ lt_min (div_pos positive steep) reaches
  have within : t * slope jac fx d ≤ delta := by
    rw [← le_div_iff₀ steep, known]
    exact min_le_left _ _
  have early : t * bend jac fx d ≤ slope jac fx d * slope jac fx d := by
    rw [slope_sq, known]
    exact mul_le_mul_of_nonneg_right (min_le_right _ _) bent.le
  refine (predicted_doglegPath_le positive solves within).trans_lt ?_
  rw [predicted_downhill]
  have gain := mul_le_mul_of_nonneg_left early forward.le
  have promised := mul_pos forward square
  linarith

theorem bend_le (fits : Fits d jac) :
    bend jac fx d ≤ n * (slope jac fx d * slope jac fx d) := by
  let g := scaledGradient jac fx d
  have column (j : Fin n) :
      ∑ i, (jac.get i).get j * (jac.get i).get j ≤ d.get j * d.get j := by
    have norm := mul_self_le_mul_self (norm_nonneg _) (fits.column j)
    rw [norm_sq, dot_eq] at norm
    simpa only [column_get] using norm
  -- Cauchy and Schwarz for each row, and the columns are summed only afterwards.
  have row (i : Fin m) : (jac.mulVec g).get i * (jac.mulVec g).get i ≤
      n * ∑ j, (jac.get i).get j * g.get j * ((jac.get i).get j * g.get j) := by
    have spread := sq_sum_le_card_mul_sum_sq (s := univ)
      (f := fun j : Fin n => (jac.get i).get j * g.get j)
    rw [mulVec_get, dot_eq, ← sq]
    simpa only [card_univ, Fintype.card_fin, sq] using spread
  calc bend jac fx d = ∑ i, (jac.mulVec g).get i * (jac.mulVec g).get i := dot_eq _ _
    _ ≤ ∑ i, n * ∑ j, (jac.get i).get j * g.get j * ((jac.get i).get j * g.get j) :=
      sum_le_sum fun i _ => row i
    _ = n * ∑ j, (∑ i, (jac.get i).get j * (jac.get i).get j) * (g.get j * g.get j) := by
      rw [← mul_sum, sum_comm]
      simp only [sum_mul]
      refine congrArg _ (sum_congr rfl fun j _ => sum_congr rfl fun i _ => ?_)
      ring
    _ ≤ n * ∑ j, d.get j * d.get j * (g.get j * g.get j) := by
      refine mul_le_mul_of_nonneg_left (sum_le_sum fun j _ => ?_) (Nat.cast_nonneg n)
      exact mul_le_mul_of_nonneg_right (column j) (mul_self_nonneg _)
    _ = n * (slope jac fx d * slope jac fx d) := by
      rw [slope, weightedNorm_sq, weightedDot_eq, dot_eq]
      refine congrArg _ (sum_congr rfl fun j _ => ?_)
      rw [scaled_get]
      ring

theorem le_predicted_decrease (positive : 0 < delta) (fits : Fits d jac)
    {full : Option (Vec ℝ n)} (solves : ∀ newton, full = some newton → jac.mulVec newton = -fx) :
    slope jac fx d * min delta (slope jac fx d / n) ≤
      fx.dot fx - predicted jac fx (doglegPath full jac fx d delta).p := by
  -- The step is compared with the point so far along the gradient: it lies in the region, and the
  -- curvature takes away no more than half of what the slope promises.
  obtain ⟨length, known⟩ : ∃ length, length = min delta (slope jac fx d / n) := ⟨_, rfl⟩
  have short : length ≤ delta := known.trans_le (min_le_left _ _)
  have nonneg : 0 ≤ length := by
    rw [known]
    exact le_min positive.le (div_nonneg (slope_nonneg jac fx d) (Nat.cast_nonneg n))
  rw [← known]
  have shared : n * length ≤ slope jac fx d := by
    rcases n.eq_zero_or_pos with rfl | entries
    · rw [Nat.cast_zero, zero_mul]
      exact slope_nonneg jac fx d
    · rw [mul_comm, known, ← le_div_iff₀ (Nat.cast_pos.mpr entries)]
      exact min_le_right _ _
  rcases (slope_nonneg jac fx d).lt_or_eq with steep | level
  · obtain ⟨t, scaledDown⟩ : ∃ t, t * slope jac fx d = length :=
      ⟨length / slope jac fx d, div_mul_cancel₀ _ steep.ne'⟩
    have best := predicted_doglegPath_le positive solves (scaledDown.trans_le short)
    have curved : t * t * bend jac fx d ≤ slope jac fx d * length :=
      calc t * t * bend jac fx d ≤ t * t * (n * (slope jac fx d * slope jac fx d)) :=
            mul_le_mul_of_nonneg_left (bend_le fits) (mul_self_nonneg t)
        _ = n * (t * slope jac fx d) * (t * slope jac fx d) := by ring
        _ = n * length * length := by rw [scaledDown]
        _ ≤ slope jac fx d * length := mul_le_mul_of_nonneg_right shared nonneg
    have straight : t * (slope jac fx d * slope jac fx d) = slope jac fx d * length := by
      rw [← scaledDown]
      ring
    rw [predicted_downhill] at best
    linarith
  · have best := predicted_doglegPath_le positive solves (t := 0) (by linarith)
    rw [predicted_downhill] at best
    rw [← level] at best ⊢
    linarith

theorem acceptRatio_pos : (0 : ℝ) < acceptRatio := by norm_num [acceptRatio]

/-- A step is taken when the residual falls by a share of what the linear model predicts. -/
theorem decrease_of_taken {k : Nat} {trial : Vec ℝ k} {p : Vec ℝ n}
    (taken : acceptRatio < reductionRatio fx trial (fx + jac.mulVec p)) :
    predicted jac fx p < fx.dot fx ∧
      acceptRatio * (fx.dot fx - predicted jac fx p) < fx.dot fx - trial.dot trial := by
  rw [reductionRatio] at taken
  split at taken
  · rename_i promised
    exact ⟨sub_pos.mp promised, (lt_div_iff₀ promised).mp taken⟩
  · exact absurd taken acceptRatio_pos.not_gt

end RootFinding.Exact
