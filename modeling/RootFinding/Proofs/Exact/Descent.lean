import RootFinding.Proofs.Exact.Region
import RootFinding.Proofs.Exact.Decrease

namespace RootFinding.TrustRegion

open Exact Finset

variable {n : Nat} {s : SquareSystem ℝ} {o : Options ℝ} {x : Vec ℝ n} {t next : State ℝ n}
  {trial : Vec ℝ n}

noncomputable def State.squaredResidual (t : State ℝ n) : ℝ := t.progress.fx.dot t.progress.fx

/-- The length of the gradient in the coordinates in which the region is round. -/
noncomputable def State.gradient (t : State ℝ n) : ℝ :=
  Vec.norm (Vector.zipWith (· / ·) (t.progress.jac.tmulVec t.progress.fx) t.scaling)

/-- The decrease of the squared residual for which a step from this state is taken at least. -/
noncomputable def State.leastDecrease (t : State ℝ n) : ℝ :=
  acceptRatio * t.gradient * min t.delta (t.gradient / n)

theorem Taken.decrease (taken : Taken s o t next trial) :
    next.squaredResidual < t.squaredResidual := by
  obtain ⟨promised, kept⟩ := decrease_of_taken taken.ratio
  have share := mul_pos acceptRatio_pos (sub_pos.mpr promised)
  rw [State.squaredResidual, State.squaredResidual, taken.fx]
  linarith

theorem State.le_predicted (positive : 0 < t.delta) (fits : Fits t.scaling t.progress.jac) :
    t.gradient * min t.delta (t.gradient / n) ≤
      t.squaredResidual - predicted t.progress.jac t.progress.fx t.move.p := by
  have least := le_predicted_decrease positive fits (gaussNewtonStep_solves _ t.progress.fx)
  rw [slope_eq] at least
  exact least

theorem State.takes_of_exact {n : Nat} {t : State ℝ (n + 1)} (positive : 0 < t.delta)
    (fits : Fits t.scaling t.progress.jac) (steep : 0 < t.gradient)
    (exact : s.Yields (.residual t.trialPoint) t.model) : t.Takes s := by
  have length : (0 : ℝ) < (n + 1 : Nat) := Nat.cast_pos.mpr n.succ_pos
  have promised : 0 < t.squaredResidual - predicted t.progress.jac t.progress.fx t.move.p :=
    (mul_pos steep (lt_min positive (div_pos steep length))).trans_le
      (State.le_predicted positive fits)
  refine ⟨t.model, exact, ?_⟩
  have perfect : t.ratio t.model = 1 := by
    rw [ratio, reductionRatio]
    exact (if_pos promised).trans (div_self promised.ne')
  rw [perfect]
  norm_num [acceptRatio]

theorem Taken.leastDecrease_lt (taken : Taken s o t next trial) (positive : 0 < t.delta)
    (fits : Fits t.scaling t.progress.jac) :
    t.leastDecrease < t.squaredResidual - next.squaredResidual := by
  obtain ⟨_, kept⟩ := decrease_of_taken taken.ratio
  rw [State.squaredResidual, State.squaredResidual, taken.fx, State.leastDecrease, mul_assoc]
  have share := mul_le_mul_of_nonneg_left (State.le_predicted positive fits) acceptRatio_pos.le
  exact share.trans_lt kept

variable {length : Nat} {states : Nat → State ℝ n} {ledgers : Nat → Ledger ℝ n}

theorem fits (scales : o.autoscale) (passes : Passes s o .trustRegion x length states ledgers) :
    ∀ k ≤ length, Fits (states k).scaling (states k).progress.jac := by
  refine passes.induct (motive := fun _ t => Fits (State.scaling t) (State.progress t).jac)
    (fun ran => ?_) fun k _ ran before => ?_
  · obtain ⟨_, _, _, _, scaling, _⟩ := start_cases ran
    rw [scaling, startScaling, if_pos scales]
    exact fits_initialScaling _
  · obtain ⟨trial, _, _, _, taken | ⟨kept, _⟩⟩ := step_cases ran
    · rw [taken.scaling, if_pos scales]
      exact fits_updateScaling before.positive _
    · rw [kept.scaling, kept.jac]
      exact before

theorem iteration_descends (admitted : o.invalid? = none)
    (passes : Passes s o .trustRegion x length states ledgers) {k : Nat} (within : k < length) :
    if (states k).Takes s then
      (states (k + 1)).squaredResidual < (states k).squaredResidual ∧
        (o.autoscale → (states k).leastDecrease <
          (states k).squaredResidual - (states (k + 1)).squaredResidual)
    else (states (k + 1)).progress.fx = (states k).progress.fx := by
  obtain ⟨trial, yields, _, _, taken | ⟨kept, _⟩⟩ := step_cases (passes.step k within)
  · have takes : (states k).Takes s := ⟨trial, yields, taken.ratio⟩
    rw [if_pos takes]
    refine ⟨taken.decrease, fun scales => ?_⟩
    exact taken.leastDecrease_lt (delta_pos admitted passes k within.le)
      (fits scales passes k within.le)
  · rw [if_neg (kept.not_takes yields)]
    exact kept.fx

/-- Every step that is taken lowers the squared residual, by a known least amount when the method
scales by the columns of the Jacobian; all these amounts together are no more than the whole
decrease. -/
theorem squaredResidual_descends (agree : s.Agrees n) (admitted : o.invalid? = none)
    (passes : Passes s o .trustRegion x length states ledgers) :
    (states 0).progress.x = x ∧
      (∀ k ≤ length,
        s.Yields (.residual (states k).progress.x) (states k).progress.fx ∧
          s.Yields (.jacobian (states k).progress.x) (states k).progress.jac) ∧
      (∀ k < length,
        if (states k).Takes s then
          (states (k + 1)).squaredResidual < (states k).squaredResidual ∧
            (o.autoscale → (states k).leastDecrease <
              (states k).squaredResidual - (states (k + 1)).squaredResidual)
        else (states (k + 1)).progress.fx = (states k).progress.fx) ∧
      (o.autoscale → ∑ k ∈ range length with (states k).Takes s, (states k).leastDecrease ≤
        (states 0).squaredResidual - (states length).squaredResidual) := by
  obtain ⟨_, start, _⟩ := Method.start_consistent agree passes.start
  refine ⟨start, fun k within => ?_, fun k => iteration_descends admitted passes, fun scales => ?_⟩
  · have here := passes.consistent agree k within
    exact ⟨here.residual, here.jacobian⟩
  · -- The whole decrease is the sum of those of the iterations, and a rejected one adds nothing.
    rw [← sum_range_sub' (fun k => (states k).squaredResidual), sum_filter]
    refine sum_le_sum fun k member => ?_
    have iteration := iteration_descends admitted passes (mem_range.mp member)
    split at iteration
    · rename_i takes
      rw [if_pos takes]
      exact (iteration.2 scales).le
    · rename_i rejected
      rw [if_neg rejected, State.squaredResidual, State.squaredResidual, iteration, sub_self]

theorem line_takes {t : State ℝ 1} (positive : 0 < t.delta)
    (fits : Fits t.scaling t.progress.jac) (fx : t.progress.fx = #v[1])
    (jac : t.progress.jac = #v[#v[1]]) (x : t.progress.x = #v[1]) : t.Takes (line ℝ) := by
  have identity (v : Vec ℝ 1) : Mat.mulVec (#v[#v[1]] : Mat ℝ 1 1) v = v := by
    refine mulVec_eq_iff.mpr fun i => ?_
    obtain rfl := Subsingleton.elim i 0
    rw [dot_eq, Fin.sum_univ_one]
    exact one_mul _
  refine State.takes_of_exact positive fits ?_ ?_
  · have entry : (Mat.tmulVec (#v[#v[1]] : Mat ℝ 1 1) #v[1]).get 0 = 1 := by
      rw [tmulVec_get, dot_eq, Fin.sum_univ_one, column_get]
      exact one_mul 1
    rw [State.gradient, fx, jac]
    refine Real.sqrt_pos.mpr ?_
    rw [dot_eq, Fin.sum_univ_one, zipWith_get, entry]
    exact mul_self_pos.mpr (one_div_ne_zero (fits.positive 0).ne')
  · have point : t.trialPoint = #v[t.trialPoint[0]] := by
      ext i h
      obtain rfl : i = 0 := by omega
      rfl
    have same : t.model = t.trialPoint := by
      rw [State.model, State.trialPoint, fx, jac, x, identity]
    rw [same, point]
    exact (line_yields _).1

theorem squaredResidual_descends_line :
    ∃ (states : Nat → State ℝ 1) (ledgers : Nat → Ledger ℝ 1),
      Passes (line ℝ) .standard .trustRegion #v[1] 1 states ledgers ∧
        (states 0).Takes (line ℝ) ∧
        (states 1).squaredResidual < (states 0).squaredResidual ∧
        (states 0).leastDecrease ≤ (states 0).squaredResidual - (states 1).squaredResidual := by
  obtain ⟨states, ledgers, passes, _⟩ :=
    passes_of_reached (reached_isOk (o := .standard) (x := #v[1]) line_replies 1)
  obtain ⟨start, _, iterations, total⟩ :=
    squaredResidual_descends line_agrees standard_admitted passes
  obtain ⟨yields, _⟩ := start_cases passes.start
  have known := yields.unique (line_yields 1).2.2
  have takes : (states 0).Takes (line ℝ) :=
    line_takes (delta_pos standard_admitted passes 0 (by decide)) (fits rfl passes 0 (by decide))
      (congrArg Prod.fst known) (congrArg Prod.snd known) start
  have first := iterations 0 (by decide)
  rw [if_pos takes] at first
  have sum := total rfl
  simp only [sum_filter, sum_range_one, if_pos takes] at sum
  exact ⟨states, ledgers, passes, takes, first.1, sum⟩

end RootFinding.TrustRegion
