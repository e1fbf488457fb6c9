import RootFinding.Proofs.Solver.Report
import RootFinding.Proofs.Exact.Dogleg

namespace RootFinding.TrustRegion

open Exact

variable {n : Nat} {s : SquareSystem ℝ} {o : Options ℝ} {x : Vec ℝ n} {t next : State ℝ n}
  {trial : Vec ℝ n}

theorem startRadius_pos {factor : ℝ} (positive : 0 < factor) (scaling x : Vec ℝ n) :
    0 < startRadius factor scaling x := by
  simp only [startRadius]
  split
  · exact positive
  · rename_i nonzero
    have nonneg : 0 ≤ factor * weightedNorm scaling x :=
      mul_nonneg positive.le (weightedNorm_nonneg scaling x)
    exact lt_of_le_of_ne nonneg fun zero => nonzero (decide_eq_true zero.symm)

namespace State

theorem weightedNorm_move_le (positive : 0 < t.delta) :
    weightedNorm t.scaling t.move.p ≤ t.delta :=
  weightedNorm_doglegPath_le _ _ _ positive _

theorem nextRadius_of_poor {trial : Vec ℝ n} (poor : t.ratio trial < 0.1) :
    t.nextRadius trial = t.delta / 2 := by
  rw [nextRadius, updateRadius, if_pos poor, half_eq]
  ring

/-- Half the radius, or at most twice; and larger only after a good step through half of the region
or more. -/
theorem nextRadius_cases (positive : 0 < t.delta) (trial : Vec ℝ n) :
    t.nextRadius trial = t.delta / 2 ∨
      t.delta ≤ t.nextRadius trial ∧ t.nextRadius trial ≤ 2 * t.delta ∧
        (t.delta < t.nextRadius trial → 0.5 ≤ t.ratio trial ∧
          t.delta / 2 < weightedNorm t.scaling t.move.p) := by
  have inside := t.weightedNorm_move_le positive
  by_cases poor : t.ratio trial < 0.1
  · exact .inl (nextRadius_of_poor poor)
  · rw [nextRadius, updateRadius, if_neg poor]
    split
    · rename_i good
      rw [larger_eq, two_eq]
      refine .inr ⟨le_max_left _ _, max_le (by linarith) (by linarith), fun grown => ⟨good, ?_⟩⟩
      have doubled := (lt_max_iff.mp grown).resolve_left (lt_irrefl _)
      linarith
    · exact .inr ⟨le_refl _, by linarith, fun grown => absurd grown (lt_irrefl _)⟩

theorem nextRadius_pos (positive : 0 < t.delta) (trial : Vec ℝ n) : 0 < t.nextRadius trial := by
  rcases nextRadius_cases positive trial with halved | ⟨kept, _⟩
  · rw [halved]
    exact half_pos positive
  · exact positive.trans_le kept

end State

theorem Taken.displacement (taken : Taken s o t next trial) :
    next.progress.x - t.progress.x = t.move.p := by
  rw [taken.x, State.trialPoint]
  refine ext_get fun i => ?_
  rw [sub_get, add_get, add_sub_cancel_left]

theorem Kept.displacement (kept : Kept t next trial) : next.progress.x - t.progress.x = 0 := by
  rw [kept.x]
  refine ext_get fun i => ?_
  rw [sub_get, zero_get, sub_self]

variable {length : Nat} {states : Nat → State ℝ n} {ledgers : Nat → Ledger ℝ n}

theorem delta_pos (admitted : o.invalid? = none)
    (passes : Passes s o .trustRegion x length states ledgers) :
    ∀ k ≤ length, 0 < (states k).delta := by
  refine passes.induct (motive := fun _ t => 0 < State.delta t) (fun ran => ?_)
    fun k _ ran positive => ?_
  · obtain ⟨_, _, _, _, _, delta⟩ := start_cases ran
    rw [delta]
    obtain ⟨_, _, _, factor, _⟩ := Options.invalid?_eq_none.mp admitted
    exact startRadius_pos factor _ _
  · obtain ⟨trial, _, delta, _⟩ := step_cases ran
    rw [delta]
    exact State.nextRadius_pos positive trial

theorem stays_in_region (admitted : o.invalid? = none)
    (passes : Passes s o .trustRegion x length states ledgers) :
    (∀ k ≤ length, 0 < (states k).delta) ∧ ∀ k < length,
      weightedNorm (states k).scaling ((states (k + 1)).progress.x - (states k).progress.x) ≤
        (states k).delta ∧
      ((states (k + 1)).delta = (states k).delta / 2 ∨
        (states k).delta ≤ (states (k + 1)).delta ∧
        (states (k + 1)).delta ≤ 2 * (states k).delta ∧
        ((states k).delta < (states (k + 1)).delta →
          ∃ trial, s.Yields (.residual (states k).trialPoint) trial ∧
            0.5 ≤ (states k).ratio trial ∧
            (states k).delta / 2 < weightedNorm (states k).scaling (states k).move.p)) := by
  refine ⟨delta_pos admitted passes, fun k within => ?_⟩
  have positive := delta_pos admitted passes k within.le
  obtain ⟨trial, yields, delta, _, cases⟩ := step_cases (passes.step k within)
  refine ⟨?_, ?_⟩
  · rcases cases with taken | ⟨kept, _⟩
    · rw [taken.displacement]
      exact State.weightedNorm_move_le positive
    · rw [kept.displacement, weightedNorm_zero]
      exact positive.le
  · rw [delta]
    rcases State.nextRadius_cases positive trial with halved | ⟨least, most, grows⟩
    · exact .inl halved
    · exact .inr ⟨least, most, fun grown => ⟨trial, yields, grows grown⟩⟩

theorem line_yields (a : ℝ) :
    (line ℝ).Yields (.residual #v[a]) #v[a] ∧ (line ℝ).Yields (.jacobian #v[a]) #v[#v[1]] ∧
      (line ℝ).Yields (.both #v[a]) (#v[a], #v[#v[1]]) := by
  have residual : (line ℝ).reply (.residual #v[a]) = .ok #v[a] :=
    SquareSystem.reply_residual_ok.mpr ⟨rfl, vec_allFinite _⟩
  have jacobian : (line ℝ).reply (.jacobian #v[a]) = .ok #v[#v[1]] :=
    SquareSystem.reply_jacobian_ok.mpr ⟨rfl, mat_allFinite _⟩
  have both : (line ℝ).reply (.both #v[a]) = .ok (#v[a], #v[#v[1]]) :=
    SquareSystem.reply_both_ok.mpr ⟨rfl, vec_allFinite _, mat_allFinite _⟩
  exact ⟨SquareSystem.yields_iff.mpr residual, SquareSystem.yields_iff.mpr jacobian,
    SquareSystem.yields_iff.mpr both⟩

theorem line_replies (q : Request ℝ 1) : ((line ℝ).reply q).isOk := by
  have single (v : Vec ℝ 1) : v = #v[v[0]] := by
    ext i h
    obtain rfl : i = 0 := by omega
    rfl
  cases q with
  | residual x =>
    rw [single x, SquareSystem.yields_iff.mp (line_yields _).1]
    rfl
  | jacobian x =>
    rw [single x, SquareSystem.yields_iff.mp (line_yields _).2.1]
    rfl
  | both x =>
    rw [single x, SquareSystem.yields_iff.mp (line_yields _).2.2]
    rfl
  | note m => rfl

theorem standard_admitted : (Options.standard : Options ℝ).invalid? = none := by
  have small : (0 : ℝ) ≤ 1e-8 := by norm_num
  exact Options.invalid?_eq_none.mpr ⟨le_refl 0, small, rfl, one_pos, rfl⟩

theorem stays_in_region_line :
    ∃ (states : Nat → State ℝ 1) (ledgers : Nat → Ledger ℝ 1),
      Passes (line ℝ) .standard .trustRegion #v[1] 1 states ledgers ∧ 0 < (states 1).delta ∧
        weightedNorm (states 0).scaling ((states 1).progress.x - (states 0).progress.x) ≤
          (states 0).delta := by
  obtain ⟨states, ledgers, passes, _⟩ :=
    passes_of_reached (reached_isOk (o := .standard) (x := #v[1]) line_replies 1)
  obtain ⟨positive, iterations⟩ := stays_in_region standard_admitted passes
  exact ⟨states, ledgers, passes, positive 1 (by decide), (iterations 0 (by decide)).1⟩

end RootFinding.TrustRegion
