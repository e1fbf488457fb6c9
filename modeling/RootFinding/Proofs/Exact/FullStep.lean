import RootFinding.Proofs.Exact.Affine
import RootFinding.Proofs.Exact.NewtonDescent
import RootFinding.Proofs.Exact.StrongWolfe

namespace RootFinding

open Exact

variable {n : Nat}

namespace LineSearch

theorem search_full {strategy : LineSearch ℝ} (full : strategy.TakesFull) {φ : MeritFunction ℝ}
    (value : φ.value 1 = .ok 0) (slope : φ.slope 1 = .ok 0) {phi0 : ℝ} (positive : 0 < phi0)
    (length : ℝ) :
    Plan.value φ.reply (strategy.search phi0 (-2 * phi0) length) = .ok (1, strategy) := by
  have low {c1 : ℝ} (modest : c1 ≤ 1 / 2) : 0 ≤ phi0 + c1 * 1 * (-2 * phi0) := by
    nlinarith
  cases strategy with
  | fixed alpha =>
    obtain rfl : alpha = 1 := full
    rfl
  | backtracking b =>
    obtain ⟨modest, unlimited⟩ := full
    have initial : b.initialStep length = 1 := by
      rw [Backtracking.initialStep, unlimited]
    have first : φ.value (b.initialStep length) = .ok 0 := by rw [initial, value]
    have enough : 0 ≤ phi0 + b.c1 * b.initialStep length * (-2 * phi0) := by
      rw [initial]
      exact low modest
    have found := (Backtracking.search_of_low first enough).1
    rw [initial] at found
    rw [search, Plan.value_bind, found]
    rfl
  | strongWolfe c1 c2 maxiter fallback =>
    obtain ⟨built, modest, k, rfl⟩ := full
    obtain ⟨_, decrease, ordered, _, enough⟩ := buildStrongWolfe_ok built
    have some' : 0 < k := by
      have least : ¬ k < 1 := of_decide_eq_false enough
      omega
    have descends : -2 * phi0 < 0 := by linarith
    have flat : |(0 : ℝ)| ≤ c2 * |-2 * phi0| := by
      rw [abs_zero]
      exact mul_nonneg (decrease.trans ordered).le (abs_nonneg _)
    exact (search_of_found fallback length (StrongWolfe.search_of_accepts descends some'
      ⟨0, 0, value, slope, low modest, flat⟩)).1
  | sequence upcoming => exact full.elim

end LineSearch

namespace Newton

variable {a : Mat ℝ n n} {b : Vec ℝ n} {s : SquareSystem ℝ} {o : Options ℝ} {x : Vec ℝ n}
  {t : State ℝ n}

structure State.Linear (o : Options ℝ) (a : Mat ℝ n n) (b : Vec ℝ n) (t : State ℝ n) : Prop where
  fx : t.progress.fx = a.mulVec t.progress.x - b
  jac : t.progress.jac = a
  lineSearch : t.lineSearch = o.lineSearch

theorem merit_point_one (merit : Merit ℝ n) : merit.point 1 = merit.x + merit.direction := by
  refine ext_get fun i => ?_
  rw [Merit.point, add_get, add_get, scale_get, one_mul]

theorem State.Linear.solved (linear : t.Linear o a b) {direction : Vec ℝ n}
    (solves : a.mulVec direction = -t.progress.fx) :
    a.mulVec ((t.merit direction).point 1) = b := by
  rw [merit_point_one]
  change a.mulVec (t.progress.x + direction) = b
  rw [mulVec_add, solves, linear.fx]
  refine ext_get fun i => ?_
  simp only [add_get, neg_get, sub_get]
  ring

theorem State.Linear.replies (affine : s.Affine a b) (linear : t.Linear o a b)
    {direction : Vec ℝ n} (solves : a.mulVec direction = -t.progress.fx) :
    s.reply (.residual ((t.merit direction).point 1)) = .ok 0 ∧
      s.reply (.both ((t.merit direction).point 1)) = .ok (0, a) := by
  have none : a.mulVec ((t.merit direction).point 1) - b = 0 := by
    rw [linear.solved solves]
    refine ext_get fun i => ?_
    rw [sub_get, sub_self, zero_get]
  rw [affine.residual, affine.both, none]
  exact ⟨rfl, rfl⟩

theorem State.Linear.level (affine : s.Affine a b) (linear : t.Linear o a b)
    {direction : Vec ℝ n} (solves : a.mulVec direction = -t.progress.fx) :
    ((t.merit direction).function s).value 1 = .ok 0 ∧
      ((t.merit direction).function s).slope 1 = .ok 0 := by
  obtain ⟨residual, both⟩ := linear.replies affine solves
  constructor
  · rw [function_value _ one_ne_zero, residual]
    change Except.ok (Merit.halfSquare (0 : Vec ℝ n)) = _
    rw [Merit.halfSquare, dot_zero_right, mul_zero]
  · change ((t.merit direction).slope 1).value s.reply = _
    rw [Merit.slope, Plan.value_bind, Solver.both, Plan.value_request, both]
    change Except.ok (Vec.dot (a.tmulVec 0) direction) = _
    rw [← dot_mulVec, dot_comm, dot_zero_right]

theorem State.Linear.step (affine : s.Affine a b) (regular : Regular a)
    (full : o.lineSearch.TakesFull) (linear : t.Linear o a b) (nonzero : t.progress.fx ≠ 0) :
    t.stepLength s = .ok 1 ∧ ∃ next, (step o t).value s.reply = .ok next ∧
      a.mulVec next.progress.x = b ∧ next.progress.fx = 0 ∧
        next.progress.iteration = t.progress.iteration + 1 ∧
          next.progress.tests.byResidual = Convergence.residualTest (0 : Vec ℝ n) o.ftol := by
  obtain ⟨direction, solves⟩ := regular.solvable (-t.progress.fx)
  have directed : newtonDirection t.progress.jac t.progress.fx (t.progress.iteration + 1 : Nat) =
      .ok direction := by
    rw [linear.jac]
    exact newtonDirection_eq_ok.mpr ⟨regular, solves⟩
  have slope := State.slope_eq_phi0 (newtonDirection_eq_ok.mp directed).2
  obtain ⟨value, level⟩ := linear.level affine solves
  have searched : ((t.merit direction).search t.lineSearch (t.slope direction)).value s.reply =
      .ok (1, o.lineSearch) := by
    rw [Merit.search_value, linear.lineSearch, slope]
    exact LineSearch.search_full full value level (State.phi0_pos direction nonzero) _
  have leads : t.Leads s direction 1 (0, a) o.lineSearch :=
    ⟨directed, searched, checkStep_ok zero_le_one, (linear.replies affine solves).2⟩
  refine ⟨leads.stepLength, _, step_eq_ok.mpr ⟨_, _, _, _, leads, rfl⟩, ?_⟩
  exact ⟨linear.solved solves, rfl, rfl, rfl⟩

theorem one_step (affine : s.Affine a b) (regular : Regular a) (tight : 0 < o.ftol)
    (far : Convergence.residualTest (a.mulVec x - b) o.ftol = false)
    (cap : 1 ≤ o.iterations.below) (full : o.lineSearch.TakesFull) :
    (∃ states ledgers, Passes s o .newton x 1 states ledgers ∧
      State.stepLength s (states 0) = .ok 1) ∧
    ∃ y, a.mulVec y = b ∧ ∃ r, (solveFrom s o .newton x).result = .ok r ∧ r.iterations = 1 ∧
      r.fConverged ∧ r.residual = (0 : Vec ℝ n).toList ∧ r.zero = y.toList := by
  let first := State.first o x (a.mulVec x - b) a
  have started : (start o x).value s.reply = .ok first := by
    rw [start_value, affine.both]
    rfl
  have linear : first.Linear o a b := ⟨rfl, rfl, rfl⟩
  have nonzero : first.progress.fx ≠ 0 := by
    intro zero
    change a.mulVec x - b = 0 at zero
    rw [zero, Convergence.residualTest_zero tight] at far
    cases far
  obtain ⟨length, next, stepped, solved, residual, iteration, test⟩ :=
    linear.step affine regular full nonzero
  let states (k : Nat) : State ℝ n := if k = 0 then first else next
  have steps (k : Nat) (less : k < 1) :
      (Method.newton.step o (states k)).value s.reply = .ok (states (k + 1)) := by
    obtain rfl : k = 0 := by omega
    exact stepped
  obtain ⟨ledgers, passes⟩ : ∃ ledgers, Passes s o .newton x 1 states ledgers :=
    passes_of_values started steps
  have undecided : first.progress.tests.any = false := far
  have decided : next.progress.tests.byResidual := by
    rw [test]
    exact Convergence.residualTest_zero tight
  refine ⟨⟨states, ledgers, passes, length⟩, next.progress.x, solved, _,
    solveFrom_of_passes passes (fun k less => ?_) cap (.inl ?_), ?_, decided, ?_, rfl⟩
  · obtain rfl : k = 0 := by omega
    exact undecided
  · change next.progress.tests.any
    rw [Convergence.any, decided, Bool.or_true]
  · exact congrArg Nat.cast (passes.iteration 1 (Nat.le_refl 1))
  · exact congrArg Vector.toList residual

/-- A regular system of linear equations, however it is presented: the first iteration takes the
full step, and the solve returns after it with the solution. -/
theorem linear_equations_one_step (entries : 0 < n) (regular : Regular a) (b x : Vec ℝ n)
    {c : Callables ℝ n} (w : Presentation) (map : ∀ y, c.map y = a.mulVec y - b)
    (derivative : ∀ y, c.derivative y = a) :
    ∃ s, w.system c = .ok s ∧ ∀ o : Options ℝ, 0 < o.ftol →
      Convergence.residualTest (a.mulVec x - b) o.ftol = false → 1 ≤ o.iterations.below →
        o.lineSearch.TakesFull →
          (∃ states ledgers, Passes s o .newton x 1 states ledgers ∧
            State.stepLength s (states 0) = .ok 1) ∧
          ∃ y, a.mulVec y = b ∧ ∃ r, (solveFrom s o .newton x).result = .ok r ∧
            r.iterations = 1 ∧ r.fConverged ∧ r.residual = (0 : Vec ℝ n).toList ∧
              r.zero = y.toList := by
  obtain ⟨s, system, presents, _⟩ := w.system_ok entries c
  have affine := presents.affine map derivative
  exact ⟨s, system, fun o tight far cap full => one_step affine regular tight far cap full⟩

theorem linear_equations_one_step_twice :
    ∃ s r, Presentation.system (.plain false) TrustRegion.twice = .ok s ∧
      (solveFrom s .standard .newton #v[3]).result = .ok r ∧ r.iterations = 1 ∧
        r.residual = [0] := by
  obtain ⟨s, system, ends⟩ := linear_equations_one_step Nat.one_pos (regular_single two_ne_zero)
    #v[1] #v[3] (c := TrustRegion.twice) (.plain false) (fun _ => rfl) fun _ => rfl
  have tight : (0 : ℝ) < (Options.standard : Options ℝ).ftol := by
    norm_num [Options.standard]
  have full : (Options.standard : Options ℝ).lineSearch.TakesFull := by
    refine ⟨?_, rfl⟩
    norm_num [Backtracking.standard]
  have far : Convergence.residualTest (Mat.mulVec #v[#v[(2 : ℝ)]] #v[3] - #v[1])
      (Options.standard : Options ℝ).ftol = false := by
    refine decide_eq_false (not_lt.mpr (le_trans ?_ (le_maxNorm _ 0)))
    rw [sub_get, mulVec_single]
    change (1e-8 : ℝ) ≤ |2 * 3 - 1|
    norm_num
  obtain ⟨_, y, _, r, returned, iterations, _, residual, _⟩ :=
    ends .standard tight far (by decide) full
  exact ⟨s, r, system, returned, iterations, residual⟩

end Newton

end RootFinding
