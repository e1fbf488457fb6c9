import RootFinding.Proofs.Exact.Backtracking
import RootFinding.Proofs.Exact.Equations
import RootFinding.Proofs.Exact.Directions
import RootFinding.Proofs.Exact.Replies
import RootFinding.Proofs.Solver.Counters
import RootFinding.Proofs.Solver.Iterations

namespace RootFinding.Newton

open Exact Finset MeritRequest

variable {n : Nat} {s : SquareSystem ℝ} {o : Options ℝ} {b : Backtracking ℝ} {x : Vec ℝ n}
  {t next : State ℝ n} {direction : Vec ℝ n} {alpha : ℝ}

theorem State.slope_eq (solves : t.progress.jac.mulVec direction = -t.progress.fx) :
    t.slope direction = -(t.progress.fx.dot t.progress.fx) := by
  rw [State.slope, Progress.gradient, ← dot_mulVec, solves]
  simp only [dot_eq, neg_get, mul_neg, sum_neg_distrib]

theorem norm_sq_eq (v : Vec ℝ n) : v.norm ^ 2 = v.dot v := by
  rw [sq, norm_sq]

theorem norm_sq_pos {v : Vec ℝ n} (nonzero : v ≠ 0) : 0 < v.norm ^ 2 := by
  rw [norm_sq_eq]
  exact lt_of_le_of_ne (dot_self_nonneg v) fun zero => nonzero (eq_zero_of_dot_self zero.symm)

theorem halfSquare_eq (v : Vec ℝ n) : Merit.halfSquare v = v.norm ^ 2 / 2 := by
  rw [norm_sq_eq]
  change (0.5 : ℝ) * v.dot v = _
  norm_num
  ring

theorem State.slope_eq_phi0 (solves : t.progress.jac.mulVec direction = -t.progress.fx) :
    t.slope direction = -2 * (t.merit direction).phi0 := by
  change _ = -2 * Merit.halfSquare t.progress.fx
  rw [slope_eq solves, halfSquare_eq, norm_sq_eq]
  ring

theorem State.phi0_pos (direction : Vec ℝ n) (nonzero : t.progress.fx ≠ 0) :
    0 < (t.merit direction).phi0 := by
  change 0 < Merit.halfSquare t.progress.fx
  rw [halfSquare_eq]
  exact half_pos (norm_sq_pos nonzero)

/-- The state in which an iteration begins: its evaluation is that of the iterate. -/
structure State.Ready (s : SquareSystem ℝ) (b : Backtracking ℝ) (t : State ℝ n) : Prop where
  both : s.Yields (.both t.progress.x) (t.progress.fx, t.progress.jac)
  lineSearch : t.lineSearch = .backtracking b

/-- What is known of the slope that is handed to the line search. -/
structure State.Downhill (s : SquareSystem ℝ) (t : State ℝ n) (direction : Vec ℝ n) : Prop where
  derivative : ((t.merit direction).function s).slope 0 = .ok (t.slope direction)
  residual : t.slope direction = -t.progress.fx.norm ^ 2
  value : t.slope direction = -2 * (t.merit direction).phi0
  steep : t.progress.fx ≠ 0 → t.slope direction < 0

/-- An iteration along a direction with the step length that a search by backtracking chose. -/
structure Descends (s : SquareSystem ℝ) (b : Backtracking ℝ) (t next : State ℝ n)
    (direction : Vec ℝ n) (alpha : ℝ) : Prop where
  directed : newtonDirection t.progress.jac t.progress.fx (t.progress.iteration + 1 : Nat) =
    .ok direction
  last : lastTrial (t.asked s) = some alpha
  point : next.progress.x = (t.merit direction).point alpha
  positive : 0 < alpha
  small : alpha ≤ 1
  decrease : ¬ Spent (t.asked s) →
    next.progress.fx.norm ^ 2 ≤ (1 - 2 * b.c1 * alpha) * t.progress.fx.norm ^ 2

theorem State.Ready.downhill (ready : t.Ready s b) {iteration : Int}
    (directed : newtonDirection t.progress.jac t.progress.fx iteration = .ok direction) :
    t.Downhill s direction := by
  have solves := (newtonDirection_eq_ok.mp directed).2
  have value := State.slope_eq_phi0 solves
  have here : (t.merit direction).point 0 = t.progress.x := by
    refine ext_get fun i => ?_
    rw [Merit.point, add_get, scale_get, zero_mul, add_zero]
    rfl
  refine ⟨?_, ?_, ?_, fun nonzero => ?_⟩
  · change ((t.merit direction).slope 0).value s.reply = _
    rw [Merit.slope, here, Plan.value_bind, Solver.both, Plan.value_request,
      SquareSystem.yields_iff.mp ready.both]
    rfl
  · rw [State.slope_eq solves, norm_sq_eq]
  · exact value
  · rw [value]
    linarith [State.phi0_pos direction nonzero]

theorem function_value (merit : Merit ℝ n) (nonzero : alpha ≠ 0) :
    (merit.function s).value alpha =
      s.reply (.residual (merit.point alpha)) >>= fun fx => .ok (Merit.halfSquare fx) := by
  have other : ¬ (alpha == 0) = true := fun zero => nonzero (of_decide_eq_true zero)
  simp only [Merit.function, Merit.value, if_neg other, Solver.residual, Plan.value_bind,
    Plan.value_request]
  rfl

theorem State.asked_eq {strategy : LineSearch ℝ}
    (directed : newtonDirection t.progress.jac t.progress.fx (t.progress.iteration + 1 : Nat) =
      .ok direction) (known : t.lineSearch = strategy) :
    t.asked s = Plan.requests ((t.merit direction).function s).reply
      (strategy.search (t.merit direction).phi0 (t.slope direction)
        (t.merit direction).direction.norm) := by
  rw [State.asked, directed, known]
  rfl

theorem search_value (merit : Merit ℝ n) (slope : ℝ) :
    (merit.search (.backtracking b) slope).value s.reply =
      Plan.value (merit.function s).reply (b.search merit.phi0 slope merit.direction.norm) >>=
        fun alpha => .ok (alpha, .backtracking b) := by
  rw [Merit.search_value]
  simp only [LineSearch.search]
  exact Plan.value_bind _ _

theorem checkStep_ok (nonneg : 0 ≤ alpha) : checkStep alpha = .ok alpha := by
  rw [checkStep]
  exact if_neg (by simp [nonneg, Scalar.isFinite])

theorem step_descends (agree : s.Agrees n) (admitted : b.Admitted) (ready : t.Ready s b)
    {ledger after : Ledger ℝ n}
    (ran : (step o t).run (Ledger.answer s) ledger = (.ok next, after)) :
    next.Ready s b ∧ ∃ direction alpha, Descends s b t next direction alpha := by
  have stepped := Ledger.value_of_run ran
  obtain ⟨direction, alpha, ⟨fx, jac⟩, left, ⟨directed, searched, _, replied⟩, rfl⟩ :=
    step_eq_ok.mp stepped
  rw [ready.lineSearch, search_value] at searched
  obtain ⟨_, settled, same⟩ := Except.bind_ok.mp searched
  cases same
  have settles := Backtracking.search_settles admitted (norm_nonneg _) settled
  rw [← Backtracking.requests_lineSearch, ← State.asked_eq directed ready.lineSearch] at settles
  refine ⟨⟨SquareSystem.yields_iff.mpr replied, rfl⟩, direction, alpha, directed, settles.last,
    rfl, settles.positive, settles.small, fun unspent => ?_⟩
  obtain ⟨phi, value, low⟩ := settles.low unspent
  rw [function_value _ settles.positive.ne'] at value
  obtain ⟨fx', replied', sameValue⟩ := Except.bind_ok.mp value
  cases sameValue
  -- The search has evaluated the residual alone, and the solver now both at the same point.
  have separate := (SquareSystem.reply_both_agrees agree replied).1
  cases replied'.symm.trans separate
  rw [(ready.downhill directed).residual] at low
  change Merit.halfSquare fx ≤ Merit.halfSquare t.progress.fx + _ at low
  rw [halfSquare_eq, halfSquare_eq] at low
  change fx.norm ^ 2 ≤ _
  linarith

section Factors

variable (descends : Descends s b t next direction alpha) (unspent : ¬ Spent (t.asked s))
include descends unspent

theorem Descends.factor_nonneg (nonzero : t.progress.fx ≠ 0) : 0 ≤ 1 - 2 * b.c1 * alpha :=
  nonneg_of_mul_nonneg_left ((sq_nonneg _).trans (descends.decrease unspent))
    (norm_sq_pos nonzero)

theorem Descends.norm_sq_le :
    next.progress.fx.norm ^ 2 ≤ max 0 (1 - 2 * b.c1 * alpha) * t.progress.fx.norm ^ 2 :=
  (descends.decrease unspent).trans
    (mul_le_mul_of_nonneg_right (le_max_right _ _) (sq_nonneg _))

theorem Descends.norm_le (admitted : b.Admitted) :
    next.progress.fx.norm ≤ t.progress.fx.norm := by
  have gain : 0 ≤ 2 * b.c1 * alpha * t.progress.fx.norm ^ 2 :=
    mul_nonneg (mul_nonneg (mul_nonneg zero_le_two admitted.decrease.1.le) descends.positive.le)
      (sq_nonneg _)
  refine (sq_le_sq₀ (norm_nonneg _) (norm_nonneg _)).mp ?_
  linarith [descends.decrease unspent]

end Factors

theorem step_of_low (line : t.lineSearch = .backtracking b)
    (directed : newtonDirection t.progress.jac t.progress.fx (t.progress.iteration + 1 : Nat) =
      .ok direction) (initial : b.initialStep direction.norm = alpha) (positive : 0 < alpha)
    {fx : Vec ℝ n} {jac : Mat ℝ n n}
    (residual : s.reply (.residual ((t.merit direction).point alpha)) = .ok fx)
    (both : s.reply (.both ((t.merit direction).point alpha)) = .ok (fx, jac))
    (low : fx.norm ^ 2 ≤ (1 - 2 * b.c1 * alpha) * t.progress.fx.norm ^ 2) :
    t.asked s = [.value alpha] ∧ ∃ next, (step o t).value s.reply = .ok next ∧
      next.lineSearch = .backtracking b ∧
        next.progress.x = (t.merit direction).point alpha ∧ next.progress.fx = fx ∧
          next.progress.jac = jac := by
  subst initial
  have value : ((t.merit direction).function s).value (b.initialStep direction.norm) =
      .ok (Merit.halfSquare fx) := by
    rw [function_value _ positive.ne', residual]
    rfl
  have armijo : Merit.halfSquare fx ≤ (t.merit direction).phi0 +
      b.c1 * b.initialStep direction.norm * t.slope direction := by
    change _ ≤ Merit.halfSquare t.progress.fx + _
    rw [State.slope_eq (newtonDirection_eq_ok.mp directed).2, ← norm_sq_eq, halfSquare_eq,
      halfSquare_eq]
    linarith
  obtain ⟨found, asked⟩ := Backtracking.search_of_low value armijo
  constructor
  · rw [State.asked_eq directed line, Backtracking.requests_lineSearch]
    exact asked
  · have searched : ((t.merit direction).search t.lineSearch (t.slope direction)).value s.reply =
        .ok (b.initialStep direction.norm, .backtracking b) := by
      rw [line, search_value]
      exact congrArg (· >>= _) found
    have leads : t.Leads s direction (b.initialStep direction.norm) (fx, jac) (.backtracking b) :=
      ⟨directed, searched, checkStep_ok positive.le, both⟩
    exact ⟨_, step_eq_ok.mpr ⟨_, _, _, _, leads, rfl⟩, rfl, rfl, rfl, rfl⟩

section Single

variable {f f' : ℝ → ℝ} {y : ℝ}

structure State.At (f f' : ℝ → ℝ) (b : Backtracking ℝ) (y : ℝ) (t : State ℝ 1) : Prop where
  x : t.progress.x = #v[y]
  fx : t.progress.fx = #v[f y]
  jac : t.progress.jac = #v[#v[f' y]]
  lineSearch : t.lineSearch = .backtracking b

theorem State.At.fx_eq {t : State ℝ 1} (here : t.At f f' b y) {z : ℝ} (value : f y = z) :
    t.progress.fx = #v[z] := by
  rw [here.fx, value]

theorem start_at (f f' : ℝ → ℝ) (y : ℝ) (strategy : o.lineSearch = .backtracking b) :
    ∃ t, (start o #v[y]).value (equation f f').reply = .ok t ∧ State.At f f' b y t := by
  rw [start_value, equation_replies.2]
  exact ⟨_, rfl, rfl, rfl, rfl, strategy⟩

theorem State.At.step {t : State ℝ 1} (here : t.At f f' b y) (o : Options ℝ) (move alpha : ℝ)
    (rises : f' y ≠ 0) (solves : f' y * move = -f y) (initial : b.initialStep |move| = alpha)
    (positive : 0 < alpha)
    (low : f (y + alpha * move) ^ 2 ≤ (1 - 2 * b.c1 * alpha) * f y ^ 2) :
    t.asked (equation f f') = [.value alpha] ∧
      ∃ next, (step o t).value (equation f f').reply = .ok next ∧
        State.At f f' b (y + alpha * move) next := by
  have directed : newtonDirection t.progress.jac t.progress.fx (t.progress.iteration + 1 : Nat) =
      .ok #v[move] := by
    rw [here.jac, here.fx]
    refine newtonDirection_eq_ok.mpr ⟨regular_single rises, ?_⟩
    rw [mulVec_single, solves]
    refine ext_single ?_
    rw [neg_get]
    rfl
  have point : (t.merit #v[move]).point alpha = #v[y + alpha * move] := by
    change t.progress.x + Vec.scale alpha #v[move] = _
    rw [here.x]
    refine ext_single ?_
    rw [add_get, scale_get]
    rfl
  rw [← norm_single] at initial
  obtain ⟨asked, next, stepped, kept, x, fx, jac⟩ := step_of_low (s := equation f f') (o := o)
    here.lineSearch directed initial positive
    (by rw [point, equation_replies.1]) (by rw [point, equation_replies.2])
    (by rwa [here.fx, norm_single, norm_single, sq_abs, sq_abs])
  exact ⟨asked, next, stepped, ⟨x.trans point, fx, jac, kept⟩⟩

end Single

section Run

variable {length : Nat} {states : Nat → State ℝ n} {ledgers : Nat → Ledger ℝ n}

theorem ready (agree : s.Agrees n) (admitted : b.Admitted)
    (strategy : o.lineSearch = .backtracking b)
    (passes : Passes s o .newton x length states ledgers) :
    ∀ k ≤ length, (states k).Ready s b := by
  refine passes.induct (motive := fun _ t => State.Ready s b t) (fun ran => ?_)
    fun k _ ran before => (step_descends agree admitted before ran).1
  have started := Ledger.value_of_run ran
  obtain ⟨⟨fx, jac⟩, replied, same⟩ := Except.bind_ok.mp ((start_value o x).symm.trans started)
  rw [← Except.ok.inj same]
  exact ⟨SquareSystem.yields_iff.mpr replied, strategy⟩

theorem norm_sq_le_prod {alphas : Nat → ℝ} {directions : Nat → Vec ℝ n}
    (descends : ∀ k < length, Descends s b (states k) (states (k + 1)) (directions k) (alphas k))
    (unspent : ∀ k < length, ¬ Spent ((states k).asked s)) :
    ∀ k ≤ length, (states k).progress.fx.norm ^ 2 ≤
      (∏ j ∈ range k, max 0 (1 - 2 * b.c1 * alphas j)) * (states 0).progress.fx.norm ^ 2 := by
  intro k
  induction k with
  | zero =>
    intro _
    rw [range_zero, prod_empty, one_mul]
  | succ k ih =>
    intro less
    calc (states (k + 1)).progress.fx.norm ^ 2
        ≤ max 0 (1 - 2 * b.c1 * alphas k) * (states k).progress.fx.norm ^ 2 :=
          (descends k less).norm_sq_le (unspent k less)
      _ ≤ max 0 (1 - 2 * b.c1 * alphas k) *
            ((∏ j ∈ range k, max 0 (1 - 2 * b.c1 * alphas j)) *
              (states 0).progress.fx.norm ^ 2) :=
          mul_le_mul_of_nonneg_left (ih (Nat.le_of_lt less)) (le_max_left _ _)
      _ = _ := by
          rw [prod_range_succ]
          ring

/-- A run of Newton's method with backtracking: in every iteration the slope is that of the merit
function, minus the squared residual, and the last trial is the step that is taken. As long as no
search runs out of reductions the residual does not grow, and its square stays below the product of
the factors of the Armijo line, where one that is negative, as it can be at a root only, counts as
zero. -/
theorem backtracking_descends (agree : s.Agrees n) (valid : b.invalid? = none)
    (strategy : o.lineSearch = .backtracking b)
    (passes : Passes s o .newton x length states ledgers) :
    (∀ k ≤ length, ∀ direction, newtonDirection (states k).progress.jac (states k).progress.fx
      ((states k).progress.iteration + 1 : Nat) = .ok direction →
        (states k).Downhill s direction) ∧
    ∃ (directions : Nat → Vec ℝ n) (alphas : Nat → ℝ),
      (∀ k < length, Descends s b (states k) (states (k + 1)) (directions k) (alphas k)) ∧
      ((∀ k < length, ¬ Spent ((states k).asked s)) →
        (∀ k < length, (states (k + 1)).progress.fx.norm ≤ (states k).progress.fx.norm ∧
          ((states k).progress.fx ≠ 0 → 0 ≤ 1 - 2 * b.c1 * alphas k)) ∧
        ∀ k ≤ length, (states k).progress.fx.norm ^ 2 ≤
          (∏ j ∈ range k, max 0 (1 - 2 * b.c1 * alphas j)) *
            (states 0).progress.fx.norm ^ 2) := by
  have admitted := Backtracking.admitted_of_invalid? valid
  have ready := ready agree admitted strategy passes
  refine ⟨fun k within direction directed => (ready k within).downhill directed, ?_⟩
  choose! directions alphas descends using fun k less =>
    (step_descends agree admitted (ready k (Nat.le_of_lt less)) (passes.step k less)).2
  refine ⟨directions, alphas, descends, fun unspent => ⟨fun k less => ⟨?_, ?_⟩, ?_⟩⟩
  · exact (descends k less).norm_le (unspent k less) admitted
  · exact (descends k less).factor_nonneg (unspent k less)
  · exact norm_sq_le_prod descends unspent

end Run

noncomputable def eagerly : Options ℝ := { Options.standard with
  ftol := 0
  iterations := .whole 3
  lineSearch := .backtracking eager }

theorem eager_valid : eager.invalid? = none := by
  norm_num [eager, Backtracking.invalid?, Backtracking.standard, Count.equals, Count.isBelow]

theorem quartic_passes : ∃ states ledgers,
    Passes quartic eagerly .newton #v[1] 3 states ledgers ∧
      (State.progress (states 0)).fx = #v[1] ∧ (State.progress (states 1)).fx = #v[3 / 8] ∧
      (State.progress (states 3)).fx = #v[0] ∧
      ∀ k < 3, State.asked quartic (states k) = [.value (if k = 2 then 1 else 1 / 2)] := by
  have half : eager.initialStep |(-1 : ℝ)| = 1 / 2 := by
    have other : ¬ ((1 : ℝ) == 0) = true := fun zero => one_ne_zero (of_decide_eq_true zero)
    rw [abs_neg, abs_one, Backtracking.initialStep]
    change (if (1 : ℝ) == 0 then 1 else Scalar.smaller 1 (1 / 2 / 1)) = (1 / 2 : ℝ)
    rw [if_neg other, smaller_eq]
    norm_num
  have full : eager.initialStep |(0 : ℝ)| = 1 := by
    rw [abs_zero, Backtracking.initialStep]
    exact if_pos (decide_eq_true rfl)
  obtain ⟨first, started, at0⟩ :=
    start_at (fun y => y * (7 / 2 + y * (-12 + y * (33 / 2 - 7 * y))))
      (fun y => 7 / 2 + y * (-24 + y * (99 / 2 - 28 * y))) 1 (o := eagerly) rfl
  obtain ⟨asked0, second, stepped0, at1⟩ := at0.step eagerly (-1) (1 / 2) (by norm_num)
    (by norm_num) half (by norm_num) (by norm_num [eager])
  obtain ⟨asked1, root, stepped1, at2⟩ := at1.step eagerly (-1) (1 / 2) (by norm_num)
    (by norm_num) half (by norm_num) (by norm_num [eager])
  obtain ⟨asked2, last, stepped2, at3⟩ := at2.step eagerly 0 1 (by norm_num) (by norm_num)
    full one_pos (by norm_num [eager])
  let states (k : Nat) : State ℝ 1 := [first, second, root].getD k last
  have steps (k : Nat) (less : k < 3) :
      (Method.newton.step eagerly (states k)).value quartic.reply = .ok (states (k + 1)) := by
    interval_cases k
    · exact stepped0
    · exact stepped1
    · exact stepped2
  obtain ⟨ledgers, passes⟩ : ∃ ledgers, Passes quartic eagerly .newton #v[1] 3 states ledgers :=
    passes_of_values started steps
  refine ⟨states, ledgers, passes, at0.fx_eq (by norm_num), at1.fx_eq (by norm_num),
    at3.fx_eq (by norm_num), fun k less => ?_⟩
  interval_cases k
  · exact asked0
  · exact asked1
  · exact asked2

theorem backtracking_descends_quartic : ∃ states ledgers,
    Passes quartic eagerly .newton #v[1] 3 states ledgers ∧
      ∀ k < 3, (∃ direction alpha,
          Descends quartic eager (states k) (states (k + 1)) direction alpha) ∧
        (State.progress (states (k + 1))).fx.norm ≤ (State.progress (states k)).fx.norm := by
  obtain ⟨states, ledgers, passes, _, _, _, asked⟩ := quartic_passes
  obtain ⟨_, directions, alphas, descends, bounds⟩ :=
    backtracking_descends equation_agrees eager_valid rfl passes
  obtain ⟨falls, _⟩ := bounds fun k less => asked k less ▸ not_spent_value
  exact ⟨states, ledgers, passes, fun k less => ⟨⟨_, _, descends k less⟩, (falls k less).1⟩⟩

/-- The product does not bound the residuals themselves: the first one is more than a quarter. Nor
does it bound their squares: from the root on it is negative. -/
theorem product_exceeded : ∃ (states : Nat → State ℝ 1) (ledgers : Nat → Ledger ℝ 1)
    (alphas : Nat → ℝ),
    Passes quartic eagerly .newton #v[1] 3 states ledgers ∧ eager.invalid? = none ∧
      (∀ k ≤ 3, (states k).progress.tests.any = false) ∧
      (∀ k < 3, lastTrial ((states k).asked quartic) = some (alphas k) ∧
        ¬ Spent ((states k).asked quartic)) ∧
      (¬ ∀ k ≤ 3, (states k).progress.fx.norm ≤
        (∏ j ∈ range k, (1 - 2 * eager.c1 * alphas j)) * (states 0).progress.fx.norm) ∧
      ¬ ∀ k ≤ 3, (states k).progress.fx.norm ^ 2 ≤
        (∏ j ∈ range k, (1 - 2 * eager.c1 * alphas j)) * (states 0).progress.fx.norm ^ 2 := by
  obtain ⟨states, ledgers, passes, fx0, fx1, fx3, asked⟩ := quartic_passes
  refine ⟨states, ledgers, fun j => if j = 2 then 1 else 1 / 2, passes, eager_valid,
    fun k within => passes.undecided rfl rfl within, fun k less => ?_, fun bounded => ?_,
    fun bounded => ?_⟩
  · rw [asked k less]
    exact ⟨rfl, not_spent_value⟩
  · have first := bounded 1 (by omega)
    rw [prod_range_one, fx0, fx1, norm_single, norm_single] at first
    norm_num [eager] at first
  · have last := bounded 3 (by omega)
    rw [prod_range_succ, prod_range_succ, prod_range_one, fx0, fx3, norm_single, norm_single]
      at last
    norm_num [eager] at last

end RootFinding.Newton
