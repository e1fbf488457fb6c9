import RootFinding.Proofs.Solver.TrustRegion
import RootFinding.Proofs.Solver.Newton
import RootFinding.Proofs.Binary64.Sign

namespace RootFinding

variable {α : Type} [Scalar α] {n : Nat} {s : SquareSystem α} {o : Options α} {m : Method}
  {x : Vec α n}

def Method.Takes (s : SquareSystem α) : (m : Method) → m.State α n → Prop
  | trustRegion, state => TrustRegion.State.Takes s state
  | newton, _ => True

/-- The residual, the Jacobian and the residual test are those of the iterate. -/
structure Progress.Consistent (s : SquareSystem α) (o : Options α) (k : Nat) (p : Progress α n) :
    Prop where
  iteration : p.iteration = k
  residual : s.Yields (.residual p.x) p.fx
  jacobian : s.Yields (.jacobian p.x) p.jac
  byResidual : p.tests.byResidual = Convergence.residualTest p.fx o.ftol

theorem TrustRegion.step_consistent {k : Nat} {t next : TrustRegion.State α n}
    {ledger after : Ledger α n}
    (ran : (TrustRegion.step o t).run (Ledger.answer s) ledger = (.ok next, after))
    (before : t.progress.Consistent s o k) : next.progress.Consistent s o (k + 1) := by
  obtain ⟨trial, yields, _, iteration, taken | ⟨kept, _⟩⟩ := TrustRegion.step_cases ran
  · refine ⟨iteration.trans (congrArg (· + 1) before.iteration), ?_, ?_, ?_⟩
    · rw [taken.x, taken.fx]
      exact yields
    · rw [taken.x]
      exact taken.jac
    · rw [taken.tests, taken.fx]
      rfl
  · refine ⟨iteration.trans (congrArg (· + 1) before.iteration), ?_, ?_, ?_⟩
    · rw [kept.x, kept.fx]
      exact before.residual
    · rw [kept.x, kept.jac]
      exact before.jacobian
    · rw [kept.tests, kept.fx]
      exact before.byResidual

theorem TrustRegion.step_byStep [LawfulScalar α] {t next : TrustRegion.State α n}
    {ledger after : Ledger α n}
    (ran : (TrustRegion.step o t).run (Ledger.answer s) ledger = (.ok next, after)) :
    next.progress.tests.byStep ↔
      t.Takes s ∧ 0 < o.xtol ∧ (next.progress.x - t.progress.x).norm < o.xtol := by
  obtain ⟨trial, yields, _, _, taken | ⟨kept, _⟩⟩ := TrustRegion.step_cases ran
  · have takes : t.Takes s := ⟨trial, yields, taken.ratio⟩
    rw [taken.tests, taken.x, ← Convergence.stepTest_iff]
    simp only [Convergence.assess, Option.any_some, takes, true_and]
  · -- The step test is withdrawn with the step.
    have rejected := kept.not_takes yields
    rw [kept.tests]
    simp only [Bool.false_eq_true, rejected, false_and]

theorem Method.start_consistent (agree : s.Agrees n) {state : m.State α n}
    {ledger after : Ledger α n}
    (ran : (m.start o x).run (Ledger.answer s) ledger = (.ok state, after)) :
    (m.progress state).Consistent s o 0 ∧ (m.progress state).x = x ∧
      (m.progress state).tests.byStep = false := by
  cases m with
  | trustRegion =>
    obtain ⟨yields, rfl, iteration, tests, _⟩ := TrustRegion.start_cases ran
    obtain ⟨residual, jacobian⟩ := yields.separate agree
    refine ⟨⟨iteration, residual, jacobian, ?_⟩, rfl, ?_⟩
    · exact congrArg Convergence.byResidual tests
    · exact congrArg Convergence.byStep tests
  | newton =>
    obtain ⟨yields, rfl, iteration, tests⟩ := Newton.start_cases ran
    obtain ⟨residual, jacobian⟩ := yields.separate agree
    refine ⟨⟨iteration, residual, jacobian, ?_⟩, rfl, ?_⟩
    · exact congrArg Convergence.byResidual tests
    · exact congrArg Convergence.byStep tests

theorem Method.step_consistent (agree : s.Agrees n) {k : Nat} {state next : m.State α n}
    {ledger after : Ledger α n}
    (ran : (m.step o state).run (Ledger.answer s) ledger = (.ok next, after))
    (before : (m.progress state).Consistent s o k) :
    (m.progress next).Consistent s o (k + 1) := by
  cases m with
  | trustRegion => exact TrustRegion.step_consistent ran before
  | newton =>
    obtain ⟨yields, iteration, tests⟩ := Newton.step_cases ran
    obtain ⟨residual, jacobian⟩ := yields.separate agree
    exact ⟨iteration.trans (congrArg (· + 1) before.iteration), residual, jacobian,
      congrArg Convergence.byResidual tests⟩

theorem Method.step_byStep [LawfulScalar α] {state next : m.State α n} {ledger after : Ledger α n}
    (ran : (m.step o state).run (Ledger.answer s) ledger = (.ok next, after)) :
    (m.progress next).tests.byStep ↔ m.Takes s state ∧ 0 < o.xtol ∧
      ((m.progress next).x - (m.progress state).x).norm < o.xtol := by
  cases m with
  | trustRegion => exact TrustRegion.step_byStep ran
  | newton =>
    obtain ⟨_, _, tests⟩ := Newton.step_cases ran
    have byStep := congrArg Convergence.byStep tests
    rw [← Convergence.stepTest_iff]
    simp only [Takes, true_and]
    exact iff_of_eq (congrArg (· = true) byStep)

variable {length : Nat} {states : Nat → m.State α n} {ledgers : Nat → Ledger α n}

theorem Passes.consistent (agree : s.Agrees n) (passes : Passes s o m x length states ledgers) :
    ∀ k ≤ length, (m.progress (states k)).Consistent s o k :=
  passes.induct (motive := fun k state => (m.progress state).Consistent s o k)
    (fun ran => (Method.start_consistent agree ran).1)
    fun _ _ ran before => Method.step_consistent agree ran before

/-- The step test after so many iterations: the last one took its step, and that was short. -/
def StepTestHolds (s : SquareSystem α) (o : Options α) (m : Method) (states : Nat → m.State α n)
    (k : Nat) : Prop :=
  0 < o.xtol ∧ ∃ j, k = j + 1 ∧ m.Takes s (states j) ∧
    ((m.progress (states k)).x - (m.progress (states j)).x).norm < o.xtol

theorem Passes.byStep [LawfulScalar α] (agree : s.Agrees n)
    (passes : Passes s o m x length states ledgers) {k : Nat} (within : k ≤ length) :
    (m.progress (states k)).tests.byStep ↔ StepTestHolds s o m states k := by
  cases k with
  | zero =>
    rw [(Method.start_consistent agree passes.start).2.2]
    simp [StepTestHolds]
  | succ j =>
    rw [Method.step_byStep (passes.step j within), StepTestHolds]
    constructor
    · rintro ⟨takes, positive, near⟩
      exact ⟨positive, j, rfl, takes, near⟩
    · rintro ⟨positive, i, same, takes, near⟩
      obtain rfl : j = i := by omega
      exact ⟨takes, positive, near⟩

/-- What a result says of a solve that passed through these states. -/
structure Results.Reports (s : SquareSystem α) (o : Options α) (m : Method) (x : Vec α n)
    (cap : Int) (length : Nat) (states : Nat → m.State α n) (r : Results α) : Prop where
  initialX : r.initialX = x.toList
  zero : r.zero = (m.progress (states length)).x.toList
  residual : r.residual = (m.progress (states length)).fx.toList
  evaluated : s.Yields (.residual (m.progress (states length)).x) (m.progress (states length)).fx
  residualNorm : ∀ bound, r.residualNorm ≤ bound ↔
    0 ≤ bound ∧ ∀ a ∈ r.residual, Scalar.magnitude a ≤ bound
  fConverged : r.fConverged ↔ r.residualNorm < o.ftol
  xConverged : r.xConverged ↔ StepTestHolds s o m states length
  iterations : r.iterations = length
  limit : r.iterations ≤ cap
  exhausted : r.converged = false → r.iterations = cap
  earlier : ∀ k < length, ¬ (m.progress (states k)).fx.maxNorm < o.ftol ∧
    ¬ StepTestHolds s o m states k

theorem Options.invalid?_eq_none : o.invalid? = none ↔ 0 ≤ o.xtol ∧ 0 ≤ o.ftol ∧
    o.iterations.isBelow 0 = false ∧ 0 < o.factor ∧ Scalar.isInfinite o.factor = false := by
  simp only [invalid?]
  grind

theorem Options.cap_nonneg {cap : Int} (admitted : o.invalid? = none)
    (limit : o.iterations = .whole cap) : 0 ≤ cap := by
  obtain ⟨_, _, fits, _⟩ := invalid?_eq_none.mp admitted
  rw [limit, Count.isBelow, decide_eq_false_iff_not] at fits
  omega

theorem solve_faithful [LawfulScalar α] (agree : s.Agrees n) :
    (∀ length (states : Nat → m.State α n) ledgers, Passes s o m x length states ledgers →
      ∀ k ≤ length, s.Yields (.residual (m.progress (states k)).x) (m.progress (states k)).fx ∧
        s.Yields (.jacobian (m.progress (states k)).x) (m.progress (states k)).jac) ∧
    ∀ cap r, o.invalid? = none → o.iterations = .whole cap →
      (solveFrom s o m x).result = .ok r →
        ∃ length states ledgers, Passes s o m x length states ledgers ∧
          r.Reports s o m x cap length states := by
  refine ⟨fun length states ledgers passes k within => ?_, fun cap r admitted limit returned => ?_⟩
  · have here := passes.consistent agree k within
    exact ⟨here.residual, here.jacobian⟩
  · obtain ⟨length, states, ledgers, passes, going, bound, reason, rfl⟩ :=
      solveFrom_passes returned
    have last := passes.consistent agree length (Nat.le_refl length)
    have nonneg := Options.cap_nonneg admitted limit
    rw [limit] at bound reason
    refine ⟨length, states, ledgers, passes, ⟨rfl, rfl, rfl, last.residual, fun bound => ?_, ?_,
      passes.byStep agree (Nat.le_refl length), congrArg Int.ofNat last.iteration, ?_,
      fun undecided => ?_, fun k before => ?_⟩⟩
    · exact Vec.maxNorm_le last.residual.residual_allFinite
    · change (m.progress (states length)).tests.byResidual = true ↔ _
      rw [last.byResidual, Convergence.residualTest, decide_eq_true_eq]
      rfl
    · change ((m.progress (states length)).iteration : Int) ≤ cap
      rw [last.iteration]
      simp only [Count.below] at bound
      omega
    · change ((m.progress (states length)).iteration : Int) = cap
      rcases reason with holds | full
      · change (m.progress (states length)).tests.any = false at undecided
        rw [holds] at undecided
        cases undecided
      · rw [last.iteration]
        simp only [Count.below] at full
        omega
    · have here := passes.consistent agree k (by omega)
      have open' := going k before
      simp only [Convergence.any, Bool.or_eq_false_iff, here.byResidual] at open'
      refine ⟨?_, ?_⟩
      · exact of_decide_eq_false open'.2
      · rw [← passes.byStep agree (by omega), open'.1]
        exact Bool.false_ne_true

def line (α : Type) [Scalar α] : SquareSystem α where
  convention := .outOfPlace
  sources := .separate (some fun x => .ok (.list (x.entries.toList.map .leaf)))
    fun _ => .ok (.list [.list [.leaf 1]])
  dimension := none

theorem line_agrees : (line α).Agrees n := trivial

theorem solve_faithful_line :
    ∃ r, (solveFrom (line Float) .standard .trustRegion #v[4]).result = .ok r ∧
      r.iterations = 1 ∧ r.fConverged ∧
        ∃ length states ledgers,
          Passes (line Float) .standard .trustRegion #v[4] length states ledgers ∧
            r.Reports (line Float) .standard .trustRegion #v[4] 1000 length states := by
  have computed : (solveFrom (line Float) .standard .trustRegion #v[4]).result.toOption.map
      (fun r => (r.iterations, r.fConverged)) = some (1, true) := by
    decide +kernel
  have admitted : (Options.standard : Options Float).invalid?.isNone := by
    decide +kernel
  cases returned : (solveFrom (line Float) .standard .trustRegion #v[4]).result with
  | error e =>
    rw [returned] at computed
    cases computed
  | ok r =>
    rw [returned] at computed
    simp only [Except.toOption, Option.map_some, Option.some.injEq, Prod.mk.injEq] at computed
    obtain ⟨iterations, fConverged⟩ := computed
    exact ⟨r, rfl, iterations, fConverged,
      (solve_faithful line_agrees).2 1000 r (Option.isNone_iff_eq_none.mp admitted) rfl returned⟩

end RootFinding
