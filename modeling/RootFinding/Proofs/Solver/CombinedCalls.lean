import RootFinding.Proofs.Solver.Counters
import RootFinding.Proofs.Solver.Recording

namespace RootFinding

variable {α : Type} {n : Nat}

theorem SquareSystem.onlyBoth_sources {s : SquareSystem α} {fj : Option (PairCallable α)}
    {inPlace : Bool} {dimension : Option Int}
    (built : SquareSystem.onlyBoth fj inPlace dimension = .ok s) : s.sources = .bothOnly fj := by
  unfold onlyBoth build at built
  split at built
  · cases built
    rfl
  · split at built
    · cases built
    · cases built
      rfl

def Ledger.combinedCalls (ledger : Ledger α n) : Nat := callCount ledger.session.desk.calls .fj

variable [Scalar α] {s : SquareSystem α} {fj : Option (PairCallable α)} {o : Options α}
  {m : Method} {x : Vec α n}

theorem SquareSystem.callCount_bothOnly (combined : s.sources = .bothOnly fj) (q : Request α n) :
    (¬ q.IsBoth →
        callCount (s.calls q) .fj = (q.counts s.analytic).1 + (q.counts s.analytic).2) ∧
      (¬ q.IsJacobian → callCount (s.calls q) .fj = (q.counts s.analytic).1) := by
  obtain ⟨convention, sources, dimension⟩ := s
  cases combined
  cases q with
  | residual x | note notice => exact ⟨fun _ => rfl, fun _ => rfl⟩
  | jacobian x => exact ⟨fun _ => rfl, fun alone => absurd trivial alone⟩
  | both x => exact ⟨fun apart => absurd trivial apart, fun _ => rfl⟩

theorem Ledger.answer_combinedCalls {q : Request α n} {r : q.Answer} {ledger after : Ledger α n}
    (answered : answer s q ledger = (.ok r, after)) :
    after.combinedCalls = callCount (s.calls q) .fj + ledger.combinedCalls := by
  unfold combinedCalls
  rw [answer_calls answered, callCount_append]

namespace Method

def MayAsk : Method → Request α n → Prop
  | trustRegion, q => ¬ q.IsBoth
  | newton, q => ¬ q.IsJacobian

/-- The calls of a combined callable against the counters of residuals and Jacobians. -/
def Balanced : Method → (calls f j : Int) → Prop
  | trustRegion, calls, f, j => calls + 1 = f + j
  | newton, calls, f, _ => calls = f

theorem start_asks (m : Method) (o : Options α) (x : Vec α n) :
    (m.start o x).AsksOnly fun q => ¬ q.IsJacobian := by
  have begins : (m.begins o x).AsksOnly fun q : Request α n => ¬ q.IsJacobian := by
    cases m <;> exact (Plan.asksOnly_request id).bind fun pair => Plan.asksOnly_pure _
  rw [start_eq]
  exact begins.bind (Draft.written_asks fun _ => id)

theorem step_asks (m : Method) (o : Options α) (t : m.State α n) :
    (m.step o t).AsksOnly m.MayAsk := by
  rw [step_eq]
  cases m with
  | trustRegion =>
    exact ((TrustRegion.moves_asks o t).weaken fun _ => And.right).bind
      (Draft.written_asks fun _ => id)
  | newton =>
    exact ((Newton.moves_asks o t).weaken fun _ => And.right).bind (Draft.written_asks fun _ => id)

theorem finish_mayAsk (m : Method) (o : Options α) (t : m.State α n) :
    (m.finish o t).AsksOnly m.MayAsk := by
  apply finish_asks (m.step_asks o)
  cases m <;> exact fun _ => id

theorem answer_balanced (combined : s.sources = .bothOnly fj) (q : Request α n)
    (ledger : Ledger α n) (r : q.Answer) (after : Ledger α n) (asked : m.MayAsk q)
    (before : m.Balanced ledger.combinedCalls ledger.session.fCalls ledger.session.jCalls)
    (answered : Ledger.answer s q ledger = (.ok r, after)) :
    m.Balanced after.combinedCalls after.session.fCalls after.session.jCalls := by
  obtain ⟨residuals, jacobians⟩ := Ledger.answer_gains answered
  obtain ⟨apart, notAlone⟩ := SquareSystem.callCount_bothOnly combined q
  have calls := Ledger.answer_combinedCalls answered
  cases m with
  | trustRegion =>
    have made := apart asked
    simp only [Balanced] at before ⊢
    omega
  | newton =>
    have made := notAlone asked
    simp only [Balanced] at before ⊢
    omega

theorem start_balanced (combined : s.sources = .bothOnly fj) {t : m.State α n}
    {after : Ledger α n}
    (ran : (m.start o x).run (Ledger.answer s) (.begun s m) = (.ok t, after)) :
    m.Balanced after.combinedCalls after.session.fCalls after.session.jCalls := by
  have calls : newton.Balanced after.combinedCalls after.session.fCalls after.session.jCalls :=
    (m.start_asks o x).run_ok_kept (answer_balanced combined) ran rfl
  cases m with
  | trustRegion =>
    have once : after.session.jCalls = 0 + 1 := (TrustRegion.start_gains ran).2
    simp only [Balanced] at calls ⊢
    omega
  | newton => exact calls

theorem run_balanced (combined : s.sources = .bothOnly fj) {p : Progress α n}
    {after : Ledger α n}
    (ran : (m.run o x).run (Ledger.answer s) (.begun s m) = (.ok p, after)) :
    m.Balanced after.combinedCalls after.session.fCalls after.session.jCalls := by
  rw [run_finish] at ran
  obtain ⟨t, begun, started, rest⟩ := Plan.run_bind_ok.mp ran
  exact (m.finish_mayAsk o t).run_ok_kept (answer_balanced combined) rest
    (start_balanced combined started)

/-- The residuals that so many iterations ask for alone: one for each trust-region step, and those
of the line searches. -/
def trials (s : SquareSystem α) : (m : Method) → (Nat → m.State α n) → Nat → Nat
  | trustRegion, _, k => k
  | newton, states, k => ∑ i ∈ Finset.range k, Newton.State.trials s (states i)

theorem Counts.trials {states : Nat → m.State α n} {k : Nat} {calls f j : Int}
    (analytic : s.analytic) (counts : m.Counts s states k f j) (balanced : m.Balanced calls f j) :
    calls = j + m.trials s states k := by
  cases m with
  | trustRegion =>
    obtain ⟨_, residuals⟩ := counts
    simp only [analytic, if_true] at residuals
    simp only [Balanced] at balanced
    simp only [Method.trials]
    omega
  | newton =>
    obtain ⟨jacobians, residuals⟩ := counts
    simp only [analytic, if_true] at residuals
    simp only [Balanced] at balanced
    simp only [Method.trials]
    omega

end Method

theorem solveFrom_balanced (combined : s.sources = .bothOnly fj) {r : Results α}
    (returned : (solveFrom s o m x).result = .ok r) :
    m.Balanced (callCount (solveFrom s o m x).calls .fj) r.fCalls r.jCalls := by
  rw [solveFrom_calls, callCount_reverse]
  rw [solveFrom_result] at returned
  rcases ran : (m.run o x).run (Ledger.answer s) (.begun s m) with ⟨failure | p, after⟩
  · rw [ran] at returned
    cases returned
  · rw [ran] at returned
    cases returned
    exact Method.run_balanced combined ran

namespace Newton

variable {alpha : α}

theorem start_fixed (fixed : o.lineSearch = .fixed alpha) {t : State α n}
    {ledger after : Ledger α n}
    (ran : (start o x).run (Ledger.answer s) ledger = (.ok t, after)) :
    t.lineSearch = .fixed alpha := by
  obtain ⟨pair, called, answered, rest⟩ := Plan.run_bind_ok.mp ran
  obtain ⟨p, final, written, ended⟩ := Plan.run_bind_ok.mp rest
  cases ended
  exact fixed

theorem step_keeps_fixed {t next : State α n} (fixed : t.lineSearch = .fixed alpha)
    {ledger after : Ledger α n}
    (ran : (step o t).run (Ledger.answer s) ledger = (.ok next, after)) :
    next.lineSearch = .fixed alpha := by
  obtain ⟨direction, directed, found, rest⟩ := Plan.run_bind_ok.mp ran
  obtain ⟨⟨chosen, lineSearch⟩, searched, searching, rest⟩ := Plan.run_bind_ok.mp rest
  obtain ⟨alpha', checked, checking, rest⟩ := Plan.run_bind_ok.mp rest
  obtain ⟨pair, called, answered, rest⟩ := Plan.run_bind_ok.mp rest
  obtain ⟨p, final, written, ended⟩ := Plan.run_bind_ok.mp rest
  cases ended
  rw [fixed] at searching
  cases searching
  rfl

theorem passes_fixed (fixed : o.lineSearch = .fixed alpha) {length : Nat}
    {states : Nat → State α n} {ledgers : Nat → Ledger α n}
    (passes : Passes s o .newton x length states ledgers) :
    ∀ k ≤ length, (states k).lineSearch = .fixed alpha :=
  passes.induct (motive := fun _ (t : State α n) => t.lineSearch = .fixed alpha)
    (fun ran => start_fixed fixed ran) fun _ _ ran before => step_keeps_fixed before ran

end Newton

theorem solveFrom_combinedCalls (combined : s.sources = .bothOnly fj) {r : Results α}
    (returned : (solveFrom s o m x).result = .ok r) :
    ∃ length states ledgers, Passes s o m x length states ledgers ∧ r.iterations = length ∧
      (callCount (solveFrom s o m x).calls .fj : Int) =
        r.jCalls + m.trials s states length := by
  have analytic : s.analytic := by
    unfold SquareSystem.analytic
    rw [combined]
    rfl
  have balanced := solveFrom_balanced combined returned
  obtain ⟨length, states, ledgers, passes, _, _, _, rfl⟩ := solveFrom_passes returned
  refine ⟨length, states, ledgers, passes, ?_, ?_⟩
  · exact congrArg Int.ofNat (passes.iteration length (Nat.le_refl length))
  · exact (passes.counts (Nat.le_refl length)).trials analytic balanced

theorem fixed_steps_count_calls (combined : s.sources = .bothOnly fj) {alpha : α}
    (fixed : o.lineSearch = .fixed alpha) {r : Results α}
    (returned : (solveFrom s o .newton x).result = .ok r) :
    r.jCalls = callCount (solveFrom s o .newton x).calls .fj := by
  obtain ⟨length, states, ledgers, passes, _, calls⟩ :=
    solveFrom_combinedCalls combined returned
  have none : Method.newton.trials s states length = 0 := by
    apply Finset.sum_eq_zero
    intro k member
    have same := Newton.passes_fixed fixed passes k (Finset.mem_range.mp member).le
    exact congrArg (List.countP _) (Newton.State.asked_fixed same)
  rw [calls, none]
  exact (add_zero _).symm

/-- A combined callable that stands alone is called for every Jacobian that the result counts, and
once more for each residual that is asked for alone: that call counts as a residual only. So there
are as many calls as Jacobians exactly if no trial is evaluated. -/
theorem combined_calls_exceed_jacobians {inPlace : Bool} {dimension : Option Int}
    (built : SquareSystem.onlyBoth fj inPlace dimension = .ok s) {r : Results α}
    (returned : (solveFrom s o m x).result = .ok r) :
    ∃ length states ledgers, Passes s o m x length states ledgers ∧ r.iterations = length ∧
      (callCount (solveFrom s o m x).calls .fj : Int) = r.jCalls + m.trials s states length ∧
      (r.jCalls = callCount (solveFrom s o m x).calls .fj ↔ m.trials s states length = 0) := by
  have combined := SquareSystem.onlyBoth_sources built
  obtain ⟨length, states, ledgers, passes, iterations, calls⟩ :=
    solveFrom_combinedCalls combined returned
  exact ⟨length, states, ledgers, passes, iterations, calls, by omega⟩

def shifted : PairCallable Float :=
  Formula.pairCallable (.list [.leaf (.binary .subtract (.coordinate 0) (.constant 1))])
    (.list [.list [.leaf (.constant 1)]])

theorem combined_calls_exceed_jacobians_shifted :
    ∃ s r, SquareSystem.onlyBoth (some shifted) true none = .ok s ∧
      (solveFrom s .standard .newton #v[0]).result = .ok r ∧ r.jCalls = 2 ∧
      callCount (solveFrom s .standard .newton #v[0]).calls .fj = 3 ∧
      ∃ length states ledgers, Passes s .standard .newton #v[0] length states ledgers ∧
        length = 1 ∧ Method.trials s .newton states length = 1 := by
  let s : SquareSystem Float := ⟨.inPlace, .bothOnly (some shifted), none⟩
  have built : SquareSystem.onlyBoth (some shifted) true none = .ok s := rfl
  have computed : (solveFrom s .standard .newton #v[0]).result.toOption.map
      (fun r => (r.iterations, r.jCalls)) = some (1, 2) := by
    decide +kernel
  have called : callCount (solveFrom s .standard .newton #v[0]).calls .fj = 3 := by
    decide +kernel
  obtain ⟨r, returned, counted⟩ := Plan.ok_of_toOption computed
  simp only [Prod.mk.injEq] at counted
  obtain ⟨iterations, jacobians⟩ := counted
  obtain ⟨length, states, ledgers, passes, same, calls, _⟩ :=
    combined_calls_exceed_jacobians built returned
  exact ⟨s, r, built, returned, jacobians, called, length, states, ledgers, passes, by omega,
    by omega⟩

/-- A trust-region solve counts one of its three calls as a residual only. -/
theorem shifted_call_uncounted :
    ∃ s r, SquareSystem.onlyBoth (some shifted) true none = .ok s ∧
      (solveFrom s .standard .trustRegion #v[0]).result = .ok r ∧ r.jCalls = 2 ∧
      callCount (solveFrom s .standard .trustRegion #v[0]).calls .fj = 3 := by
  let s : SquareSystem Float := ⟨.inPlace, .bothOnly (some shifted), none⟩
  have computed : (solveFrom s .standard .trustRegion #v[0]).result.toOption.map
      (fun r => r.jCalls) = some 2 := by
    decide +kernel
  have called : callCount (solveFrom s .standard .trustRegion #v[0]).calls .fj = 3 := by
    decide +kernel
  obtain ⟨r, returned, jacobians⟩ := Plan.ok_of_toOption computed
  exact ⟨s, r, rfl, returned, jacobians, called⟩

end RootFinding
