import RootFinding.Proofs.Solver.Passes

namespace RootFinding.Newton

variable {α : Type} [Scalar α] {n : Nat} {s : SquareSystem α} {o : Options α}

theorem recorded_run {p q : Progress α n} {stepnorm alpha : α} {ledger after : Ledger α n}
    (ran : (recorded p stepnorm alpha).run (Ledger.answer s) ledger = (.ok q, after)) :
    q = { p with recorder := q.recorder } := by
  simp only [recorded] at ran
  split at ran
  · obtain ⟨noted, between, told, rest⟩ := Plan.run_bind_ok.mp ran
    cases rest
    rfl
  · cases ran
    rfl

theorem ofExcept_run {β : Type} {e : Except (Failure α) β} {b : β} {ledger after : Ledger α n}
    (ran : (Solver.ofExcept e).run (Ledger.answer s) ledger = (.ok b, after)) :
    e = .ok b ∧ after = ledger := by
  cases e with
  | error failure => cases ran
  | ok b' =>
    cases ran
    exact ⟨rfl, rfl⟩

theorem start_cases {x : Vec α n} {t : State α n} {ledger after : Ledger α n}
    (ran : (start o x).run (Ledger.answer s) ledger = (.ok t, after)) :
    s.Yields (.both x) (t.progress.fx, t.progress.jac) ∧ t.progress.x = x ∧
      t.progress.iteration = 0 ∧
      t.progress.tests = Convergence.assess x none t.progress.fx o.xtol o.ftol := by
  simp only [start] at ran
  obtain ⟨⟨fx, jac⟩, called, answered, rest⟩ := Plan.run_bind_ok.mp ran
  obtain ⟨p, final, written, ended⟩ := Plan.run_bind_ok.mp rest
  rw [Plan.run_pure] at ended
  cases ended
  rw [Solver.both, Plan.run_request] at answered
  rw [recorded_run written]
  exact ⟨(SquareSystem.yields_of_answer answered).1, rfl, rfl, rfl⟩

theorem step_cases {t next : State α n} {ledger after : Ledger α n}
    (ran : (step o t).run (Ledger.answer s) ledger = (.ok next, after)) :
    s.Yields (.both next.progress.x) (next.progress.fx, next.progress.jac) ∧
      next.progress.iteration = t.progress.iteration + 1 ∧
      next.progress.tests = Convergence.assess next.progress.x (some t.progress.x)
        next.progress.fx o.xtol o.ftol := by
  simp only [step] at ran
  obtain ⟨direction, directed, found, rest⟩ := Plan.run_bind_ok.mp ran
  obtain ⟨⟨chosen, lineSearch⟩, searched, searching, rest⟩ := Plan.run_bind_ok.mp rest
  obtain ⟨alpha, checked, checking, rest⟩ := Plan.run_bind_ok.mp rest
  obtain ⟨⟨fx, jac⟩, called, answered, rest⟩ := Plan.run_bind_ok.mp rest
  obtain ⟨p, final, written, ended⟩ := Plan.run_bind_ok.mp rest
  rw [Plan.run_pure] at ended
  cases ended
  rw [Solver.both, Plan.run_request] at answered
  rw [recorded_run written]
  exact ⟨(SquareSystem.yields_of_answer answered).1, rfl, rfl⟩

end RootFinding.Newton
