import RootFinding.Proofs.Solver.Passes

namespace RootFinding.TrustRegion

variable {α : Type} [Scalar α] {n : Nat} {s : SquareSystem α} {o : Options α}

namespace State

def move (t : State α n) : Step α n :=
  doglegStep t.progress.jac t.progress.fx t.scaling t.delta

def trialPoint (t : State α n) : Vec α n := t.progress.x + t.move.p

def model (t : State α n) : Vec α n := t.progress.fx + t.progress.jac.mulVec t.move.p

def ratio (t : State α n) (trial : Vec α n) : α := reductionRatio t.progress.fx trial t.model

def nextRadius (t : State α n) (trial : Vec α n) : α :=
  updateRadius t.delta (t.ratio trial) (weightedNorm t.scaling t.move.p)

def Takes (s : SquareSystem α) (t : State α n) : Prop :=
  ∃ trial, s.Yields (.residual t.trialPoint) trial ∧ acceptRatio < t.ratio trial

instance (s : SquareSystem α) (t : State α n) : Decidable (t.Takes s) :=
  match answered : s.reply (.residual t.trialPoint) with
  | .ok trial =>
    if good : acceptRatio < t.ratio trial then
      .isTrue ⟨trial, SquareSystem.yields_iff.mpr answered, good⟩
    else
      .isFalse fun ⟨other, yields, better⟩ => by
        have same := (SquareSystem.yields_iff.mp yields).symm.trans answered
        rw [Except.ok.inj same] at better
        exact good better
  | .error failure =>
    .isFalse fun ⟨other, yields, _⟩ => by
      have same := (SquareSystem.yields_iff.mp yields).symm.trans answered
      cases same

end State

/-- An iteration that takes its step to a point with this residual. -/
structure Taken (s : SquareSystem α) (o : Options α) (t next : State α n) (trial : Vec α n) :
    Prop where
  ratio : acceptRatio < t.ratio trial
  jac : s.Yields (.jacobian t.trialPoint) next.progress.jac
  x : next.progress.x = t.trialPoint
  fx : next.progress.fx = trial
  tests : next.progress.tests =
    Convergence.assess t.trialPoint (some t.progress.x) trial o.xtol o.ftol
  scaling : next.scaling =
    if o.autoscale then updateScaling t.scaling next.progress.jac 0.1 else t.scaling

structure Kept (t next : State α n) (trial : Vec α n) : Prop where
  ratio : ¬ acceptRatio < t.ratio trial
  x : next.progress.x = t.progress.x
  fx : next.progress.fx = t.progress.fx
  jac : next.progress.jac = t.progress.jac
  tests : next.progress.tests = { t.progress.tests with byStep := false }
  scaling : next.scaling = t.scaling

theorem recorded_run {p q : Progress α n} {stepnorm : α} {account : Account α}
    {ledger after : Ledger α n}
    (ran : (recorded p stepnorm account).run (Ledger.answer s) ledger = (.ok q, after)) :
    q = { p with recorder := q.recorder } ∧ after.session = ledger.session := by
  simp only [recorded] at ran
  split at ran
  · obtain ⟨noted, between, told, rest⟩ := Plan.run_bind_ok.mp ran
    rw [Solver.note, Plan.run_request] at told
    cases told
    cases rest
    exact ⟨rfl, rfl⟩
  · cases ran
    exact ⟨rfl, rfl⟩

theorem start_cases {x : Vec α n} {t : State α n} {ledger after : Ledger α n}
    (ran : (start o x).run (Ledger.answer s) ledger = (.ok t, after)) :
    s.Yields (.both x) (t.progress.fx, t.progress.jac) ∧ t.progress.x = x ∧
      t.progress.iteration = 0 ∧
      t.progress.tests = Convergence.assess x none t.progress.fx o.xtol o.ftol ∧
      t.scaling = startScaling o.autoscale t.progress.jac ∧
      t.delta = startRadius o.factor t.scaling x := by
  simp only [start] at ran
  obtain ⟨⟨fx, jac⟩, called, answered, rest⟩ := Plan.run_bind_ok.mp ran
  obtain ⟨p, final, written, ended⟩ := Plan.run_bind_ok.mp rest
  rw [Plan.run_pure] at ended
  cases ended
  rw [Solver.both, Plan.run_request] at answered
  rw [(recorded_run written).1]
  exact ⟨(SquareSystem.yields_of_answer answered).1, rfl, rfl, rfl, rfl, rfl⟩

def settle (o : Options α) (t : State α n) (trial : Vec α n) : Solver α n (State α n) := do
  let (next, stepnorm) ←
    if acceptRatio < t.ratio trial then do
      let jac ← Solver.jacobian t.trialPoint
      pure (accept o t t.trialPoint trial jac (t.nextRadius trial))
    else pure (reject t (t.nextRadius trial), 0)
  let p ← recorded next.progress stepnorm ⟨t.delta, t.ratio trial, some t.move.kind⟩
  return { next with progress := p }

theorem step_eq (o : Options α) (t : State α n) :
    step o t = (if t.move.singular then Solver.note (.singularStep (t.progress.iteration + 1))
      else pure ()) >>= fun _ => Solver.residual t.trialPoint >>= settle o t := by
  simp only [step]
  change (if t.move.singular then _ else _) = _
  cases t.move.singular <;> rfl

theorem settle_cases {t next : State α n} {trial : Vec α n} {ledger after : Ledger α n}
    (ran : (settle o t trial).run (Ledger.answer s) ledger = (.ok next, after)) :
    next.delta = t.nextRadius trial ∧ next.progress.iteration = t.progress.iteration + 1 ∧
      (Taken s o t next trial ∨ Kept t next trial ∧ after.session = ledger.session) := by
  simp only [settle] at ran
  split at ran
  · rename_i good
    obtain ⟨jac, called, answered, rest⟩ := Plan.run_bind_ok.mp ran
    obtain ⟨reached, same, accepted, recording⟩ := Plan.run_bind_ok.mp rest
    obtain ⟨p, final, written, ended⟩ := Plan.run_bind_ok.mp recording
    rw [Plan.run_pure] at accepted ended
    cases accepted
    cases ended
    rw [Solver.jacobian, Plan.run_request] at answered
    rw [(recorded_run written).1]
    refine ⟨rfl, rfl, .inl ⟨good, ?_, rfl, rfl, rfl, rfl⟩⟩
    exact (SquareSystem.yields_of_answer answered).1
  · rename_i poor
    obtain ⟨reached, same, rejected, recording⟩ := Plan.run_bind_ok.mp ran
    obtain ⟨p, final, written, ended⟩ := Plan.run_bind_ok.mp recording
    rw [Plan.run_pure] at rejected ended
    cases rejected
    cases ended
    obtain ⟨shown, quiet⟩ := recorded_run written
    rw [shown]
    exact ⟨rfl, rfl, .inr ⟨⟨poor, rfl, rfl, rfl, rfl, rfl⟩, quiet⟩⟩

theorem noted_session {singular : Bool} {notice : Notice α} {told : Unit}
    {ledger after : Ledger α n}
    (ran : (if singular then Solver.note notice else pure () : Solver α n Unit).run
      (Ledger.answer s) ledger = (.ok told, after)) : after.session = ledger.session := by
  split at ran
  · rw [Solver.note, Plan.run_request] at ran
    cases ran
    rfl
  · cases ran
    rfl

/-- Everything an iteration that succeeds can have done. -/
theorem step_cases {t next : State α n} {ledger after : Ledger α n}
    (ran : (step o t).run (Ledger.answer s) ledger = (.ok next, after)) :
    ∃ trial, s.Yields (.residual t.trialPoint) trial ∧ next.delta = t.nextRadius trial ∧
      next.progress.iteration = t.progress.iteration + 1 ∧
      (Taken s o t next trial ∨
        Kept t next trial ∧ after.session.fCalls = ledger.session.fCalls + 1 ∧
          after.session.jCalls = ledger.session.jCalls) := by
  rw [step_eq] at ran
  obtain ⟨told, noted, noting, rest⟩ := Plan.run_bind_ok.mp ran
  obtain ⟨trial, tried, answered, rest⟩ := Plan.run_bind_ok.mp rest
  rw [Solver.residual, Plan.run_request] at answered
  obtain ⟨yields, fCalls, jCalls⟩ := SquareSystem.yields_of_answer answered
  have quiet := noted_session noting
  obtain ⟨delta, iteration, taken | ⟨kept, same⟩⟩ := settle_cases rest
  · exact ⟨trial, yields, delta, iteration, .inl taken⟩
  · refine ⟨trial, yields, delta, iteration, .inr ⟨kept, ?_, ?_⟩⟩
    · rw [same, fCalls, quiet]
      rfl
    · rw [same, jCalls, quiet]
      rfl

theorem allFinite_fx {x : Vec α n} {length : Nat} {states : Nat → State α n}
    {ledgers : Nat → Ledger α n} (passes : Passes s o .trustRegion x length states ledgers) :
    ∀ k ≤ length, (states k).progress.fx.allFinite := by
  refine passes.induct (motive := fun _ t => Vec.allFinite t.progress.fx) (fun ran => ?_)
    fun k _ ran finite => ?_
  · obtain ⟨yields, _⟩ := start_cases ran
    exact yields.both_allFinite.1
  · obtain ⟨trial, yields, _, _, taken | ⟨kept, _⟩⟩ := step_cases ran
    · rw [taken.fx]
      exact yields.residual_allFinite
    · rw [kept.fx]
      exact finite

theorem Kept.not_takes {t next : State α n} {trial : Vec α n} (kept : Kept t next trial)
    (yields : s.Yields (.residual t.trialPoint) trial) : ¬ t.Takes s := by
  rintro ⟨other, yieldsToo, good⟩
  rw [yieldsToo.unique yields] at good
  exact kept.ratio good

theorem recorded_unfailing (p : Progress α n) (stepnorm : α) (account : Account α) :
    (recorded p stepnorm account).Unfailing := by
  simp only [recorded]
  split
  · exact (Plan.unfailing_request _).bind fun _ => Plan.unfailing_pure _
  · exact Plan.unfailing_pure _

theorem start_unfailing (o : Options α) (x : Vec α n) : (start o x).Unfailing :=
  (Plan.unfailing_request _).bind fun _ =>
    (recorded_unfailing _ _ _).bind fun _ => Plan.unfailing_pure _

theorem settle_unfailing (o : Options α) (t : State α n) (trial : Vec α n) :
    (settle o t trial).Unfailing := by
  simp only [settle]
  split
  · exact (Plan.unfailing_request _).bind fun _ => (Plan.unfailing_pure _).bind fun _ =>
      (recorded_unfailing _ _ _).bind fun _ => Plan.unfailing_pure _
  · exact (Plan.unfailing_pure _).bind fun _ =>
      (recorded_unfailing _ _ _).bind fun _ => Plan.unfailing_pure _

theorem step_unfailing (o : Options α) (t : State α n) : (step o t).Unfailing := by
  rw [step_eq]
  refine Plan.Unfailing.bind ?_ fun _ =>
    (Plan.unfailing_request _).bind fun trial => settle_unfailing o t trial
  split
  · exact Plan.unfailing_request _
  · exact Plan.unfailing_pure _

theorem reached_isOk {x : Vec α n} (replies : ∀ q : Request α n, (s.reply q).isOk) (k : Nat) :
    (Method.trustRegion.reached s o x k).1.isOk := by
  induction k with
  | zero =>
    rw [Method.reached, Ledger.run_fst]
    exact (start_unfailing o x).value_isOk replies
  | succ k ih =>
    obtain ⟨t, found⟩ := Plan.exists_ok ih
    rw [Method.reached, found]
    dsimp only
    rw [Ledger.run_fst]
    exact (step_unfailing o t).value_isOk replies

end RootFinding.TrustRegion
