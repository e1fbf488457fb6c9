import RootFinding.Proofs.Solver.Simulation
import RootFinding.Proofs.Solver.Report

namespace RootFinding

open Scalar

variable {α : Type} [Scalar α] {n : Nat} {s : SquareSystem α} {o : Options α}

/-- The progress with an entry for it, with these extras after those of every method. -/
def Progress.entered (p : Progress α n) (stepnorm : α) (more : Extras α) : Progress α n :=
  { p with recorder := (p.recorder.record p.iteration p.fx.maxNorm stepnorm fun _ =>
      p.extras ++ more).1 }

theorem Solver.value_ofExcept {β : Type} (e : Except (Failure α) β) :
    (Solver.ofExcept e : Solver α n β).value s.reply = e := by
  cases e <;> rfl

namespace TrustRegion

theorem recorded_value (p : Progress α n) (stepnorm : α) (account : Account α) :
    (recorded p stepnorm account).value s.reply = .ok (p.entered stepnorm account.extras) := by
  simp only [recorded]
  split <;> rfl

def State.first (o : Options α) (x fx : Vec α n) (jac : Mat α n n) : State α n :=
  let scaling := startScaling o.autoscale jac
  let delta := startRadius o.factor scaling x
  ⟨(Progress.start o x fx jac).entered undefined (Account.extras ⟨delta, undefined, none⟩),
    scaling, delta⟩

namespace State

def account (t : State α n) (trial : Vec α n) : Account α :=
  ⟨t.delta, t.ratio trial, some t.move.kind⟩

def taken (o : Options α) (t : State α n) (trial : Vec α n) (jac : Mat α n n) : State α n :=
  let next := (accept o t t.trialPoint trial jac (t.nextRadius trial)).1
  let stepnorm := (t.trialPoint - t.progress.x).norm
  { next with progress := next.progress.entered stepnorm (t.account trial).extras }

def kept (t : State α n) (trial : Vec α n) : State α n :=
  let next := reject t (t.nextRadius trial)
  { next with progress := next.progress.entered 0 (t.account trial).extras }

end State

theorem start_value (o : Options α) (x : Vec α n) : (start o x).value s.reply =
    s.reply (.both x) >>= fun pair => .ok (State.first o x pair.1 pair.2) := by
  simp only [start, Solver.both, Plan.value_bind, Plan.value_request, recorded_value]
  rfl

theorem step_value (o : Options α) (t : State α n) : (step o t).value s.reply =
    s.reply (.residual t.trialPoint) >>= fun trial =>
      if acceptRatio < t.ratio trial then
        s.reply (.jacobian t.trialPoint) >>= fun jac => .ok (t.taken o trial jac)
      else .ok (t.kept trial) := by
  have told : ((if t.move.singular then Solver.note (.singularStep (t.progress.iteration + 1))
      else pure () : Solver α n Unit)).value s.reply = .ok () := by
    split <;> rfl
  have settled (trial : Vec α n) : (settle o t trial).value s.reply =
      if acceptRatio < t.ratio trial then
        s.reply (.jacobian t.trialPoint) >>= fun jac => .ok (t.taken o trial jac)
      else .ok (t.kept trial) := by
    simp only [settle]
    split
    · simp only [Solver.jacobian, Plan.value_bind, Plan.value_request, recorded_value,
        Plan.value_pure]
      rfl
    · simp only [Plan.value_bind, recorded_value, Plan.value_pure]
      rfl
  rw [step_eq, Plan.value_bind, told]
  change (Solver.residual t.trialPoint >>= settle o t).value s.reply = _
  rw [Plan.value_bind, Solver.residual, Plan.value_request]
  exact congrArg _ (funext settled)

end TrustRegion

namespace Newton

theorem recorded_value (p : Progress α n) (stepnorm alpha : α) :
    (recorded p stepnorm alpha).value s.reply =
      .ok (p.entered stepnorm [("alpha", .float alpha)]) := by
  simp only [recorded]
  split <;> rfl

def State.first (o : Options α) (x fx : Vec α n) (jac : Mat α n n) : State α n :=
  ⟨(Progress.start o x fx jac).entered undefined [("alpha", .float undefined)], o.lineSearch⟩

namespace State

def merit (t : State α n) (direction : Vec α n) : Merit α n :=
  ⟨t.progress.x, direction, Merit.halfSquare t.progress.fx⟩

def slope (t : State α n) (direction : Vec α n) : α := Vec.dot t.progress.gradient direction

/-- The progress at the next point, once its residual and Jacobian are known. -/
def moved (o : Options α) (t : State α n) (x fx : Vec α n) (jac : Mat α n n) : Progress α n :=
  ⟨x, fx, jac, t.progress.iteration + 1,
    Convergence.assess x (some t.progress.x) fx o.xtol o.ftol, t.progress.recorder⟩

end State

theorem start_value (o : Options α) (x : Vec α n) : (start o x).value s.reply =
    s.reply (.both x) >>= fun pair => .ok (State.first o x pair.1 pair.2) := by
  simp only [start, Solver.both, Plan.value_bind, Plan.value_request, recorded_value]
  rfl

theorem step_value (o : Options α) (t : State α n) : (step o t).value s.reply =
    newtonDirection t.progress.jac t.progress.fx (t.progress.iteration + 1 : Nat) >>=
      fun direction =>
    ((t.merit direction).search t.lineSearch (t.slope direction)).value s.reply >>= fun found =>
    checkStep found.1 >>= fun alpha =>
    let x := (t.merit direction).point alpha
    s.reply (.both x) >>= fun pair =>
    .ok ⟨(t.moved o x pair.1 pair.2).entered (x - t.progress.x).norm [("alpha", .float alpha)],
      found.2⟩ := by
  simp only [step, Solver.both, Plan.value_bind, Plan.value_request, Solver.value_ofExcept,
    recorded_value]
  rfl

theorem checkStep_eq_ok {chosen alpha : α} (checked : checkStep chosen = .ok alpha) :
    alpha = chosen := by
  unfold checkStep at checked
  split at checked
  · cases checked
  · exact (Except.ok.inj checked).symm

/-- An iteration along this direction with a step of this length, to a point where this is known;
the line search that is left is for the next one. -/
structure State.Leads (s : SquareSystem α) (t : State α n) (direction : Vec α n) (alpha : α)
    (known : Vec α n × Mat α n n) (left : LineSearch α) : Prop where
  directed : newtonDirection t.progress.jac t.progress.fx (t.progress.iteration + 1 : Nat) =
    .ok direction
  searched : ((t.merit direction).search t.lineSearch (t.slope direction)).value s.reply =
    .ok (alpha, left)
  checked : checkStep alpha = .ok alpha
  both : s.reply (.both ((t.merit direction).point alpha)) = .ok known

def State.led (o : Options α) (t : State α n) (direction : Vec α n) (alpha : α)
    (known : Vec α n × Mat α n n) (left : LineSearch α) : State α n :=
  let x := (t.merit direction).point alpha
  ⟨(t.moved o x known.1 known.2).entered (x - t.progress.x).norm [("alpha", .float alpha)], left⟩

theorem step_eq_ok {t next : State α n} : (step o t).value s.reply = .ok next ↔
    ∃ direction alpha known left, t.Leads s direction alpha known left ∧
      t.led o direction alpha known left = next := by
  rw [step_value]
  constructor
  · intro stepped
    obtain ⟨direction, directed, rest⟩ := Except.bind_ok.mp stepped
    obtain ⟨⟨chosen, left⟩, searched, rest⟩ := Except.bind_ok.mp rest
    obtain ⟨alpha, checked, rest⟩ := Except.bind_ok.mp rest
    obtain ⟨known, both, same⟩ := Except.bind_ok.mp rest
    obtain rfl := checkStep_eq_ok checked
    exact ⟨direction, alpha, known, left, ⟨directed, searched, checked, both⟩, Except.ok.inj same⟩
  · rintro ⟨direction, alpha, known, left, ⟨directed, searched, checked, both⟩, rfl⟩
    exact Except.bind_ok.mpr ⟨direction, directed, Except.bind_ok.mpr ⟨_, searched,
      Except.bind_ok.mpr ⟨alpha, checked, Except.bind_ok.mpr ⟨known, both, rfl⟩⟩⟩⟩

def State.stepLength (s : SquareSystem α) (t : State α n) : Except (Failure α) α := do
  let direction ← newtonDirection t.progress.jac t.progress.fx (t.progress.iteration + 1 : Nat)
  let found ← ((t.merit direction).search t.lineSearch (t.slope direction)).value s.reply
  checkStep found.1

theorem State.Leads.stepLength {t : State α n} {direction : Vec α n} {alpha : α}
    {known : Vec α n × Mat α n n} {left : LineSearch α}
    (leads : t.Leads s direction alpha known left) : t.stepLength s = .ok alpha :=
  Except.bind_ok.mpr ⟨direction, leads.directed,
    Except.bind_ok.mpr ⟨_, leads.searched, leads.checked⟩⟩

end Newton

variable {m : Method} {x : Vec α n} {length : Nat} {states : Nat → m.State α n}
  {ledgers : Nat → Ledger α n}

theorem Passes.byResidual (passes : Passes s o m x length states ledgers) :
    ∀ k ≤ length, (m.progress (states k)).tests.byResidual =
      Convergence.residualTest (m.progress (states k)).fx o.ftol := by
  refine passes.induct (motive := fun _ t => (m.progress t).tests.byResidual =
    Convergence.residualTest (m.progress t).fx o.ftol) (fun ran => ?_) fun k _ ran before => ?_
  · cases m with
    | trustRegion =>
      obtain ⟨_, _, _, tests, _⟩ := TrustRegion.start_cases ran
      exact congrArg Convergence.byResidual tests
    | newton =>
      obtain ⟨_, _, _, tests⟩ := Newton.start_cases ran
      exact congrArg Convergence.byResidual tests
  · cases m with
    | trustRegion =>
      obtain ⟨trial, _, _, _, taken | ⟨kept, _⟩⟩ := TrustRegion.step_cases ran
      · change Convergence.byResidual (TrustRegion.State.progress _).tests =
          Convergence.residualTest (TrustRegion.State.progress _).fx _
        rw [taken.tests, taken.fx]
        rfl
      · change Convergence.byResidual (TrustRegion.State.progress _).tests =
          Convergence.residualTest (TrustRegion.State.progress _).fx _
        rw [kept.tests, kept.fx]
        exact before
    | newton =>
      obtain ⟨_, _, tests⟩ := Newton.step_cases ran
      exact congrArg Convergence.byResidual tests

theorem Passes.start_byStep (passes : Passes s o m x length states ledgers) :
    (m.progress (states 0)).tests.byStep = false := by
  have started := passes.start
  cases m with
  | trustRegion =>
    obtain ⟨_, _, _, tests, _⟩ := TrustRegion.start_cases started
    exact congrArg Convergence.byStep tests
  | newton =>
    obtain ⟨_, _, _, tests⟩ := Newton.start_cases started
    exact congrArg Convergence.byStep tests

end RootFinding
