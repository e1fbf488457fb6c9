import RootFinding.Solver.Session
import RootFinding.Solver.Results
import RootFinding.TrustRegion.Dogleg
import RootFinding.TrustRegion.Radius

namespace RootFinding.TrustRegion

open Scalar

variable {α : Type} [Scalar α] {n : Nat}

def name : String := "Trust-region with dogleg and autoscaling"

structure State (α : Type) (n : Nat) where
  progress : Progress α n
  scaling : Vec α n
  delta : α

/-- What is known of a step: the radius it was computed with, its ratio and its kind. -/
structure Account (α : Type) where
  delta : α
  rho : α
  kind : Option StepKind

def Account.extras (a : Account α) : Extras α :=
  [("delta", .float a.delta), ("rho", .float a.rho),
    ("step_kind", match a.kind with
      | some kind => .text kind.name
      | none => .null)]

def recorded (p : Progress α n) (stepnorm : α) (account : Account α) :
    Solver α n (Progress α n) := do
  let (recorder, shown) := p.recorder.record p.iteration p.fx.maxNorm stepnorm fun _ =>
    p.extras ++ account.extras
  if let some entry := shown then Solver.note (.traced entry)
  return { p with recorder := recorder }

def startScaling (autoscale : Bool) (jac : Mat α n n) : Vec α n :=
  if autoscale then initialScaling jac else Vector.replicate n 1

def startRadius (factor : α) (scaling x : Vec α n) : α :=
  let delta := factor * weightedNorm scaling x
  if delta == 0 then factor else delta

def start (o : Options α) (x : Vec α n) : Solver α n (State α n) := do
  let (fx, jac) ← Solver.both x
  let scaling := startScaling o.autoscale jac
  let delta := startRadius o.factor scaling x
  let p ← recorded (Progress.start o x fx jac) undefined ⟨delta, undefined, none⟩
  return ⟨p, scaling, delta⟩

def accept (o : Options α) (s : State α n) (x fx : Vec α n) (jac : Mat α n n) (delta : α) :
    State α n × α :=
  let p := s.progress
  let tests := Convergence.assess x (some p.x) fx o.xtol o.ftol
  let scaling := if o.autoscale then updateScaling s.scaling jac 0.1 else s.scaling
  (⟨⟨x, fx, jac, p.iteration + 1, tests, p.recorder⟩, scaling, delta⟩, (x - p.x).norm)

def reject (s : State α n) (delta : α) : State α n :=
  let p := s.progress
  { s with
    progress := { p with iteration := p.iteration + 1, tests := { p.tests with byStep := false } }
    delta := delta }

def step (o : Options α) (s : State α n) : Solver α n (State α n) := do
  let p := s.progress
  let move := doglegStep p.jac p.fx s.scaling s.delta
  if move.singular then Solver.note (.singularStep (p.iteration + 1))
  let x := p.x + move.p
  let trial ← Solver.residual x
  let rho := reductionRatio p.fx trial (p.fx + p.jac.mulVec move.p)
  let delta := updateRadius s.delta rho (weightedNorm s.scaling move.p)
  let (next, stepnorm) ←
    if acceptRatio < rho then do
      let jac ← Solver.jacobian x
      pure (accept o s x trial jac delta)
    else pure (reject s delta, 0)
  let p ← recorded next.progress stepnorm ⟨s.delta, rho, some move.kind⟩
  return { next with progress := p }

def iterate (o : Options α) : (passes : Nat) → State α n → Solver α n (State α n)
  | 0, s => return s
  | passes + 1, s => do
    if s.progress.tests.any then return s
    else iterate o passes (← step o s)

def run (o : Options α) (x : Vec α n) : Solver α n (Progress α n) := do
  let s ← iterate o o.iterations.below (← start o x)
  let p := s.progress
  if !p.tests.any then Solver.note (.trustRegionStopped p.iteration)
  return p

end RootFinding.TrustRegion
