import RootFinding.LineSearch.Merit
import RootFinding.Solver.Results
import RootFinding.TrustRegion.Dogleg

namespace RootFinding.Newton

open Scalar

variable {α : Type} [Scalar α] {n : Nat}

def name : String := "Newton with line-search"

/-- The progress of an iteration, and the line search as it is then. -/
structure State (α : Type) (n : Nat) where
  progress : Progress α n
  lineSearch : LineSearch α

def recorded (p : Progress α n) (stepnorm alpha : α) : Solver α n (Progress α n) := do
  let (recorder, shown) := p.recorder.record p.iteration p.fx.maxNorm stepnorm fun _ =>
    p.extras ++ [("alpha", .float alpha)]
  if let some entry := shown then Solver.note (.traced entry)
  return { p with recorder := recorder }

def start (o : Options α) (x : Vec α n) : Solver α n (State α n) := do
  let (fx, jac) ← Solver.both x
  let p ← recorded (Progress.start o x fx jac) undefined undefined
  return ⟨p, o.lineSearch⟩

def checkStep (alpha : α) : Except (Failure α) α :=
  if !isFinite alpha || alpha < 0 then .error (.invalidStep alpha) else .ok alpha

def step (o : Options α) (s : State α n) : Solver α n (State α n) := do
  let p := s.progress
  let iteration := p.iteration + 1
  let direction ← Solver.ofExcept (newtonDirection p.jac p.fx iteration)
  let slope := Vec.dot p.gradient direction
  let merit : Merit α n := ⟨p.x, direction, Merit.halfSquare p.fx⟩
  let (chosen, lineSearch) ← merit.search s.lineSearch slope
  let alpha ← Solver.ofExcept (checkStep chosen)
  let x := merit.point alpha
  let (fx, jac) ← Solver.both x
  let tests := Convergence.assess x (some p.x) fx o.xtol o.ftol
  let moved : Progress α n := ⟨x, fx, jac, iteration, tests, p.recorder⟩
  let p ← recorded moved (x - p.x).norm alpha
  return ⟨p, lineSearch⟩

def iterate (o : Options α) : (passes : Nat) → State α n → Solver α n (State α n)
  | 0, s => return s
  | passes + 1, s => do
    if s.progress.tests.any then return s
    else iterate o passes (← step o s)

def run (o : Options α) (x : Vec α n) : Solver α n (Progress α n) := do
  let s ← iterate o o.iterations.below (← start o x)
  let p := s.progress
  if !p.tests.any then Solver.note (.newtonStopped p.iteration)
  return p

end RootFinding.Newton
