import RootFinding.Trace.Entry
import RootFinding.Count
import RootFinding.SquareSystem.Basic

namespace RootFinding

inductive Level where
  | debug
  | info
  | warning
  deriving DecidableEq, Repr

def Level.name : Level → String
  | debug => "DEBUG"
  | info => "INFO"
  | warning => "WARNING"

def Level.rank : Level → Nat
  | debug => 0
  | info => 1
  | warning => 2

inductive Notice (α : Type) where
  | solveStart (method : String) (convention : Convention) (analytic : Bool)
  | solveDone (converged : Bool) (iterations : Nat) (residualNorm : α)
  | singularStep (iteration : Nat)
  | newtonStopped (iterations : Nat)
  | trustRegionStopped (iterations : Nat)
  | reductionsSpent (reductions : Count) (alpha : α)
  | wolfeFailed
  | traced (entry : Entry α)

namespace Notice

variable {α : Type}

def level : Notice α → Level
  | reductionsSpent .. | wolfeFailed => .warning
  | traced _ => .info
  | _ => .debug

def text : Notice Float → Except Fault String
  | solveStart method convention analytic =>
    .ok <| s!"solve start (method={method}, convention={convention.name}, " ++
      s!"analytic_jacobian={Datum.boolText analytic})"
  | solveDone converged iterations residualNorm =>
    .ok <| s!"solve done (converged={Datum.boolText converged}, iterations={iterations}, " ++
      s!"|f|={Decimal.scientificText 3 residualNorm})"
  | singularStep iteration =>
    .ok s!"singular Gauss-Newton system at iteration {iteration}, using Cauchy step"
  | newtonStopped iterations =>
    .ok s!"newton stopped after {iterations} iterations without convergence"
  | trustRegionStopped iterations =>
    .ok s!"trust region stopped after {iterations} iterations without convergence"
  | reductionsSpent reductions alpha => do
    let count ← match reductions with
      | .whole n => pure n
      | .real v => Decimal.truncate v
    return s!"backtracking did not satisfy Armijo after {count} reductions " ++
      s!"(alpha={Decimal.scientificText 3 alpha})"
  | wolfeFailed => .ok "strong Wolfe search failed, falling back to backtracking"
  | traced entry => entry.line 3 4

end Notice

structure LogLine where
  level : Level
  text : String
  deriving DecidableEq, Repr

namespace LogLine

def info (text : String) : LogLine := ⟨.info, text⟩

def shown (line : LogLine) : String := line.level.name ++ " " ++ line.text

end LogLine

def Notice.line? (n : Notice Float) : Option LogLine :=
  match n.text with
  | .ok text => some ⟨n.level, text⟩
  | .error _ => none

end RootFinding
