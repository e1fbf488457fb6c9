import RootFinding.Trace.Recorder
import RootFinding.Convergence
import RootFinding.Options

namespace RootFinding

structure Results (α : Type) where
  method : String
  initialX : List α
  zero : List α
  residual : List α
  residualNorm : α
  iterations : Int
  xConverged : Bool
  xtol : α
  fConverged : Bool
  ftol : α
  trace : List (Entry α)
  fCalls : Int
  jCalls : Int

def Results.converged {α : Type} (r : Results α) : Bool := r.xConverged || r.fConverged

/-- Where an iteration stands: the iterate with its residual and Jacobian, the tests that hold, and
the trace so far. -/
structure Progress (α : Type) (n : Nat) where
  x : Vec α n
  fx : Vec α n
  jac : Mat α n n
  iteration : Nat
  tests : Convergence
  recorder : Recorder α

namespace Progress

variable {α : Type} [Scalar α] {n : Nat}

def gradient (p : Progress α n) : Vec α n := p.jac.tmulVec p.fx

def start (o : Options α) (x fx : Vec α n) (jac : Mat α n n) : Progress α n where
  x := x
  fx := fx
  jac := jac
  iteration := 0
  tests := .assess x none fx o.xtol o.ftol
  recorder := ⟨o.storeTrace, o.showTrace, o.extendedTrace, []⟩

def extras (p : Progress α n) : Extras α :=
  [("x", .array (.ofVec p.x)), ("fx", .array (.ofVec p.fx)), ("g", .array (.ofVec p.gradient))]

def results (p : Progress α n) (o : Options α) (method : String) (initial : Vec α n)
    (fCalls jCalls : Nat) : Results α where
  method := method
  initialX := initial.toList
  zero := p.x.toList
  residual := p.fx.toList
  residualNorm := p.fx.maxNorm
  iterations := p.iteration
  xConverged := p.tests.byStep
  xtol := o.xtol
  fConverged := p.tests.byResidual
  ftol := o.ftol
  trace := p.recorder.trace
  fCalls := fCalls
  jCalls := jCalls

end Progress

end RootFinding
