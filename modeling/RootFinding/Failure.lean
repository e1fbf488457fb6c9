import RootFinding.Fault
import RootFinding.Decimal.Text

namespace RootFinding

inductive Quantity where
  | residual
  | jacobian
  | both
  deriving DecidableEq, Repr

def Quantity.label : Quantity → String
  | residual => "residual"
  | jacobian => "jacobian"
  | both => "residual/jacobian"

inductive InvalidSetting where
  | dimension
  | xtol
  | ftol
  | iterations
  | factor
  | stepLength
  | decrease
  | reduction
  | order
  | reductions
  | maxstep
  | wolfe
  | maxiter
  | alreadyWrapped
  | method (name : String)
  deriving DecidableEq, Repr

def InvalidSetting.text : InvalidSetting → String
  | dimension => "n must be >= 1"
  | xtol => "xtol must be >= 0"
  | ftol => "ftol must be >= 0"
  | iterations => "iterations must be >= 0"
  | factor => "factor must be finite and > 0"
  | stepLength => "alpha must be > 0"
  | decrease => "c1 must be in (0, 1)"
  | reduction => "require 0 < rho_lo <= rho_hi < 1"
  | order => "order must be 2 or 3"
  | reductions => "iterations must be >= 1"
  | maxstep => "maxstep must be > 0"
  | wolfe => "require 0 < c1 < c2 < 1"
  | maxiter => "maxiter must be >= 1"
  | alreadyWrapped => "jacobian must be None when f is already wrapped"
  | method name => "Unsupported method: " ++ name

inductive Failure (α : Type) where
  | fault (f : Fault)
  | setting (s : InvalidSetting)
  | pointRank (extents : List Nat)
  | pointEmpty
  | pointLength (length dimension : Nat)
  | pointNotFinite
  | argumentCount (length dimension : Nat)
  | returnedShape (what : Quantity) (extents expected : List Nat)
  | jacobianShape (extents : List Nat) (rows columns : Nat)
  | raised (what : Quantity) (f : Fault) (x : Array α)
  | nonFinite (what : String) (x : Array α)
  | singular (iteration : Int)
  | directionNotFinite (iteration : Int)
  | invalidStep (alpha : α)

namespace Failure

variable {α : Type}

def className : Failure α → String
  | fault f => f.kind.name
  | setting _ | pointNotFinite | jacobianShape .. | invalidStep _ => "ValueError"
  | pointRank _ | pointEmpty | pointLength .. | argumentCount .. | returnedShape .. => "ShapeError"
  | raised .. | nonFinite .. => "EvaluationError"
  | singular _ | directionNotFinite _ => "SingularJacobianError"

def message : Failure Float → String
  | fault f => f.text
  | setting s => s.text
  | pointRank extents => "initial_x must be 1D, got shape " ++ extentsText ", " extents
  | pointEmpty => "initial_x must have at least one entry"
  | pointLength length dimension =>
    s!"initial_x length {length} does not match n={dimension}"
  | pointNotFinite => "initial_x must be finite"
  | argumentCount length dimension =>
    s!"point has shape ({length},), expected ({dimension},)"
  | returnedShape what extents expected =>
    what.label ++ " returned shape " ++ extentsText ", " extents ++ ", expected " ++
      extentsText ", " expected
  | jacobianShape extents rows columns =>
    "fjac shape " ++ extentsText ", " extents ++ s!" does not match ({rows}, {columns})"
  | raised what f _ => what.label ++ " evaluation raised " ++ f.summary
  | nonFinite what _ => what ++ " contains non-finite values"
  | singular iteration => s!"singular Jacobian at iteration {iteration}"
  | directionNotFinite iteration =>
    s!"Newton direction is not finite at iteration {iteration}"
  | invalidStep alpha =>
    "line search returned invalid step length " ++ Decimal.shortestText alpha

def point? : Failure α → Option (Array α)
  | raised _ _ x | nonFinite _ x => some x
  | _ => none

def cause? : Failure α → Option Fault
  | raised _ f _ => some f
  | _ => none

def iteration? : Failure α → Option Int
  | singular iteration | directionNotFinite iteration => some iteration
  | _ => none

end Failure

end RootFinding
