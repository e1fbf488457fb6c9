import RootFinding.Formula
import RootFinding.Failure

namespace RootFinding

/-- In place, a callable writes its value into a buffer, which it may fill by repetition. Otherwise
it returns the value, which has to have the shape of the buffer. -/
inductive Convention where
  | inPlace
  | outOfPlace
  | separateArguments
  deriving DecidableEq, Repr

def Convention.name : Convention → String
  | inPlace => "inplace"
  | outOfPlace => "out-of-place"
  | separateArguments => "scalar-args"

/-- The callables of a system. Without any for the Jacobian it is approximated by differences. The
one that a system is built on may be missing, which fails as soon as it is called. -/
inductive Sources (α : Type) where
  | residualOnly (f : Option (Callable α))
  | separate (f : Option (Callable α)) (j : Callable α)
  | withBoth (f j : Option (Callable α)) (fj : PairCallable α)
  | bothOnly (fj : Option (PairCallable α))

structure SquareSystem (α : Type) where
  convention : Convention
  sources : Sources α
  dimension : Option Nat

namespace Sources

variable {α : Type}

def of (f j : Option (Callable α)) : Sources α :=
  match j with
  | none => residualOnly f
  | some j => separate f j

def withPair (f j : Option (Callable α)) (fj : Option (PairCallable α)) : Sources α :=
  match fj with
  | none => of f j
  | some fj => withBoth f j fj

def analytic : Sources α → Bool
  | residualOnly _ => false
  | _ => true

def fused : Sources α → Bool
  | withBoth .. | bothOnly _ => true
  | _ => false

end Sources

namespace SquareSystem

variable {α : Type}

def build (convention : Convention) (sources : Sources α) (dimension : Option Int) :
    Except (Failure α) (SquareSystem α) :=
  match dimension with
  | none => .ok ⟨convention, sources, none⟩
  | some n =>
    if n < 1 then .error (.setting .dimension)
    else .ok ⟨convention, sources, some n.toNat⟩

def inPlace (f j : Option (Callable α)) (fj : Option (PairCallable α)) (dimension : Option Int) :
    Except (Failure α) (SquareSystem α) :=
  build .inPlace (.withPair f j fj) dimension

def outOfPlace (f j : Option (Callable α)) (fj : Option (PairCallable α))
    (dimension : Option Int) : Except (Failure α) (SquareSystem α) :=
  build .outOfPlace (.withPair f j fj) dimension

def separateArguments (f : Option (Callable α)) (dimension : Option Int)
    (j : Option (Callable α)) : Except (Failure α) (SquareSystem α) :=
  if dimension.isNone then .error (.fault .noDimension)
  else build .separateArguments (.of f j) dimension

def onlyBoth (fj : Option (PairCallable α)) (inPlace : Bool) (dimension : Option Int) :
    Except (Failure α) (SquareSystem α) :=
  build (if inPlace then .inPlace else .outOfPlace) (.bothOnly fj) dimension

def analytic (s : SquareSystem α) : Bool := s.sources.analytic

def fused (s : SquareSystem α) : Bool := s.sources.fused

end SquareSystem

/-- What is to be solved: a system, or a residual callable with an optional Jacobian. -/
inductive Equations (α : Type) where
  | system (s : SquareSystem α)
  | callable (f : Option (Callable α))

def Equations.toSystem {α : Type} (e : Equations α) (jacobian : Option (Callable α)) :
    Except (Failure α) (SquareSystem α) :=
  match e, jacobian with
  | .system s, none => .ok s
  | .system _, some _ => .error (.setting .alreadyWrapped)
  | .callable f, j => .ok ⟨.outOfPlace, .of f j, none⟩

end RootFinding
