import RootFinding.LineSearch.StrongWolfe
import RootFinding.Solver.Session

namespace RootFinding

open Scalar

variable {α : Type} [Scalar α] {n : Nat}

/-- Half the squared residual at `x + alpha * direction`, known at zero. -/
structure Merit (α : Type) (n : Nat) where
  x : Vec α n
  direction : Vec α n
  phi0 : α

namespace Merit

def halfSquare (fx : Vec α n) : α := 0.5 * Vec.dot fx fx

def point (merit : Merit α n) (alpha : α) : Vec α n := merit.x + Vec.scale alpha merit.direction

def value (merit : Merit α n) (alpha : α) : Solver α n α :=
  if alpha == 0 then return merit.phi0
  else do
    let fx ← Solver.residual (merit.point alpha)
    return halfSquare fx

def slope (merit : Merit α n) (alpha : α) : Solver α n α := do
  let (fx, jac) ← Solver.both (merit.point alpha)
  return Vec.dot (Mat.tmulVec jac fx) merit.direction

def serve (merit : Merit α n) : (q : MeritRequest α) → Solver α n q.Answer
  | .value alpha => merit.value alpha
  | .slope alpha => merit.slope alpha
  | .note m => Solver.note m

def search (merit : Merit α n) (strategy : LineSearch α) (slope : α) :
    Solver α n (α × LineSearch α) :=
  (strategy.search merit.phi0 slope merit.direction.norm).serve merit.serve

end Merit

end RootFinding
