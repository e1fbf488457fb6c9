import RootFinding.TrustRegion.Scaling
import RootFinding.Elimination
import RootFinding.Failure

namespace RootFinding

open Scalar

variable {α : Type} [Scalar α] {m n : Nat}

/-- The solution of `J p = -f`, if there is one and it is finite. -/
def gaussNewtonStep (jac : Mat α n n) (fx : Vec α n) : Option (Vec α n) :=
  (Elimination.solve jac (-fx)).filter Vec.allFinite

def newtonDirection (jac : Mat α n n) (fx : Vec α n) (iteration : Int) :
    Except (Failure α) (Vec α n) :=
  match Elimination.solve jac (-fx) with
  | none => .error (.singular iteration)
  | some p => if p.allFinite then .ok p else .error (.directionNotFinite iteration)

/-- The gradient in scaled coordinates. -/
def scaledGradient (jac : Mat α m n) (fx : Vec α m) (d : Vec α n) : Vec α n :=
  Vector.zipWith (fun g s => g / (s * s)) (jac.tmulVec fx) d

/-- The squared length of the change that the linear model predicts along a direction. -/
def curvature (jac : Mat α m n) (direction : Vec α n) : α :=
  let change := jac.mulVec direction
  Vec.dot change change

/-- The gradient, and the minimizer of the linear model along its negative; zero when the model is
constant there. -/
def cauchyPoint (jac : Mat α m n) (fx : Vec α m) (d : Vec α n) : Vec α n × Vec α n :=
  let g := scaledGradient jac fx d
  let bend := curvature jac g
  if bend == 0 then (g, Vector.replicate n 0)
  else
    let length := weightedNorm d g
    (g, Vec.scale (-(length * length / bend)) g)

/-- The root of `a t ^ 2 + b t + c` that is positive when `c` is negative, cut off to lie between
zero and one. -/
def unitRoot (a b c : α) : α :=
  let root := sqrt (larger (b * b - 4.0 * a * c) 0)
  let tau :=
    if 0 ≤ b then
      let q := -0.5 * (b + root)
      if q == 0 then 0 else c / q
    else -0.5 * (b - root) / a
  smaller (larger tau 0) 1

/-- The share of `diff` at which the path from `start` meets the boundary, between zero and one; it
starts inside. -/
def doglegTau (start diff d : Vec α n) (delta : α) : α :=
  let a := weightedDot d diff diff
  if a == 0 then 0
  else
    unitRoot a (2.0 * weightedDot d start diff) (weightedDot d start start - delta * delta)

inductive StepKind where
  | newton
  | cauchy
  | dogleg
  deriving DecidableEq, Repr

def StepKind.name : StepKind → String
  | newton => "newton"
  | cauchy => "cauchy"
  | dogleg => "dogleg"

structure Step (α : Type) (n : Nat) where
  p : Vec α n
  kind : StepKind
  singular : Bool

/-- The step along the path to the full Newton step, or along the gradient when there is none. -/
def doglegPath (full : Option (Vec α n)) (jac : Mat α m n) (fx : Vec α m) (d : Vec α n)
    (delta : α) : Step α n :=
  match full.filter fun p => weightedNorm d p ≤ delta with
  | some p => ⟨p, .newton, false⟩
  | none =>
    let (g, cauchy) := cauchyPoint jac fx d
    let length := weightedNorm d g
    if delta ≤ weightedNorm d cauchy ∧ 0 < length then
      ⟨Vec.scale (-(delta / length)) g, .cauchy, full.isNone⟩
    else
      match full with
      | none => ⟨cauchy, .cauchy, true⟩
      | some p =>
        let diff := p - cauchy
        ⟨cauchy + Vec.scale (doglegTau cauchy diff d delta) diff, .dogleg, false⟩

def doglegStep (jac : Mat α n n) (fx : Vec α n) (d : Vec α n) (delta : α) : Step α n :=
  doglegPath (gaussNewtonStep jac fx) jac fx d delta

end RootFinding
