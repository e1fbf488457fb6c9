import RootFinding.SquareSystem.Evaluation

namespace RootFinding

open Scalar

variable {α : Type} [Scalar α]

/-- The step for a coordinate: `sqrt epsilon * max |x| 1`. -/
def differenceStep (x : α) : α := sqrt epsilon * larger (magnitude x) 1

def stepped (x : α) : α := x + differenceStep x

def differenceColumn {m : Nat} (base moved : Vec α m) (step : α) : Vec α m :=
  (moved - base).map (· / step)

def setBlockColumn {m n : Nat} : {extents : List Nat} → extents = [m, n] → Block α extents →
    Fin n → Vec α m → Block α extents
  | _, rfl, a, j, c => Mat.setColumn a j c

namespace Evaluation

variable {m : Nat} {extents : List Nat}

/-- Fills one column. There is one point, which is moved along the coordinate and then moved back,
and one buffer for the residuals at moved points; both go on to the next column. -/
def fillColumn (residual : {k : Nat} → Array α → Evaluation α k extents Unit) (base : Vec α m)
    {n : Nat} (h : extents = [m, n]) (j : Fin n) (point : Vec α n) (buffer : Vec α m) :
    Evaluation α m extents (Vec α n × Vec α m) := do
  let held := point.get j
  let point := point.set j (stepped held) j.isLt
  -- The step as it is represented, not as it was asked for.
  let step := point.get j - held
  let buffer ← intoBuffer buffer (residual point.toArray)
  modify fun desk =>
    { desk with jacobian := setBlockColumn h desk.jacobian j (differenceColumn base buffer step) }
  return (point.set j held j.isLt, buffer)

def fillColumns (residual : {k : Nat} → Array α → Evaluation α k extents Unit) (base : Vec α m)
    {n : Nat} (h : extents = [m, n]) :
    (count : Nat) → count ≤ n → (point : Vec α n) → (buffer : Vec α m) → Evaluation α m extents Unit
  | 0, _, _, _ => pure ()
  | count + 1, bound, point, buffer => do
    let (point, buffer) ← fillColumn residual base h (Fin.rev ⟨count, bound⟩) point buffer
    fillColumns residual base h count (Nat.le_of_succ_le bound) point buffer

def differences (residual : {k : Nat} → Array α → Evaluation α k extents Unit) (x : Array α)
    (base : Vec α m) : Evaluation α m extents Unit :=
  if h : extents = [m, x.size] then
    fillColumns residual base h x.size (Nat.le_refl _) ⟨x, rfl⟩ (Block.constant 0 [m])
  else throw (.jacobianShape extents m x.size)

def differenceJacobian (residual : {k : Nat} → Array α → Evaluation α k extents Unit)
    (x : Array α) : Evaluation α m extents Unit :=
  match extents.head? with
  | none => throw (.fault .noArgument)
  | some rows => do
    let base ← intoResidual rows (residual x)
    let _ ← intoResidual rows (differences residual x base)

/-- The Jacobian of an evaluation that also yields a residual, which is dropped. -/
def jacobianOfBoth (both : {k : Nat} → Evaluation α k extents Unit) :
    Evaluation α m extents Unit :=
  match extents.head? with
  | none => throw (.fault .noArgument)
  | some rows => do
    let _ ← intoResidual rows both

def differenceBoth (residual : {k : Nat} → Array α → Evaluation α k extents Unit)
    (x : Array α) : Evaluation α m extents Unit := do
  residual x
  differences residual x (← get).residual

end Evaluation

namespace SquareSystem

variable {m : Nat} {extents : List Nat}

open Evaluation

def residual (s : SquareSystem α) (x : Array α) : Evaluation α m extents Unit :=
  match s.sources with
  | .residualOnly f | .separate f _ | .withBoth f _ _ => ownResidual s f x
  | .bothOnly fj => do
    let _ ← intoJacobian [m, x.size] (ownBoth s fj x)

def jacobian (s : SquareSystem α) (x : Array α) : Evaluation α m extents Unit :=
  match s.sources with
  | .residualOnly f => differenceJacobian (ownResidual s f) x
  | .separate _ j | .withBoth _ (some j) _ => ownJacobian s j x
  | .withBoth _ none fj => jacobianOfBoth (ownBoth s (some fj) x)
  | .bothOnly fj => jacobianOfBoth (ownBoth s fj x)

def both (s : SquareSystem α) (x : Array α) : Evaluation α m extents Unit :=
  match s.sources with
  | .residualOnly f => differenceBoth (ownResidual s f) x
  | .separate f j => do
    ownResidual s f x
    ownJacobian s j x
  | .withBoth _ _ fj => ownBoth s (some fj) x
  | .bothOnly fj => ownBoth s fj x

end SquareSystem

end RootFinding
