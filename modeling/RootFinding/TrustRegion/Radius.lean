import RootFinding.Vec

namespace RootFinding

open Scalar

variable {α : Type} [Scalar α]

/-- A step is taken when the ratio exceeds this. -/
def acceptRatio : α := 1e-4

/-- Actual over predicted decrease of the squared residual; zero when none is predicted. -/
def reductionRatio {m n k : Nat} (fx : Vec α m) (trial : Vec α n) (model : Vec α k) : α :=
  let now := Vec.dot fx fx
  let predicted := now - Vec.dot model model
  if 0 < predicted then (now - Vec.dot trial trial) / predicted else 0

/-- Half the radius after a poor step; after a good one at least twice the step. -/
def updateRadius (delta rho stepnorm : α) : α :=
  if rho < 0.1 then 0.5 * delta
  else if 0.5 ≤ rho then larger delta (2.0 * stepnorm)
  else delta

end RootFinding
