import RootFinding.Vec

namespace RootFinding

open Scalar

variable {α : Type} [Scalar α] {m n : Nat}

def weightedNorm (d v : Vec α n) : α :=
  sqrt (Vec.sum (Vector.zipWith (fun a b => a * b * (a * b)) d v))

def weightedDot (d u v : Vec α n) : α :=
  Vec.sum (Vector.zipWith (· * ·) (Vector.zipWith (fun a b => a * a * b) d u) v)

def columnNorms (a : Mat α m n) : Vec α n := a.columns.map Vec.norm

def initialScaling (a : Mat α m n) : Vec α n :=
  (columnNorms a).map fun c => if c == 0 then 1 else c

/-- The decayed scaling, or the column norm where that is larger. -/
def updateScaling (d : Vec α n) (a : Mat α m n) (decay : α) : Vec α n :=
  Vector.zipWith (fun old c => larger (decay * old) c) d (columnNorms a)

end RootFinding
