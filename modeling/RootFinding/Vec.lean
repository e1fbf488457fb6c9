import RootFinding.Scalar

namespace RootFinding

open Scalar

abbrev Vec (α : Type) (n : Nat) := Vector α n

abbrev Mat (α : Type) (m n : Nat) := Vector (Vector α n) m

namespace Vec

variable {α : Type} [Scalar α] {n : Nat}

def sum (v : Vec α n) : α := v.foldl (· + ·) 0

def dot (u v : Vec α n) : α := sum (Vector.zipWith (· * ·) u v)

def norm (v : Vec α n) : α := sqrt (dot v v)

def maxNorm (v : Vec α n) : α :=
  v.foldl (fun best a => if best < magnitude a || isNaN a then magnitude a else best) 0

def scale (a : α) (v : Vec α n) : Vec α n := v.map (a * ·)

def allFinite (v : Vec α n) : Bool := v.all isFinite

def anyNaN (v : Vec α n) : Bool := v.any isNaN

def repeated (m : Nat) (v : Vec α 1) : Vec α m := Vector.replicate m v[0]

def ofList (xs : List α) : Vec α xs.length := ⟨xs.toArray, List.size_toArray⟩

end Vec

namespace Mat

variable {α : Type} {m n : Nat}

def column (a : Mat α m n) (j : Fin n) : Vec α m := a.map (·[j])

def setColumn (a : Mat α m n) (j : Fin n) (c : Vec α m) : Mat α m n :=
  Vector.zipWith (fun row entry => row.set j entry) a c

def columns (a : Mat α m n) : Vector (Vec α m) n := Vector.ofFn a.column

variable [Scalar α]

def mulVec (a : Mat α m n) (v : Vec α n) : Vec α m := a.map (Vec.dot · v)

def tmulVec (a : Mat α m n) (u : Vec α m) : Vec α n := a.columns.map (Vec.dot · u)

def allFinite (a : Mat α m n) : Bool := a.all Vec.allFinite

end Mat

end RootFinding
