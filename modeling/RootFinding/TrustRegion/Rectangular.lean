import RootFinding.TrustRegion.Dogleg
import RootFinding.Convergence

namespace RootFinding.Rectangular

open Scalar

variable {α : Type} [Scalar α] {m n k l : Nat}

def leading (n : Nat) (v : Vec α l) : Except Fault (Vec α n) :=
  if h : n ≤ l then .ok ((v.take n).cast (Nat.min_eq_left h)) else .error (.noEntry l l)

def weightedNorm (d : Vec α l) (v : Vec α n) : Except Fault α := do
  let d ← leading n d
  return RootFinding.weightedNorm d v

/-- The sum is over the entries of `u`; of the other two vectors the shorter one is missed first. -/
def weightedDot (d : Vec α l) (u : Vec α n) (v : Vec α k) : Except Fault α := do
  if k < l then
    let _ ← leading n v
  let d ← leading n d
  let v ← leading n v
  return RootFinding.weightedDot d u v

def doglegTau (start : Vec α n) (diff : Vec α k) (d : Vec α l) (delta : α) : Except Fault α := do
  let a ← weightedDot d diff diff
  if a == 0 then return 0
  else
    let b ← weightedDot d start diff
    let c ← weightedDot d start start
    return unitRoot a (2.0 * b) (c - delta * delta)

def updateScaling (d : Vec α l) (a : Mat α m n) (decay : α) : Except Fault (Vec α l) := do
  let norms ← leading l (columnNorms a)
  return Vector.zipWith (fun old c => larger (decay * old) c) d norms

def gaussNewtonStep (jac : Mat α m n) (fx : Vec α k) : Except Fault (Option (Vec α n)) :=
  if hm : m = n then
    if hk : k = n then .ok (RootFinding.gaussNewtonStep (hm ▸ jac : Mat α n n) (hk ▸ fx))
    else .error (.rightSideMismatch k m)
  else .ok none

def newtonDirection (jac : Mat α m n) (fx : Vec α k) (iteration : Int) :
    Except (Failure α) (Vec α n) :=
  if hm : m = n then
    if hk : k = n then RootFinding.newtonDirection (hm ▸ jac : Mat α n n) (hk ▸ fx) iteration
    else .error (.fault (.rightSideMismatch k m))
  else .error (.singular iteration)

def spreadScaling (n : Nat) (d : Vec α l) : Except Fault (Vec α n) :=
  if h : l = n then .ok (h ▸ d)
  else
    match l, d with
    | 1, d => .ok (Vec.repeated n d)
    | l, _ => .error (if n = 1 then .productMismatch l 1 else .cannotCombine [n] [l])

def fitted (m n : Nat) (fx : Vec α k) (d : Vec α l) : Except Fault (Vec α m × Vec α n) :=
  if h : k = m then do
    let d ← spreadScaling n d
    return (h ▸ fx, d)
  else .error (.productMismatch k m)

/-- Only a point that is not at the origin needs the entries of the scaling one by one. -/
def cauchyPoint (jac : Mat α m n) (fx : Vec α k) (d : Vec α l) :
    Except Fault (Vec α n × Vec α n) := do
  let (fx, spread) ← fitted m n fx d
  let (g, p) := RootFinding.cauchyPoint jac fx spread
  if curvature jac g == 0 then return (g, p)
  else
    let _ ← leading n d
    return (g, p)

def reaches (full : Option (Vec α n)) (d : Vec α l) (delta : α) : Except Fault Bool :=
  match full with
  | none => .ok false
  | some p => do
    let length ← weightedNorm d p
    return length ≤ delta

/-- The dogleg step. A full step inside the region needs no more of the scaling than its own
entries. -/
def doglegStep (jac : Mat α m n) (fx : Vec α k) (d : Vec α l) (delta : α) :
    Except Fault (Step α n) := do
  let full ← gaussNewtonStep jac fx
  match full, ← reaches full d delta with
  | some p, true => return ⟨p, .newton, false⟩
  | _, _ => do
    let (fx, spread) ← fitted m n fx d
    let _ ← leading n d
    return doglegPath full jac fx spread delta

end RootFinding.Rectangular
