import RootFinding.LineSearch.Basic
import RootFinding.Arithmetic

namespace RootFinding

open Scalar

variable {α : Type} [Scalar α]

structure Trial (α : Type) where
  alpha : α
  phi : α

/-- The minimizer of the cubic through the value and slope at zero and two trials. There is none
through trials that cannot be told apart, nor of a line. -/
def cubicProposal (phi0 slope : α) (older newer : Trial α) : Except Fault (Option α) := do
  let a0 := older.alpha
  let a1 := newer.alpha
  if a0 == 0 || a1 == 0 || a0 == a1 then return none
  let r1 := newer.phi - phi0 - slope * a1
  let r0 := older.phi - phi0 - slope * a0
  let div ← Arithmetic.divide 1 (a0 * a0 * a1 * a1 * (a1 - a0))
  let a := (a0 * a0 * r1 - a1 * a1 * r0) * div
  let cube0 ← Arithmetic.power a0 3
  let cube1 ← Arithmetic.power a1 3
  let b := (-cube0 * r1 + cube1 * r0) * div
  if magnitude a ≤ epsilon then
    return if b == 0 then none else some (-slope / (2.0 * b))
  else
    let disc := larger (b * b - 3.0 * a * slope) 0
    return some ((-b + sqrt disc) / (3.0 * a))

/-- The minimizer as a binary64 number, where an undefined one stands for none. -/
def cubicStep [Binary64.Powers] (phi0 slope : Float) (older newer : Trial Float) :
    Except Fault Float := do
  return (← cubicProposal phi0 slope older newer).getD undefined

namespace Backtracking

def initialStep (b : Backtracking α) (length : α) : α :=
  match b.maxstep with
  | none => 1
  | some limit => if length == 0 then 1 else smaller 1 (limit / length)

/-- The minimizer of the quadratic through the value and slope at zero and one trial. -/
def quadraticStep (b : Backtracking α) (phi0 slope : α) (t : Trial α) : α :=
  let denom := 2.0 * (t.phi - phi0 - slope * t.alpha)
  if denom == 0 then t.alpha * b.rhoHi else -(slope * t.alpha * t.alpha) / denom

/-- A proposal kept within the reduction factors of the last trial. Without one, or when it is not
finite, the trial is reduced as little as these allow. -/
def safeguard (b : Backtracking α) (last : α) (proposal : Option α) : α :=
  let proposal := (proposal.filter isFinite).getD (last * b.rhoHi)
  larger (smaller proposal (last * b.rhoHi)) (last * b.rhoLo)

def proposal (b : Backtracking α) (phi0 slope : α) (first : Bool) (older newer : Trial α) :
    Except Fault (Option α) :=
  if b.order.equals 2 || first then .ok (some (b.quadraticStep phi0 slope newer))
  else cubicProposal phi0 slope older newer

def tooHigh (b : Backtracking α) (phi0 slope : α) (t : Trial α) : Bool :=
  phi0 + b.c1 * t.alpha * slope < t.phi

/-- Reduces the last trial while it is too high and reductions are left. -/
def reduce (b : Backtracking α) (phi0 slope : α) :
    (left : Nat) → (first : Bool) → (older newer : Trial α) → Search α α
  | left, first, older, newer =>
    if b.tooHigh phi0 slope newer then
      match left with
      | 0 => do
        Search.note (.reductionsSpent b.iterations newer.alpha)
        return newer.alpha
      | left + 1 => do
        let proposed ← Search.ofExcept (b.proposal phi0 slope first older newer)
        let alpha := b.safeguard newer.alpha proposed
        let phi ← Search.value alpha
        reduce b phi0 slope left false newer ⟨alpha, phi⟩
    else return newer.alpha

def search (b : Backtracking α) (phi0 slope length : α) : Search α α := do
  let alpha := b.initialStep length
  let phi ← Search.value alpha
  b.reduce phi0 slope b.iterations.upTo true ⟨alpha, phi⟩ ⟨alpha, phi⟩

end Backtracking

end RootFinding
