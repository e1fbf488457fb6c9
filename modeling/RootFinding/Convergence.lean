import RootFinding.Vec
import RootFinding.Fault

namespace RootFinding

open Scalar

variable {α : Type} [Scalar α]

structure Convergence where
  byStep : Bool
  byResidual : Bool
  deriving DecidableEq, Repr

namespace Convergence

def any (c : Convergence) : Bool := c.byStep || c.byResidual

/-- A step shorter than a positive tolerance, from a point with no undefined entry. -/
def stepTest {n : Nat} (x previous : Vec α n) (xtol : α) : Bool :=
  0 < xtol && !previous.anyNaN && (x - previous).norm < xtol

def residualTest {n : Nat} (fx : Vec α n) (ftol : α) : Bool := fx.maxNorm < ftol

def assess {n k : Nat} (x : Vec α n) (previous : Option (Vec α n)) (fx : Vec α k)
    (xtol ftol : α) : Convergence :=
  ⟨previous.any fun p => stepTest x p xtol, residualTest fx ftol⟩

end Convergence

def spreadPair {m n : Nat} (u : Vec α m) (v : Vec α n) :
    Except Fault ((k : Nat) × Vec α k × Vec α k) :=
  if h : n = m then .ok ⟨m, u, h ▸ v⟩
  else match m, n, u, v with
    | m, 1, u, v => .ok ⟨m, u, Vec.repeated m v⟩
    | 1, n, u, v => .ok ⟨n, Vec.repeated n u, v⟩
    | m, n, _, _ => .error (.cannotCombine [m] [n])

/-- The tests for points that may differ in length, as far as the step test compares them. -/
def Convergence.assessSpread {m n k : Nat} (x : Vec α m) (previous : Option (Vec α n))
    (fx : Vec α k) (xtol ftol : α) : Except Fault Convergence :=
  match previous with
  | none => .ok (assess x none fx xtol ftol)
  | some p =>
    if 0 < xtol && !p.anyNaN then do
      let ⟨_, x, p⟩ ← spreadPair x p
      return assess x (some p) fx xtol ftol
    else .ok (assess x none fx xtol ftol)

end RootFinding
