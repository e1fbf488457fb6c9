import RootFinding.SquareSystem.Basic
import RootFinding.Elimination

namespace RootFinding

open Scalar

variable {α : Type} [Elementary α]

structure Problem (α : Type) where
  name : String
  dimension : Nat
  residual : Callable α
  jacobian : Callable α
  start : Vec α dimension
  root : Option (Vec α dimension)
  description : String

namespace Problem

def system (p : Problem α) (analytic : Bool) : SquareSystem α :=
  let jacobian := if analytic then some p.jacobian else none
  ⟨.outOfPlace, .of (some p.residual) jacobian, some p.dimension⟩

def readmeResidual : Callable α := fun x => do
  let u ← x.entry 0
  let v ← x.entry 1
  let first := (u + 3.0) * (pow v 3 - 7.0) + 18.0
  let second ← Arithmetic.sin (v * (← Arithmetic.exp u) - 1)
  return .row [first, second]

def readmeJacobian : Callable α := fun x => do
  let u ← x.entry 0
  let e ← Arithmetic.exp u
  let v ← x.entry 1
  let c ← Arithmetic.cos (v * e - 1)
  return .rows [
    [pow v 3 - 7.0, 3.0 * pow v 2 * (u + 3.0)],
    [c * v * e, c * e]]

def readme : Problem α where
  name := "readme"
  dimension := 2
  residual := readmeResidual
  jacobian := readmeJacobian
  start := #v[0.1, 1.2]
  root := some #v[0, 1]
  description := "[(x+3)(y^3-7)+18, sin(y e^x - 1)]"

def rosenbrockResidual : Callable α := fun x => do
  let v ← x.entry 1
  let u ← x.entry 0
  return .row [10.0 * (v - pow u 2), 1 - u]

def rosenbrockJacobian : Callable α := fun x => do
  let u ← x.entry 0
  return .rows [[-20.0 * u, 10.0], [-1, 0]]

def rosenbrock : Problem α where
  name := "rosenbrock"
  dimension := 2
  residual := rosenbrockResidual
  jacobian := rosenbrockJacobian
  start := #v[-1.2, 1]
  root := some #v[1, 1]
  description := "Rosenbrock function as a 2x2 system"

def powellSingularResidual : Callable α := fun x => do
  let a ← x.entry 0
  let b ← x.entry 1
  let c ← x.entry 2
  let d ← x.entry 3
  return .row [
    a + 10.0 * b,
    sqrt 5.0 * (c - d),
    pow (b - 2.0 * c) 2,
    sqrt 10.0 * pow (a - d) 2]

def powellSingularJacobian : Callable α := fun x => do
  let b ← x.entry 1
  let c ← x.entry 2
  let a ← x.entry 0
  let d ← x.entry 3
  let inner := 2.0 * (b - 2.0 * c)
  let outer := 2.0 * sqrt 10.0 * (a - d)
  return .rows [
    [1, 10.0, 0, 0],
    [0, 0, sqrt 5.0, -sqrt 5.0],
    [0, inner, -2.0 * inner, 0],
    [outer, 0, 0, -outer]]

def powellSingular : Problem α where
  name := "powell_singular"
  dimension := 4
  residual := powellSingularResidual
  jacobian := powellSingularJacobian
  start := #v[3.0, -1, 0, 1]
  root := some #v[0, 0, 0, 0]
  description := "Powell singular function (singular Jacobian at the root)"

def fullTurn : α := 2.0 * Elementary.pi

/-- The angle of a point of the plane in turns, between a quarter before and three quarters after
the positive first axis. -/
def turns (u v : α) : α :=
  if 0 < u then Elementary.atan (v / u) / fullTurn
  else if u < 0 then Elementary.atan (v / u) / fullTurn + 0.5
  else Elementary.withSign 0.25 v

def helicalValleyResidual : Callable α := fun x => do
  let u ← x.entry 0
  let v ← x.entry 1
  let w ← x.entry 2
  return .row [10.0 * (w - 10.0 * turns u v), 10.0 * (Elementary.hypot u v - 1), w]

def helicalValleyJacobian : Callable α := fun x => do
  let u ← x.entry 0
  let v ← x.entry 1
  let square := pow u 2 + pow v 2
  let r := sqrt square
  return .rows [
    [100.0 * v / (fullTurn * square), -100.0 * u / (fullTurn * square), 10.0],
    [10.0 * u / r, 10.0 * v / r, 0],
    [0, 0, 1]]

def helicalValley : Problem α where
  name := "helical_valley"
  dimension := 3
  residual := helicalValleyResidual
  jacobian := helicalValleyJacobian
  start := #v[-1, 0, 0]
  root := some #v[1, 0, 0]
  description := "Fletcher-Powell helical valley"

def powellBadlyScaledResidual : Callable α := fun x => do
  let u ← x.entry 0
  let v ← x.entry 1
  let eu ← Arithmetic.exp (-u)
  let ev ← Arithmetic.exp (-v)
  return .row [1e4 * u * v - 1, eu + ev - 1.0001]

def powellBadlyScaledJacobian : Callable α := fun x => do
  let v ← x.entry 1
  let u ← x.entry 0
  let eu ← Arithmetic.exp (-u)
  let ev ← Arithmetic.exp (-v)
  return .rows [[1e4 * v, 1e4 * u], [-eu, -ev]]

def powellBadlyScaled : Problem α where
  name := "powell_badly_scaled"
  dimension := 2
  residual := powellBadlyScaledResidual
  jacobian := powellBadlyScaledJacobian
  start := #v[0, 1]
  root := none
  description := "Powell badly scaled function"

def affineMatrix : Mat α 3 3 := #v[#v[4.0, 1, 0], #v[1, 3.0, 1], #v[0, 1, 2.0]]

def affineOffset : Vec α 3 := #v[1, 2.0, 3.0]

def affineResidual : Callable α := fun x =>
  if h : x.entries.size = 3 then
    .ok (.ofVec (affineMatrix.mulVec (⟨x.entries, h⟩ : Vec α 3) - affineOffset))
  else .error (.productMismatch x.entries.size 3)

def affine : Problem α where
  name := "affine"
  dimension := 3
  residual := affineResidual
  jacobian := fun _ => .ok (.ofMat affineMatrix)
  start := #v[0, 0, 0]
  root := Elimination.solve affineMatrix affineOffset
  description := "A x - b with a symmetric positive definite A"

def constant : Problem α where
  name := "constant"
  dimension := 1
  residual := fun _ => .ok (.row [1])
  jacobian := fun _ => .ok (.rows [[0]])
  start := #v[1]
  root := none
  description := "f(x) = 1, no root"

def all : List (Problem α) :=
  [readme, rosenbrock, powellSingular, helicalValley, powellBadlyScaled, affine, constant]

def named (name : String) : Except Fault (Problem α) :=
  match all.find? (·.name == name) with
  | some p => .ok p
  | none => .error (.raised .key s!"Unknown problem: {name}")

end Problem

end RootFinding
