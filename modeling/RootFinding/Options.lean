import RootFinding.LineSearch.Basic

namespace RootFinding

open Scalar

structure Options (α : Type) where
  xtol : α
  ftol : α
  iterations : Count
  storeTrace : Bool
  showTrace : Bool
  extendedTrace : Bool
  factor : α
  autoscale : Bool
  lineSearch : LineSearch α

namespace Options

variable {α : Type} [Scalar α]

def standard : Options α where
  xtol := 0
  ftol := 1e-8
  iterations := .whole 1000
  storeTrace := false
  showTrace := false
  extendedTrace := false
  factor := 1
  autoscale := true
  lineSearch := .backtracking .standard

def invalid? (o : Options α) : Option InvalidSetting :=
  if ¬ 0 ≤ o.xtol then some .xtol
  else if ¬ 0 ≤ o.ftol then some .ftol
  else if o.iterations.isBelow 0 then some .iterations
  else if ¬ 0 < o.factor ∨ isInfinite o.factor then some .factor
  else none

def check (o : Options α) : Except (Failure α) (Options α) :=
  match o.invalid? with
  | some setting => .error (.setting setting)
  | none => .ok o

end Options

end RootFinding
