import RootFinding.Trace.Notice
import RootFinding.Plan

namespace RootFinding

open Scalar

/-- Decreasing trials until one lies below the Armijo line. No `maxstep` is no limit on the length
of a step. -/
structure Backtracking (α : Type) where
  c1 : α
  rhoHi : α
  rhoLo : α
  iterations : Count
  order : Count
  maxstep : Option α

/-- The value of a merit function and its slope at a step length, and what is to be reported. -/
inductive MeritRequest (α : Type) where
  | value (alpha : α)
  | slope (alpha : α)
  | note (n : Notice α)

abbrev MeritRequest.Answer {α : Type} : MeritRequest α → Type
  | value _ => α
  | slope _ => α
  | note _ => Unit

abbrev Search (α : Type) (β : Type) := Plan (MeritRequest α) MeritRequest.Answer (Failure α) β

inductive LineSearch (α : Type) where
  | fixed (alpha : α)
  | backtracking (b : Backtracking α)
  | strongWolfe (c1 c2 : α) (maxiter : Count) (fallback : LineSearch α)
  | sequence (upcoming : List α)

namespace Search

variable {α : Type}

def value (alpha : α) : Search α α := Plan.request (MeritRequest.value alpha)

def slope (alpha : α) : Search α α := Plan.request (MeritRequest.slope alpha)

def note (n : Notice α) : Search α Unit := Plan.request (MeritRequest.note n)

def ofExcept {β : Type} : Except Fault β → Search α β
  | .ok b => .done b
  | .error f => .fail (.fault f)

end Search

variable {α : Type} [Scalar α]

namespace Backtracking

def standard : Backtracking α :=
  ⟨1e-4, 0.5, 0.1, .whole 1000, .whole 3, none⟩

def limit (maxstep : α) : Option α := if isFinite maxstep then some maxstep else none

def invalid? (b : Backtracking α) : Option InvalidSetting :=
  if ¬ (0 < b.c1 ∧ b.c1 < 1) then some .decrease
  else if ¬ (0 < b.rhoLo ∧ b.rhoLo ≤ b.rhoHi ∧ b.rhoHi < 1) then some .reduction
  else if !(b.order.equals 2 || b.order.equals 3) then some .order
  else if b.iterations.isBelow 1 then some .reductions
  else if b.maxstep.any fun limit => ¬ 0 < limit then some .maxstep
  else none

/-- The settings, if they are admitted; the limit on the step is given as a number. -/
def build (c1 rhoHi rhoLo : α) (iterations order : Count) (maxstep : α) :
    Except (Failure α) (Backtracking α) :=
  match invalid? ⟨c1, rhoHi, rhoLo, iterations, order, none⟩ with
  | some setting => .error (.setting setting)
  | none =>
    if ¬ 0 < maxstep then .error (.setting .maxstep)
    else .ok ⟨c1, rhoHi, rhoLo, iterations, order, limit maxstep⟩

end Backtracking

namespace LineSearch

def buildFixed (alpha : α) : Except (Failure α) (LineSearch α) :=
  if 0 < alpha then .ok (fixed alpha) else .error (.setting .stepLength)

def buildStrongWolfe (c1 c2 : α) (maxiter : Count) (fallback : LineSearch α) :
    Except (Failure α) (LineSearch α) :=
  if ¬ (0 < c1 ∧ c1 < c2 ∧ c2 < 1) then .error (.setting .wolfe)
  else if maxiter.isBelow 1 then .error (.setting .maxiter)
  else .ok (strongWolfe c1 c2 maxiter fallback)

def standardWolfe : LineSearch α :=
  strongWolfe 1e-4 0.9 (.whole 10) (backtracking .standard)

end LineSearch

end RootFinding
