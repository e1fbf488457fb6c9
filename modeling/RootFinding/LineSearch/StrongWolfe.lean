import RootFinding.LineSearch.Backtracking

namespace RootFinding.StrongWolfe

open Scalar

variable {α : Type} [Scalar α]

def stayedFinite (given derived : List α) : Bool :=
  !given.all isFinite || derived.all isFinite

/-- The minimizer of the cubic through `a`, `b` and `c` with the slope at `a`, if there is one. -/
def cubicMinimizer (a fa slopeA b fb c fc : α) : Option α :=
  let db := b - a
  let dc := c - a
  let denom := pow (db * dc) 2 * (db - dc)
  if denom == 0 then none
  else
    let u := fb - fa - slopeA * db
    let v := fc - fa - slopeA * dc
    let p := (pow dc 2 * u - pow db 2 * v) / denom
    let q := (-pow dc 3 * u + pow db 3 * v) / denom
    let radical := q * q - 3.0 * p * slopeA
    if radical < 0 || 3.0 * p == 0 then none
    else
      let x := a + (-q + sqrt radical) / (3.0 * p)
      if isFinite x && stayedFinite [a, fa, slopeA, b, fb, c, fc] [denom, p, q, radical] then some x
      else none

/-- The minimizer of the quadratic through `a` and `b` with the slope at `a`, if there is one. -/
def quadraticMinimizer (a fa slopeA b fb : α) : Option α :=
  let db := b - a
  if db * db == 0 then none
  else
    let q := (fb - fa - slopeA * db) / (db * db)
    if 2.0 * q == 0 then none
    else
      let x := a - slopeA / (2.0 * q)
      if isFinite x && stayedFinite [a, fa, slopeA, b, fb] [db * db, q] then some x else none

/-- The conditions: sufficient decrease by `c1`, and a slope flattened to `c2`. -/
structure Conditions (α : Type) where
  c1 : α
  c2 : α
  phi0 : α
  slope0 : α

namespace Conditions

variable (w : Conditions α)

def tooHigh (alpha phi : α) : Bool := w.phi0 + w.c1 * alpha * w.slope0 < phi

def flat (slope : α) : Bool := magnitude slope ≤ -w.c2 * w.slope0

end Conditions

/-- An interval with an acceptable step inside: its better end with value and slope, the other end
with its value, and the end given up last. -/
structure Bracket (α : Type) where
  lo : α
  phiLo : α
  slopeLo : α
  hi : α
  phiHi : α
  recent : α
  phiRecent : α

namespace Bracket

variable (z : Bracket α)

/-- A proposal farther than a share of the width from both ends; the share has the sign of the
width. -/
def inside? (share : α) (proposal : Option α) : Option α :=
  let width := z.hi - z.lo
  let lower := if width < 0 then z.hi else z.lo
  let upper := if width < 0 then z.lo else z.hi
  let margin := share * width
  proposal.filter fun x => !(upper - margin < x || x < lower + margin)

/-- The next step length: by the cubic after the first round, else by the quadratic, else the
middle. -/
def proposal (first : Bool) : α :=
  let cubic := if first then none else
    z.inside? 0.2 (cubicMinimizer z.lo z.phiLo z.slopeLo z.hi z.phiHi z.recent z.phiRecent)
  match cubic with
  | some x => x
  | none =>
    match z.inside? 0.1 (quadraticMinimizer z.lo z.phiLo z.slopeLo z.hi z.phiHi) with
    | some x => x
    | none => z.lo + 0.5 * (z.hi - z.lo)

def shrink (x phi : α) : Bracket α :=
  { z with hi := x, phiHi := phi, recent := z.hi, phiRecent := z.phiHi }

/-- A trial that is a better end; when the slope there points out of the interval the ends change
sides. -/
def improve (x phi slope : α) : Bracket α :=
  if 0 ≤ slope * (z.hi - z.lo) then
    ⟨x, phi, slope, z.lo, z.phiLo, z.hi, z.phiHi⟩
  else ⟨x, phi, slope, z.hi, z.phiHi, z.lo, z.phiLo⟩

end Bracket

def zoom (w : Conditions α) : (rounds : Nat) → (first : Bool) → Bracket α → Search α (Option α)
  | 0, _, _ => return none
  | rounds + 1, first, z => do
    let x := z.proposal first
    let phi ← Search.value x
    if w.tooHigh x phi || z.phiLo ≤ phi then zoom w rounds false (z.shrink x phi)
    else
      let slope ← Search.slope x
      if w.flat slope then return some x
      else zoom w rounds false (z.improve x phi slope)

def zoomRounds : Nat := 11

def startZoom (w : Conditions α) (lo phiLo slopeLo hi phiHi : α) : Search α (Option α) :=
  zoom w zoomRounds true ⟨lo, phiLo, slopeLo, hi, phiHi, 0, w.phi0⟩

/-- Doubles the step until an interval holds an acceptable one. When the rounds run out the last
step is taken as it is. -/
def widen (w : Conditions α) :
    (rounds : Nat) → (first : Bool) → (a0 phi0 slope0 a1 phi1 : α) → Search α (Option α)
  | 0, _, _, _, _, a1, _ => return some a1
  | rounds + 1, first, a0, phi0, slope0, a1, phi1 => do
    if a1 == 0 then return none
    else if w.tooHigh a1 phi1 || (!first && phi0 ≤ phi1) then startZoom w a0 phi0 slope0 a1 phi1
    else
      let slope1 ← Search.slope a1
      if w.flat slope1 then return some a1
      else if 0 ≤ slope1 then startZoom w a1 phi1 slope1 a0 phi0
      else
        let a2 := 2.0 * a1
        let phi2 ← Search.value a2
        widen w rounds false a1 phi1 slope1 a2 phi2

/-- The step length found, if any. The number of rounds has to be whole, which shows only after the
first trial. -/
def search (w : Conditions α) (maxiter : Count) : Search α (Option α) := do
  let phi1 ← Search.value 1
  match maxiter with
  | .whole n => widen w n.toNat true 0 w.phi0 w.slope0 1 phi1
  | .real _ => .fail (.fault .fractionalCount)

end RootFinding.StrongWolfe

namespace RootFinding.LineSearch

open Scalar

variable {α : Type} [Scalar α]

/-- Chooses a step length for a merit function with a given value and slope at zero, along a
direction of given length; also yields the line search to use next. -/
def search (phi0 slope length : α) : LineSearch α → Search α (α × LineSearch α)
  | fixed alpha => return (alpha, fixed alpha)
  | backtracking b => do
    let alpha ← b.search phi0 slope length
    return (alpha, backtracking b)
  | strongWolfe c1 c2 maxiter fallback => do
    match ← StrongWolfe.search ⟨c1, c2, phi0, slope⟩ maxiter with
    | some alpha => return (alpha, strongWolfe c1 c2 maxiter fallback)
    | none => do
      Search.note .wolfeFailed
      let (alpha, next) ← fallback.search phi0 slope length
      return (alpha, strongWolfe c1 c2 maxiter next)
  | sequence [] => return (undefined, sequence [])
  | sequence (alpha :: upcoming) => return (alpha, sequence (upcoming ++ [alpha]))

end RootFinding.LineSearch
