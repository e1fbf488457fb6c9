import RootFinding.Proofs.Exact.Region
import RootFinding.Proofs.SquareSystem.Presentations
import RootFinding.LineSearch.Merit

namespace RootFinding

open Exact

namespace Newton

section Single

variable {f f' : ℝ → ℝ} {y : ℝ}

noncomputable def callables (f f' : ℝ → ℝ) : Callables ℝ 1 :=
  .of (fun y => #v[f (y.get 0)]) fun y => #v[#v[f' (y.get 0)]]

noncomputable def equation (f f' : ℝ → ℝ) : SquareSystem ℝ where
  convention := .outOfPlace
  sources := .separate (some (callables f f').f) (callables f f').j
  dimension := none

theorem equation_agrees : (equation f f').Agrees 1 := trivial

theorem equation_replies :
    (equation f f').reply (.residual #v[y]) = .ok #v[f y] ∧
      (equation f f').reply (.both #v[y]) = .ok (#v[f y], #v[#v[f' y]]) := by
  constructor
  · exact SquareSystem.reply_residual_ok.mpr ⟨rfl, vec_allFinite _⟩
  · exact SquareSystem.reply_both_ok.mpr ⟨rfl, vec_allFinite _, mat_allFinite _⟩

end Single

noncomputable def quartic : SquareSystem ℝ :=
  equation (fun y => y * (7 / 2 + y * (-12 + y * (33 / 2 - 7 * y))))
    fun y => 7 / 2 + y * (-24 + y * (99 / 2 - 28 * y))

noncomputable def eager : Backtracking ℝ := { Backtracking.standard with
  c1 := 3 / 4
  maxstep := some (1 / 2) }

end Newton

namespace TrustRegion

noncomputable def twice : Callables ℝ 1 :=
  .of (fun y => Mat.mulVec #v[#v[2]] y - #v[1]) fun _ => #v[#v[2]]

noncomputable def exactParabola : Callables ℝ 2 :=
  .of (fun x => #v[x.get 0 * x.get 0 - 4, x.get 1 - x.get 0])
    fun x => #v[#v[x.get 0 + x.get 0, 0], #v[-1, 1]]

end TrustRegion

/-- The direction from a point on the line to its root, one step length for each unit. -/
noncomputable def LineSearch.towardsRoot (distance : ℝ) : Merit ℝ 1 where
  x := #v[distance]
  direction := #v[-1]
  phi0 := distance ^ 2 / 2

/-- The line searches that take a full step where half of the promised decrease comes true. -/
def LineSearch.TakesFull : LineSearch ℝ → Prop
  | fixed alpha => alpha = 1
  | backtracking b => b.c1 ≤ 1 / 2 ∧ b.maxstep = none
  | strongWolfe c1 c2 maxiter fallback =>
    buildStrongWolfe c1 c2 maxiter fallback = .ok (strongWolfe c1 c2 maxiter fallback) ∧
      c1 ≤ 1 / 2 ∧ ∃ k, maxiter = .whole k
  | sequence _ => False

end RootFinding
