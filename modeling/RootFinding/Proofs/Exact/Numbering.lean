import RootFinding.Proofs.Exact.Coordinates
import RootFinding.Proofs.Exact.Replies
import RootFinding.Proofs.Exact.Differences

namespace RootFinding.Exact

open Finset

variable {m n : Nat} {γ : Type}

/-- The entries under other numbers: what has number `i` then has number `π i` before. -/
def renumbered (π : Equiv.Perm (Fin n)) (v : Vec γ n) : Vec γ n :=
  Vector.ofFn fun i => v.get (π i)

theorem renumbered_get (π : Equiv.Perm (Fin n)) (v : Vec γ n) (i : Fin n) :
    (renumbered π v).get i = v.get (π i) :=
  Vector.getElem_ofFn i.isLt

theorem renumbered_symm (π : Equiv.Perm (Fin n)) (v : Vec γ n) :
    renumbered π (renumbered π.symm v) = v := by
  refine ext_get fun i => ?_
  rw [renumbered_get, renumbered_get, π.symm_apply_apply]

theorem symm_renumbered (π : Equiv.Perm (Fin n)) (v : Vec γ n) :
    renumbered π.symm (renumbered π v) = v :=
  renumbered_symm π.symm v

section Products

variable (π : Equiv.Perm (Fin n)) (u v : Vec ℝ n)

theorem dot_renumbered_left : (renumbered π u).dot v = u.dot (renumbered π.symm v) := by
  rw [dot_eq, dot_eq, ← Equiv.sum_comp π fun i => u.get i * (renumbered π.symm v).get i]
  refine sum_congr rfl fun i _ => ?_
  rw [renumbered_get, renumbered_get, π.symm_apply_apply]

theorem dot_renumbered : (renumbered π u).dot (renumbered π v) = u.dot v := by
  rw [dot_renumbered_left, symm_renumbered]

theorem norm_renumbered : (renumbered π u).norm = u.norm :=
  congrArg Real.sqrt (dot_renumbered π u u)

theorem maxNorm_renumbered_le : (renumbered π u).maxNorm ≤ u.maxNorm := by
  refine maxNorm_le_iff.mpr ⟨(maxNorm_le_iff.mp (le_refl u.maxNorm)).1, fun i => ?_⟩
  rw [renumbered_get]
  exact le_maxNorm u _

theorem maxNorm_renumbered : (renumbered π u).maxNorm = u.maxNorm := by
  refine le_antisymm (maxNorm_renumbered_le π u) ?_
  have back := maxNorm_renumbered_le π.symm (renumbered π u)
  rw [symm_renumbered] at back
  exact back

theorem renumbered_add : renumbered π (u + v) = renumbered π u + renumbered π v := by
  refine ext_get fun i => ?_
  rw [add_get, renumbered_get, renumbered_get, renumbered_get, add_get]

theorem renumbered_sub : renumbered π (u - v) = renumbered π u - renumbered π v := by
  refine ext_get fun i => ?_
  rw [sub_get, renumbered_get, renumbered_get, renumbered_get, sub_get]

theorem renumbered_scale (a : ℝ) : renumbered π (Vec.scale a v) = Vec.scale a (renumbered π v) := by
  refine ext_get fun i => ?_
  rw [scale_get, renumbered_get, renumbered_get, scale_get]

theorem scaled_renumbered (d : Vec ℝ n) :
    scaled (renumbered π d) v = renumbered π (scaled d (renumbered π.symm v)) := by
  refine ext_get fun i => ?_
  rw [scaled_get, renumbered_get, renumbered_get, scaled_get, renumbered_get, π.symm_apply_apply]

end Products

variable (rows : Equiv.Perm (Fin m)) (cols : Equiv.Perm (Fin n))

noncomputable def Coordinates.renumbering : Coordinates m n where
  point := renumbered cols.symm
  residual := renumbered rows
  jacobian a := renumbered rows (a.map (renumbered cols))
  gradient := renumbered cols
  point_bijective := Function.bijective_iff_has_inverse.mpr
    ⟨renumbered cols, renumbered_symm cols, symm_renumbered cols⟩
  point_add := renumbered_add cols.symm
  point_scale a v := renumbered_scale cols.symm v a
  residual_sub := renumbered_sub rows
  dot_residual := dot_renumbered rows
  maxNorm_residual := maxNorm_renumbered rows
  jacobian_mulVec a v := by
    refine ext_get fun i => ?_
    rw [mulVec_get, renumbered_get, map_get, dot_renumbered_left, renumbered_get, mulVec_get]
  dot_gradient := dot_renumbered_left cols

theorem renumbering_isometric : (Coordinates.renumbering rows cols).Isometric :=
  norm_renumbered cols.symm

theorem jacobian_renumbering_get (a : Mat ℝ m n) (i : Fin m) (j : Fin n) :
    (((Coordinates.renumbering rows cols).jacobian a).get i).get j =
      (a.get (rows i)).get (cols j) := by
  change ((renumbered rows (a.map (renumbered cols))).get i).get j = _
  rw [renumbered_get, map_get, renumbered_get]

theorem column_renumbering (a : Mat ℝ m n) (j : Fin n) :
    ((Coordinates.renumbering rows cols).jacobian a).column j =
      renumbered rows (a.column (cols j)) := by
  refine ext_get fun i => ?_
  rw [column_get, jacobian_renumbering_get, renumbered_get, column_get]

theorem initialScaling_renumbering (a : Mat ℝ m n) :
    initialScaling ((Coordinates.renumbering rows cols).jacobian a) =
      renumbered cols (initialScaling a) := by
  refine ext_get fun j => ?_
  rw [initialScaling_get, column_renumbering, norm_renumbered, renumbered_get, initialScaling_get]

theorem updateScaling_renumbering (d : Vec ℝ n) (a : Mat ℝ m n) (decay : ℝ) :
    updateScaling (renumbered cols d) ((Coordinates.renumbering rows cols).jacobian a) decay =
      renumbered cols (updateScaling d a decay) := by
  refine ext_get fun j => ?_
  rw [updateScaling_get, column_renumbering, norm_renumbered, renumbered_get, renumbered_get,
    updateScaling_get]

theorem weighs_renumbered (d : Vec ℝ n) :
    (Coordinates.renumbering rows cols).Weighs d (renumbered cols d) := by
  refine ⟨fun u v => ?_, fun jac fx => ext_get fun j => ?_⟩
  · rw [weightedDot_eq, weightedDot_eq, scaled_renumbered, scaled_renumbered, dot_renumbered]
    rfl
  · change (renumbered cols.symm _).get j = _
    rw [renumbered_get, scaledGradient_get, scaledGradient_get, Coordinates.tmulVec_residual]
    change (renumbered cols _).get _ / _ = _
    rw [renumbered_get, renumbered_get, cols.apply_symm_apply]

theorem renumbered_steppedPoint (y : Vec ℝ n) (j : Fin n) :
    renumbered cols.symm (y.set j (stepped (y.get j)) j.isLt) =
      (renumbered cols.symm y).set (cols j) (stepped ((renumbered cols.symm y).get (cols j)))
        (cols j).isLt := by
  refine ext_get fun i => ?_
  rw [renumbered_get, set_get, set_get, renumbered_get, renumbered_get, cols.symm_apply_apply]
  exact if_congr (Equiv.symm_apply_eq cols) rfl rfl

end RootFinding.Exact

namespace RootFinding.SquareSystem

open Exact

variable {α : Type} [Scalar α] {m n : Nat}

theorem differencesFrom_ok {residual : Array α → Except (Failure α) (Vec α m)} {base : Vec α m}
    {x : Vec α n} {count : Nat} {bound : count ≤ n} {a b : Mat α m n}
    (found : differencesFrom residual base x count bound a = .ok b) {j : Fin n}
    (among : n - count ≤ j.val) : ∃ moved, residual (steppedPoint x j) = .ok moved := by
  induction count generalizing a with
  | zero => exact absurd among (by omega)
  | succ count ih =>
    obtain ⟨moved, here, rest⟩ := Except.bind_ok.mp found
    rcases Nat.lt_or_eq_of_le among with later | first
    · exact ih rest (by omega)
    · have same : Fin.rev ⟨count, bound⟩ = j := Fin.ext (by rw [Fin.val_rev]; exact first)
      rw [same] at here
      exact ⟨moved, here⟩

theorem differencesFrom_error {residual : Array α → Except (Failure α) (Vec α m)} {x : Vec α n}
    {j : Fin n} (missing : ∀ moved, residual (steppedPoint x j) ≠ .ok moved) (base : Vec α m)
    (a : Mat α m n) :
    ∃ e, differencesFrom residual base x n (Nat.le_refl n) a = .error e := by
  cases found : differencesFrom residual base x n (Nat.le_refl n) a with
  | error e => exact ⟨e, rfl⟩
  | ok b =>
    obtain ⟨moved, here⟩ := differencesFrom_ok found (j := j) (by omega)
    exact absurd here (missing moved)

theorem differencesFrom_renumbered (rows : Equiv.Perm (Fin m)) (cols : Equiv.Perm (Fin n))
    {residual residual' : Array ℝ → Except (Failure ℝ) (Vec ℝ m)} {y : Vec ℝ n}
    (moves : ∀ j, Alike (fun fx fx' => fx' = renumbered rows fx)
      (residual (steppedPoint (renumbered cols.symm y) (cols j))) (residual' (steppedPoint y j)))
    (base : Vec ℝ m) (a a' : Mat ℝ m n) :
    Alike (fun jac jac' => jac' = (Coordinates.renumbering rows cols).jacobian jac)
      (differencesFrom residual base (renumbered cols.symm y) n (Nat.le_refl n) a)
      (differencesFrom residual' (renumbered rows base) y n (Nat.le_refl n) a') := by
  by_cases known : ∀ j, ∃ moved, residual (steppedPoint (renumbered cols.symm y) j) = .ok moved
  · choose moved computes using known
    have computes' (j : Fin n) :
        residual' (steppedPoint y j) = .ok (renumbered rows (moved (cols j))) := by
      obtain ⟨_, found, rfl⟩ := (moves j).of_ok (computes (cols j))
      exact found
    rw [differencesFrom_columns computes, differencesFrom_columns computes']
    refine .ok (ext_get fun i => ext_get fun j => ?_)
    rw [jacobian_renumbering_get]
    simp only [get_ofFn, differenceColumn_get, renumbered_get, cols.symm_apply_apply]
  · push Not at known
    obtain ⟨j, missing⟩ := known
    have missing' (moved' : Vec ℝ m) : residual' (steppedPoint y (cols.symm j)) ≠ .ok moved' := by
      intro there
      obtain ⟨moved, here, _⟩ := (moves (cols.symm j)).flip.of_ok there
      rw [cols.apply_symm_apply] at here
      exact missing moved here
    obtain ⟨e, failed⟩ := differencesFrom_error missing base a
    obtain ⟨e', failed'⟩ := differencesFrom_error missing' (renumbered rows base) a'
    rw [failed, failed']
    exact .error e e'

end RootFinding.SquareSystem
