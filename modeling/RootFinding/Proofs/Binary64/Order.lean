import Mathlib
import RootFinding.Scalar

namespace RootFinding.Binary64

open Float.Model

def decoded (x : Float) : UnpackedFloat := x.toModel.unpack

def rank : UnpackedFloat → ℤ ×ₗ ℤ ×ₗ ℤ
  | .infinity .negative => toLex (-2, toLex (0, 0))
  | .finite .negative m e _ => toLex (-1, toLex (-e, -(m : ℤ)))
  | .zero _ | .notANumber => toLex (0, toLex (0, 0))
  | .finite .positive m e _ => toLex (1, toLex (e, (m : ℤ)))
  | .infinity .positive => toLex (2, toLex (0, 0))

theorem compare_cast (m k : Nat) : compare (m : ℤ) (k : ℤ) = compare m k := by
  rcases lt_trichotomy m k with less | same | more
  · rw [compare_lt_iff_lt.mpr less, compare_lt_iff_lt.mpr (by exact_mod_cast less)]
  · rw [same, compare_eq_iff_eq.mpr rfl, compare_eq_iff_eq.mpr rfl]
  · rw [compare_gt_iff_gt.mpr more, compare_gt_iff_gt.mpr (by exact_mod_cast more)]

theorem compare_neg (a b : ℤ) : compare (-a) (-b) = (compare a b).swap := by
  rcases lt_trichotomy a b with less | same | more
  · rw [compare_lt_iff_lt.mpr less, compare_gt_iff_gt.mpr (by omega)]
    rfl
  · rw [same, compare_eq_iff_eq.mpr rfl, compare_eq_iff_eq.mpr rfl]
    rfl
  · rw [compare_gt_iff_gt.mpr more, compare_lt_iff_lt.mpr (by omega)]
    rfl

theorem compare_eq {u v : UnpackedFloat} (hu : u.isNaN = false) (hv : v.isNaN = false) :
    u.compare v = some (compare (rank u) (rank v)) := by
  -- Only finite values of one sign are compared by more than what they are.
  cases u with
  | notANumber => cases hu
  | infinity s =>
    cases v with
    | notANumber => cases hv
    | infinity s' => cases s <;> cases s' <;> rfl
    | zero s' => cases s <;> rfl
    | finite s' m e pos => cases s <;> cases s' <;> rfl
  | zero s =>
    cases v with
    | notANumber => cases hv
    | infinity s' => cases s' <;> rfl
    | zero s' => rfl
    | finite s' m e pos => cases s' <;> rfl
  | finite s m e pos =>
    cases v with
    | notANumber => cases hv
    | infinity s' => cases s <;> cases s' <;> rfl
    | zero s' => cases s <;> rfl
    | finite s' m' e' pos' =>
      cases s <;> cases s' <;> try rfl
      · change some ((compare e e').then (compare m m')).swap =
          some ((compare (-e) (-e')).then (compare (-(m : ℤ)) (-(m' : ℤ))))
        rw [compare_neg, compare_neg, compare_cast, Ordering.swap_then]
      · change some ((compare e e').then (compare m m')) =
          some ((compare e e').then (compare (m : ℤ) (m' : ℤ)))
        rw [compare_cast]

variable {x y z : Float}

theorem isNaN_eq (x : Float) : x.isNaN = (decoded x).isNaN := rfl

theorem compare_of_isNaN {u v : UnpackedFloat} (undefined : u.isNaN ∨ v.isNaN) :
    u.compare v = none := by
  cases u <;> cases v <;> first | rfl | simp [UnpackedFloat.isNaN] at undefined

theorem lt_decoded : x < y ↔ (decoded x).compare (decoded y) = some .lt := by
  change decide (x.toModel < y.toModel) = true ↔ _
  rw [decide_eq_true_iff]
  exact beq_iff_eq

theorem le_decoded : x ≤ y ↔ ((decoded x).compare (decoded y)).any (·.isLE) := by
  change decide (x.toModel ≤ y.toModel) = true ↔ _
  rw [decide_eq_true_iff]
  rfl

theorem lt_iff :
    x < y ↔ x.isNaN = false ∧ y.isNaN = false ∧ rank (decoded x) < rank (decoded y) := by
  rw [lt_decoded, isNaN_eq, isNaN_eq]
  by_cases undefined : (decoded x).isNaN ∨ (decoded y).isNaN
  · rw [compare_of_isNaN undefined]
    grind
  · rw [not_or, Bool.not_eq_true, Bool.not_eq_true] at undefined
    rw [compare_eq undefined.1 undefined.2, Option.some.injEq, compare_lt_iff_lt]
    exact ⟨fun less => ⟨undefined.1, undefined.2, less⟩, fun known => known.2.2⟩

theorem le_iff :
    x ≤ y ↔ x.isNaN = false ∧ y.isNaN = false ∧ rank (decoded x) ≤ rank (decoded y) := by
  rw [le_decoded, isNaN_eq, isNaN_eq]
  by_cases undefined : (decoded x).isNaN ∨ (decoded y).isNaN
  · rw [compare_of_isNaN undefined]
    grind
  · rw [not_or, Bool.not_eq_true, Bool.not_eq_true] at undefined
    rw [compare_eq undefined.1 undefined.2, Option.any_some, Ordering.isLE_iff_ne_gt, ← ne_eq,
      compare_le_iff_le]
    exact ⟨fun le => ⟨undefined.1, undefined.2, le⟩, fun known => known.2.2⟩

end RootFinding.Binary64
