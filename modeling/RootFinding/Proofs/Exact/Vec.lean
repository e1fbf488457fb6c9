import Mathlib
import RootFinding.TrustRegion.Scaling

namespace RootFinding

open Finset

noncomputable instance : Scalar ℝ where
  decidableLT _ _ := inferInstance
  decidableLE _ _ := inferInstance
  beq a b := decide (a = b)
  sqrt := Real.sqrt
  magnitude a := |a|
  pow a k := a ^ k
  isFinite _ := true
  isNaN _ := false

namespace Exact

variable {m n : Nat}

theorem beq_eq (a b : ℝ) : (a == b) = decide (a = b) := rfl

theorem half_eq : (0.5 : ℝ) = 1 / 2 := by norm_num

theorem two_eq : (2.0 : ℝ) = 2 := by norm_num

theorem three_eq : (3.0 : ℝ) = 3 := by norm_num

theorem four_eq : (4.0 : ℝ) = 4 := by norm_num

theorem ten_eq : (10.0 : ℝ) = 10 := by norm_num

theorem larger_eq (a b : ℝ) : Scalar.larger a b = max a b := by
  rw [Scalar.larger]
  split
  · rename_i less
    exact (max_eq_right less.le).symm
  · rename_i le
    exact (max_eq_left (not_lt.mp le)).symm

theorem smaller_eq (a b : ℝ) : Scalar.smaller a b = min a b := by
  rw [Scalar.smaller]
  split
  · rename_i less
    exact (min_eq_right less.le).symm
  · rename_i le
    exact (min_eq_left (not_lt.mp le)).symm

section Get

variable {γ δ ε : Type}

theorem ext_get {u v : Vector γ n} (same : ∀ i, u.get i = v.get i) : u = v :=
  Vector.ext fun i h => same ⟨i, h⟩

theorem toList_eq (v : Vector γ n) : v.toList = List.ofFn v.get := by
  apply List.ext_getElem
  · rw [Vector.length_toList, List.length_ofFn]
  · intro i _ _
    rw [Vector.getElem_toList, List.getElem_ofFn]
    rfl

theorem toArray_eq (v : Vector γ n) : v.toArray = (List.ofFn v.get).toArray :=
  congrArg List.toArray (toList_eq v)

theorem map_get (f : γ → δ) (v : Vector γ n) (i : Fin n) : (v.map f).get i = f (v.get i) :=
  Vector.getElem_map f i.isLt

theorem zipWith_get (f : γ → δ → ε) (u : Vector γ n) (v : Vector δ n) (i : Fin n) :
    (Vector.zipWith f u v).get i = f (u.get i) (v.get i) := Vector.getElem_zipWith i.isLt

variable (u v : Vec ℝ n) (i : Fin n)

theorem zero_get : (0 : Vec ℝ n).get i = 0 := Vector.getElem_zero i i.isLt

theorem add_get : (u + v).get i = u.get i + v.get i := Vector.getElem_add u v i i.isLt

theorem sub_get : (u - v).get i = u.get i - v.get i := Vector.getElem_sub u v i i.isLt

theorem neg_get : (-u).get i = -u.get i := Vector.getElem_neg u i i.isLt

theorem scale_get (c : ℝ) : (Vec.scale c v).get i = c * v.get i := map_get _ _ _

end Get

theorem sum_eq (v : Vec ℝ n) : v.sum = ∑ i, v.get i := by
  rw [Vec.sum, ← Vector.foldl_toList, toList_eq, ← List.sum_ofFn, List.sum_eq_foldl]

theorem dot_eq (u v : Vec ℝ n) : u.dot v = ∑ i, u.get i * v.get i := by
  rw [Vec.dot, sum_eq]
  exact sum_congr rfl fun i _ => zipWith_get _ u v i

theorem vec_allFinite (v : Vec ℝ n) : v.allFinite := Vector.all_eq_true.mpr fun _ _ => rfl

theorem mat_allFinite (a : Mat ℝ m n) : a.allFinite :=
  Vector.all_eq_true.mpr fun _ _ => vec_allFinite _

theorem mulVec_get (a : Mat ℝ m n) (v : Vec ℝ n) (i : Fin m) :
    (a.mulVec v).get i = Vec.dot (a.get i) v := map_get _ a i

theorem column_get (a : Mat ℝ m n) (i : Fin m) (j : Fin n) :
    (a.column j).get i = (a.get i).get j := map_get _ a i

theorem tmulVec_get (a : Mat ℝ m n) (u : Vec ℝ m) (j : Fin n) :
    (a.tmulVec u).get j = (a.column j).dot u := by
  rw [Mat.tmulVec, map_get]
  exact congrArg (Vec.dot · u) (Vector.getElem_ofFn j.isLt)

section Dot

variable (u v w : Vec ℝ n)

theorem dot_comm : u.dot v = v.dot u := by
  simp only [dot_eq, mul_comm]

theorem dot_add_right : u.dot (v + w) = u.dot v + u.dot w := by
  simp only [dot_eq, add_get, mul_add, sum_add_distrib]

theorem dot_sub_right : u.dot (v - w) = u.dot v - u.dot w := by
  simp only [dot_eq, sub_get, mul_sub, sum_sub_distrib]

theorem dot_scale_right (c : ℝ) : u.dot (Vec.scale c v) = c * u.dot v := by
  simp only [dot_eq, scale_get, mul_sum]
  exact sum_congr rfl fun i _ => by ring

theorem dot_zero_right : u.dot 0 = 0 := by
  rw [dot_eq]
  exact sum_eq_zero fun i _ => by rw [zero_get, mul_zero]

theorem dot_scale_self (c : ℝ) : (Vec.scale c v).dot (Vec.scale c v) = c * c * v.dot v := by
  rw [dot_scale_right, dot_comm, dot_scale_right, ← mul_assoc]

theorem dot_self_nonneg : 0 ≤ u.dot u := by
  rw [dot_eq]
  exact sum_nonneg fun i _ => mul_self_nonneg _

theorem eq_zero_of_dot_self {v : Vec ℝ n} (zero : v.dot v = 0) : v = 0 := by
  rw [dot_eq, sum_eq_zero_iff_of_nonneg fun i _ => mul_self_nonneg _] at zero
  refine ext_get fun i => ?_
  rw [zero_get]
  exact mul_self_eq_zero.mp (zero i (mem_univ i))

theorem norm_nonneg : 0 ≤ u.norm := Real.sqrt_nonneg _

theorem norm_sq : u.norm * u.norm = u.dot u := Real.mul_self_sqrt (dot_self_nonneg u)

theorem norm_eq_zero_iff {v : Vec ℝ n} : v.norm = 0 ↔ v = 0 := by
  constructor
  · intro zero
    exact eq_zero_of_dot_self (by rw [← norm_sq, zero, mul_zero])
  · rintro rfl
    rw [← mul_self_eq_zero, norm_sq, dot_zero_right]

theorem dot_add_self : (u + v).dot (u + v) = u.dot u + 2 * u.dot v + v.dot v := by
  rw [dot_add_right, dot_comm (u + v) u, dot_comm (u + v) v, dot_add_right, dot_add_right,
    dot_comm v u]
  ring

end Dot

theorem mulVec_eq_iff {a : Mat ℝ m n} {v : Vec ℝ n} {b : Vec ℝ m} :
    a.mulVec v = b ↔ ∀ i, Vec.dot (a.get i) v = b.get i := by
  constructor
  · rintro rfl i
    exact (mulVec_get a v i).symm
  · intro same
    exact ext_get fun i => (mulVec_get a v i).trans (same i)

theorem mulVec_add (a : Mat ℝ m n) (u v : Vec ℝ n) :
    a.mulVec (u + v) = a.mulVec u + a.mulVec v := by
  refine mulVec_eq_iff.mpr fun i => ?_
  rw [dot_add_right, add_get, mulVec_get, mulVec_get]

theorem mulVec_scale (a : Mat ℝ m n) (c : ℝ) (v : Vec ℝ n) :
    a.mulVec (Vec.scale c v) = Vec.scale c (a.mulVec v) := by
  refine mulVec_eq_iff.mpr fun i => ?_
  rw [dot_scale_right, scale_get, mulVec_get]

theorem mulVec_sub (a : Mat ℝ m n) (u v : Vec ℝ n) :
    a.mulVec (u - v) = a.mulVec u - a.mulVec v := by
  refine mulVec_eq_iff.mpr fun i => ?_
  rw [dot_sub_right, sub_get, mulVec_get, mulVec_get]

theorem dot_mulVec (a : Mat ℝ m n) (u : Vec ℝ m) (v : Vec ℝ n) :
    u.dot (a.mulVec v) = (a.tmulVec u).dot v := by
  simp only [dot_eq, mulVec_get, tmulVec_get, column_get, mul_sum, sum_mul]
  rw [sum_comm]
  exact sum_congr rfl fun j _ => sum_congr rfl fun i _ => by ring

end Exact

end RootFinding
