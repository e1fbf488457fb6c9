import RootFinding.Proofs.Exact.Vec
import RootFinding.Elimination

namespace RootFinding.Exact

open Elimination

variable {m n k : Nat}

def cons (a : ℝ) (v : Vec ℝ n) : Vec ℝ (n + 1) :=
  ⟨#[a] ++ v.toArray, by simp [Nat.add_comm]⟩

def front {γ : Type} (v : Vector γ (n + 1)) : γ := v.get ⟨0, Nat.succ_pos n⟩

theorem get_zero {γ : Type} (v : Vector γ (n + 1)) : v.get 0 = front v := rfl

theorem front_zero : front (0 : Vec ℝ (n + 1)) = 0 := zero_get _

theorem tail_get {γ : Type} (u : Vector γ (n + 1)) (i : Fin n) :
    (u.tail : Vector γ n).get i = u.get i.succ := by
  change (u.tail : Vector γ n)[i.val] = u[i.val + 1]
  simp [Nat.add_comm]

theorem cons_zero (a : ℝ) (v : Vec ℝ n) : front (cons a v) = a := by
  change (cons a v)[0] = a
  simp [cons]

theorem cons_succ (a : ℝ) (v : Vec ℝ n) (i : Fin n) : (cons a v).get i.succ = v.get i := by
  change (cons a v)[i.val + 1] = v[i.val]
  simp [cons]

theorem ext_cons {u v : Vec ℝ (n + 1)} (first : front u = front v)
    (rest : ∀ i : Fin n, u.get i.succ = v.get i.succ) : u = v :=
  ext_get (Fin.cases first rest)

theorem head_tail (u : Vec ℝ (n + 1)) : u = cons (front u) u.tail := by
  refine ext_cons (cons_zero _ _).symm fun i => ?_
  rw [cons_succ, tail_get]

theorem cons_eq_zero {a : ℝ} {v : Vec ℝ n} : cons a v = 0 ↔ a = 0 ∧ v = 0 := by
  constructor
  · intro zero
    refine ⟨?_, ext_get fun i => ?_⟩
    · rw [← cons_zero a v, zero, front_zero]
    · rw [← cons_succ a v, zero, zero_get, zero_get]
  · rintro ⟨rfl, rfl⟩
    refine ext_cons ?_ fun i => ?_
    · rw [cons_zero, front_zero]
    · rw [cons_succ, zero_get, zero_get]

theorem dot_cons (u : Vec ℝ (n + 1)) (a : ℝ) (v : Vec ℝ n) :
    u.dot (cons a v) = front u * a + Vec.dot (u.tail : Vec ℝ n) v := by
  rw [dot_eq, dot_eq, Fin.sum_univ_succ, get_zero, get_zero, cons_zero]
  simp only [tail_get, cons_succ]
  rfl

theorem dot_reduceRow (pivot row : Vec ℝ (k + 1)) (v : Vec ℝ k) :
    (reduceRow pivot row).dot v = Vec.dot (row.tail : Vec ℝ k) v -
      front row / front pivot * Vec.dot (pivot.tail : Vec ℝ k) v := by
  simp only [dot_eq, Finset.mul_sum, ← Finset.sum_sub_distrib]
  refine Finset.sum_congr rfl fun i _ => ?_
  have entry : (reduceRow pivot row).get i = (row.tail : Vec ℝ k).get i -
      front row / front pivot * (pivot.tail : Vec ℝ k).get i :=
    zipWith_get _ (row.tail : Vec ℝ k) (pivot.tail : Vec ℝ k) i
  rw [entry]
  ring

theorem swap_inj {γ : Type} {u v : Vector γ m} {i j : Nat} {hi : i < m} {hj : j < m} :
    u.swap i j = v.swap i j ↔ u = v := by
  constructor
  · intro same
    have back := congrArg (·.swap i j) same
    simpa only [Vector.swap_swap] using back
  · rintro rfl
    rfl

theorem mulVec_swap (a : Mat ℝ m n) (v : Vec ℝ n) (i j : Nat) (hi : i < m) (hj : j < m) :
    Mat.mulVec (a.swap i j) v = (a.mulVec v).swap i j := by
  ext k h
  simp only [Mat.mulVec, Vector.getElem_map, Vector.getElem_swap]
  split
  · rfl
  · split <;> rfl

section Front

variable {rows : Mat ℝ (n + 1) (n + 1)} {rhs : Vec ℝ (n + 1)}

/-- The rows below the pivot row, without the leading entry that is cleared in them. -/
noncomputable def below (rows : Mat ℝ (n + 1) (n + 1)) : Mat ℝ n n :=
  rows.tail.map (reduceRow (front rows))

noncomputable def belowSide (rows : Mat ℝ (n + 1) (n + 1)) (rhs : Vec ℝ (n + 1)) : Vec ℝ n :=
  Vector.zipWith (reduceEntry (front rows) · (front rhs) ·) rows.tail rhs.tail

noncomputable def solveFirst (rows : Mat ℝ (n + 1) (n + 1)) (rhs : Vec ℝ (n + 1))
    (rest : Vec ℝ n) : ℝ :=
  (front rhs - Vec.dot ((front rows).tail : Vec ℝ n) rest) / front (front rows)

theorem reduced_iff {first : ℝ} {rest : Vec ℝ n} (pivot : front (front rows) ≠ 0) :
    rows.mulVec (cons first rest) = rhs ↔
      first = solveFirst rows rhs rest ∧ (below rows).mulVec rest = belowSide rows rhs := by
  have head : Vec.dot (front rows) (cons first rest) = front rhs ↔
      first = solveFirst rows rhs rest := by
    rw [dot_cons, solveFirst, eq_div_iff pivot]
    constructor <;> intro same <;> linarith
  rw [mulVec_eq_iff, mulVec_eq_iff, Fin.forall_fin_succ, get_zero, get_zero, head]
  refine and_congr_right fun solved => forall_congr' fun i => ?_
  have row : (below rows).get i = reduceRow (front rows) (rows.get i.succ) :=
    (map_get _ (rows.tail : Mat ℝ n (n + 1)) i).trans (congrArg _ (tail_get rows i))
  have entry : (belowSide rows rhs).get i = rhs.get i.succ -
      front (rows.get i.succ) / front (front rows) * front rhs := by
    refine (zipWith_get _ (rows.tail : Mat ℝ n (n + 1)) (rhs.tail : Vec ℝ n) i).trans ?_
    rw [tail_get, tail_get]
    rfl
  have share : front (rows.get i.succ) * first = front (rows.get i.succ) / front (front rows) *
      (front rhs - Vec.dot ((front rows).tail : Vec ℝ n) rest) := by
    rw [solved, solveFirst]
    ring
  rw [row, entry, dot_cons, dot_reduceRow, share]
  constructor <;> intro same <;> linarith

end Front

theorem le_foldl_best {ι : Type} {m : Nat} (size : ι → ℝ) (pick : Fin m → ι) (best : ι) :
    let top :=
      Fin.foldl m (fun best i => if size best < size (pick i) then pick i else best) best
    size best ≤ size top ∧ ∀ i, size (pick i) ≤ size top := by
  induction m generalizing best with
  | zero => exact ⟨le_of_eq (congrArg size (Fin.foldl_zero _ _).symm), fun i => i.elim0⟩
  | succ m ih =>
    obtain ⟨above, all⟩ :=
      ih (fun i => pick i.succ) (if size best < size (pick 0) then pick 0 else best)
    simp only [Fin.foldl_succ, Fin.forall_fin_succ]
    split at above
    · rename_i less
      rw [if_pos less] at all ⊢
      exact ⟨less.le.trans above, above, all⟩
    · rename_i le
      rw [if_neg le] at all ⊢
      exact ⟨above, (not_lt.mp le).trans above, all⟩

theorem le_pivotRow (rows : Vector (Vec ℝ (k + 1)) (n + 1)) (i : Fin (n + 1)) :
    |front (rows.get i)| ≤ |front (rows.get (pivotRow rows))| :=
  (le_foldl_best (fun i : Fin (n + 1) => |front (rows.get i)|) id 0).2 i

noncomputable def pivoted {γ : Type} (a : Mat ℝ (n + 1) (n + 1)) (v : Vector γ (n + 1)) :
    Vector γ (n + 1) :=
  v.swap 0 (pivotRow a) (Nat.succ_pos n) (pivotRow a).isLt

theorem le_front (a : Mat ℝ (n + 1) (n + 1)) (i : Fin (n + 1)) :
    |front ((pivoted a a).get i)| ≤ |front (front (pivoted a a))| := by
  have top : front (pivoted a a) = a.get (pivotRow a) := Vector.getElem_swap_left _ _
  rw [top]
  -- Only two rows have moved; the first one stands where the pivot row was.
  by_cases swapped : i = pivotRow a
  · have back : (pivoted a a).get i = front a := by
      rw [swapped]
      exact Vector.getElem_swap_right _ _
    rw [back]
    exact le_pivotRow a 0
  · by_cases first : i = 0
    · rw [first, get_zero, top]
    · have same : (pivoted a a).get i = a.get i := by
        have apart : (i : Nat) ≠ pivotRow a := fun h => swapped (Fin.ext h)
        have above : (i : Nat) ≠ 0 := fun h => first (Fin.ext h)
        exact Vector.getElem_swap_of_ne above apart
      rw [same]
      exact le_pivotRow a i

/-- Only zero is mapped to zero. -/
def Regular (a : Mat ℝ n n) : Prop := ∀ v : Vec ℝ n, a.mulVec v = 0 → v = 0

theorem pivoted_inj {γ : Type} {a : Mat ℝ (n + 1) (n + 1)} {u v : Vector γ (n + 1)} :
    pivoted a u = pivoted a v ↔ u = v := swap_inj

theorem mulVec_pivoted (a b : Mat ℝ (n + 1) (n + 1)) (v : Vec ℝ (n + 1)) :
    Mat.mulVec (pivoted a b) v = pivoted a (b.mulVec v) := mulVec_swap _ _ _ _ _ _

theorem regular_pivoted {a b : Mat ℝ (n + 1) (n + 1)} : Regular (pivoted a b) ↔ Regular b := by
  have zero : pivoted a (0 : Vec ℝ (n + 1)) = 0 := by
    ext k h
    simp only [pivoted, Vector.getElem_swap, Vector.getElem_zero, ite_self]
  have same (v : Vec ℝ (n + 1)) : Mat.mulVec (pivoted a b) v = 0 ↔ b.mulVec v = 0 := by
    rw [mulVec_pivoted]
    nth_rewrite 1 [← zero]
    exact pivoted_inj
  simp only [Regular, same]

theorem regular_below {rows : Mat ℝ (n + 1) (n + 1)} (pivot : front (front rows) ≠ 0) :
    Regular rows ↔ Regular (below rows) := by
  have side : belowSide rows 0 = 0 := by
    refine ext_get fun i => ?_
    refine (zipWith_get _ (rows.tail : Mat ℝ n (n + 1)) ((0 : Vec ℝ (n + 1)).tail : Vec ℝ n)
      i).trans ?_
    rw [tail_get, tail_get, front_zero, zero_get, zero_get, reduceEntry, mul_zero, sub_zero]
  have kernel (first : ℝ) (rest : Vec ℝ n) : rows.mulVec (cons first rest) = 0 ↔
      first = solveFirst rows 0 rest ∧ (below rows).mulVec rest = 0 := by
    rw [reduced_iff pivot, side]
  constructor
  · intro regular rest maps
    have whole := (kernel _ rest).mpr ⟨rfl, maps⟩
    exact (cons_eq_zero.mp (regular _ whole)).2
  · intro regular v maps
    rw [head_tail v] at maps ⊢
    obtain ⟨first, rest⟩ := (kernel _ _).mp maps
    have zero := regular _ rest
    refine cons_eq_zero.mpr ⟨?_, zero⟩
    rw [first, zero, solveFirst, dot_zero_right, front_zero, sub_zero, zero_div]

theorem not_regular {rows : Mat ℝ (n + 1) (n + 1)} (zero : ∀ i, front (rows.get i) = 0) :
    ¬ Regular rows := by
  intro regular
  have maps : rows.mulVec (cons 1 0) = 0 := by
    refine mulVec_eq_iff.mpr fun i => ?_
    rw [dot_cons, zero, dot_zero_right, zero_get, zero_mul, add_zero]
  exact one_ne_zero (cons_eq_zero.mp (regular _ maps)).1

theorem solve_succ (a : Mat ℝ (n + 1) (n + 1)) (b : Vec ℝ (n + 1)) :
    solve a b =
      if front (front (pivoted a a)) = 0 then none
      else (solve (below (pivoted a a)) (belowSide (pivoted a a) (pivoted a b))).map fun rest =>
        cons (solveFirst (pivoted a a) (pivoted a b) rest) rest := by
  rw [solve]
  exact ite_congr decide_eq_true_eq (fun _ => rfl) fun _ => rfl

/-- Elimination finds the solution of a regular system, and nothing for any other. -/
theorem solve_eq_some {n : Nat} {a : Mat ℝ n n} {b x : Vec ℝ n} :
    solve a b = some x ↔ Regular a ∧ a.mulVec x = b := by
  induction n with
  | zero =>
    have only (u v : Vec ℝ 0) : u = v := Vector.ext fun i h => absurd h (by omega)
    exact iff_of_true (congrArg some (only _ _)) ⟨fun v _ => only _ _, only _ _⟩
  | succ n ih =>
    have largest := le_front a
    rw [solve_succ, ← regular_pivoted, ← pivoted_inj, ← mulVec_pivoted]
    split
    · rename_i pivot
      -- The largest leading entry is zero, and so are all of them.
      rw [pivot, abs_zero] at largest
      have singular := not_regular fun i => abs_nonpos_iff.mp (largest i)
      exact iff_of_false (by simp) fun found => singular found.1
    · rename_i pivot
      rw [regular_below pivot, Option.map_eq_some_iff]
      constructor
      · rintro ⟨rest, found, rfl⟩
        obtain ⟨regular, solves⟩ := ih.mp found
        exact ⟨regular, (reduced_iff pivot).mpr ⟨rfl, solves⟩⟩
      · rintro ⟨regular, solves⟩
        rw [head_tail x] at solves ⊢
        obtain ⟨first, rest⟩ := (reduced_iff pivot).mp solves
        exact ⟨x.tail, ih.mpr ⟨regular, rest⟩, by rw [← first]⟩

end RootFinding.Exact
