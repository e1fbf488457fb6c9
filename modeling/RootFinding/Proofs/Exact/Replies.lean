import RootFinding.Proofs.Exact.Region
import RootFinding.Proofs.Solver.Iterations
import RootFinding.Proofs.Solver.Presentations

namespace RootFinding

open Exact

instance : LawfulScalar ℝ where
  isNaN_add _ _ := by simp [Scalar.isNaN]
  isNaN_sub _ _ := by simp [Scalar.isNaN]
  isNaN_mul _ _ := by simp [Scalar.isNaN]
  isNaN_sqrt _ := by simp [Scalar.isNaN]
  isNaN_magnitude _ := rfl
  isNaN_zero := rfl
  isNaN_of_isFinite _ _ := rfl
  not_lt_of_isNaN _ _ := by simp [Scalar.isNaN]
  le_of_not_lt _ _ _ _ := not_lt.mp
  le_of_lt _ _ := le_of_lt
  le_trans _ _ _ := le_trans
  lt_of_le_of_lt _ _ _ := lt_of_le_of_lt

variable {n : Nat}

theorem Exact.maxNorm_le_iff {v : Vec ℝ n} {bound : ℝ} :
    v.maxNorm ≤ bound ↔ 0 ≤ bound ∧ ∀ i, |v.get i| ≤ bound := by
  rw [Vec.maxNorm_le (vec_allFinite v)]
  refine and_congr_right fun _ => ⟨fun all i => ?_, fun all entry member => ?_⟩
  · exact all _ (Vector.mem_toList_iff.mpr (Vector.getElem_mem i.isLt))
  · obtain ⟨i, within, rfl⟩ := List.mem_iff_getElem.mp member
    rw [Vector.length_toList] at within
    exact all ⟨i, within⟩

theorem Exact.le_maxNorm (v : Vec ℝ n) (i : Fin n) : |v.get i| ≤ v.maxNorm :=
  (maxNorm_le_iff.mp (le_refl _)).2 i

theorem Convergence.residualTest_zero {ftol : ℝ} (positive : 0 < ftol) :
    residualTest (0 : Vec ℝ n) ftol := by
  have small : (0 : Vec ℝ n).maxNorm ≤ 0 :=
    maxNorm_le_iff.mpr ⟨le_refl 0, fun i => by rw [zero_get, abs_zero]⟩
  exact decide_eq_true (small.trans_lt positive)

theorem Presentation.system_ok {α : Type} [Scalar α] (positive : 0 < n) (w : Presentation)
    (c : Callables α n) : ∃ s, w.system c = .ok s ∧ s.Presents c ∧ s.analytic = w.analytic := by
  obtain ⟨e, jacobian, s, handed, system, analytic, suits, supply⟩ := w.equations_ok positive c
  refine ⟨s, ?_, supply.presents positive suits, analytic⟩
  rw [Presentation.system, handed]
  exact system

theorem SquareSystem.reply_values (s : SquareSystem ℝ) (y : Vec ℝ n) :
    s.reply (.residual y) = s.residualValue y.toArray n ∧
      s.reply (.jacobian y) = s.jacobianValue y ∧ s.reply (.both y) = s.bothValue y := by
  refine ⟨?_, ?_, ?_⟩
  · cases value : s.residualValue y.toArray n with
    | error e => simp only [reply, value]; rfl
    | ok fx => exact reply_residual_ok.mpr ⟨value, vec_allFinite _⟩
  · cases value : s.jacobianValue y with
    | error e => simp only [reply, value]; rfl
    | ok jac => exact reply_jacobian_ok.mpr ⟨value, mat_allFinite _⟩
  · cases value : s.bothValue y with
    | error e => simp only [reply, value]; rfl
    | ok pair => exact reply_both_ok.mpr ⟨value, vec_allFinite _, mat_allFinite _⟩

theorem SquareSystem.Presents.replies {s : SquareSystem ℝ} {c : Callables ℝ n}
    (presents : s.Presents c) (y : Vec ℝ n) :
    s.reply (.residual y) = .ok (c.map y) ∧
      s.reply (.jacobian y) = .ok (c.jacobian s.analytic y) ∧
      s.reply (.both y) = .ok (c.map y, c.jacobian s.analytic y) := by
  obtain ⟨residual, jacobian, both⟩ := s.reply_values y
  rw [residual, jacobian, both]
  exact ⟨presents.residual y, presents.jacobian y, presents.both y⟩

theorem SquareSystem.Presents.replies_isOk {s : SquareSystem ℝ} {c : Callables ℝ n}
    (presents : s.Presents c) (q : Request ℝ n) : (s.reply q).isOk := by
  cases q with
  | residual y =>
    rw [(presents.replies y).1]
    rfl
  | jacobian y =>
    rw [(presents.replies y).2.1]
    rfl
  | both y =>
    rw [(presents.replies y).2.2]
    rfl
  | note m => rfl

section Tests

variable {s : SquareSystem ℝ} {o : Options ℝ} {m : Method} {x : Vec ℝ n} {length : Nat}
  {states : Nat → m.State ℝ n} {ledgers : Nat → Ledger ℝ n}

theorem Passes.byStep_never (passes : Passes s o m x length states ledgers) (never : o.xtol = 0)
    {k : Nat} (within : k ≤ length) : (m.progress (states k)).tests.byStep = false := by
  cases k with
  | zero => exact passes.start_byStep
  | succ k =>
    refine Bool.eq_false_iff.mpr fun holds => ?_
    obtain ⟨_, positive, _⟩ := (Method.step_byStep (passes.step k within)).mp holds
    rw [never] at positive
    exact lt_irrefl 0 positive

theorem Passes.undecided (passes : Passes s o m x length states ledgers) (never : o.xtol = 0)
    (zero : o.ftol = 0) {k : Nat} (within : k ≤ length) :
    (m.progress (states k)).tests.any = false := by
  have nonneg := ((Vec.maxNorm_le (vec_allFinite (m.progress (states k)).fx)).mp (le_refl _)).1
  rw [Convergence.any, passes.byStep_never never within, passes.byResidual k within, zero,
    Bool.false_or]
  exact decide_eq_false (not_lt.mpr nonneg)

end Tests

namespace TrustRegion

variable {s : SquareSystem ℝ} {o : Options ℝ}

theorem solveFrom_ok {x : Vec ℝ n} (replies : ∀ q : Request ℝ n, (s.reply q).isOk) :
    ∃ r, (solveFrom s o .trustRegion x).result = .ok r := by
  obtain ⟨states, ledgers, passes, _⟩ :=
    passes_of_reached (reached_isOk (o := o) (x := x) replies o.iterations.below)
  exact solveFrom_returns passes (Nat.le_refl _) (.inr rfl)

end TrustRegion

end RootFinding
