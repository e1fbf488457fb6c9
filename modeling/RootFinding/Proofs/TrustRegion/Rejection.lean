import RootFinding.Proofs.Solver.TrustRegion
import RootFinding.Proofs.TrustRegion.Overflow

namespace RootFinding.TrustRegion

variable {n : Nat} {s : SquareSystem Float} {o : Options Float} {x : Vec Float n} {length : Nat}
  {states : Nat → State Float n} {ledgers : Nat → Ledger Float n}

/-- Only the counters, the step test and the radius change; and the radius does not where the
squared residual overflows while the linear model predicts less than that. -/
theorem rejected_iteration (passes : Passes s o .trustRegion x length states ledgers) {k : Nat}
    (within : k < length) (rejected : ¬ (states k).Takes s) :
    (states (k + 1)).progress.x = (states k).progress.x ∧
      (states (k + 1)).progress.fx = (states k).progress.fx ∧
      (states (k + 1)).progress.jac = (states k).progress.jac ∧
      (states (k + 1)).scaling = (states k).scaling ∧
      (states (k + 1)).progress.tests.byResidual = (states k).progress.tests.byResidual ∧
      (ledgers (k + 1)).session.jCalls = (ledgers k).session.jCalls ∧
      (ledgers (k + 1)).session.fCalls = (ledgers k).session.fCalls + 1 ∧
      (states (k + 1)).delta =
        if Overflows (states k).progress.fx (states k).model then (states k).delta
        else 0.5 * (states k).delta := by
  obtain ⟨trial, yields, delta, _, taken | ⟨kept, fCalls, jCalls⟩⟩ :=
    step_cases (passes.step k within)
  · exact absurd ⟨trial, yields, taken.ratio⟩ rejected
  · have finite := allFinite_fx passes k (by omega)
    refine ⟨kept.x, kept.fx, kept.jac, kept.scaling, ?_, jCalls, fCalls, ?_⟩
    · rw [kept.tests]
    · rw [delta, State.nextRadius, updateRadius_of_poor kept.ratio]
      have undefined : ((states k).ratio trial).isNaN ↔
          Overflows (states k).progress.fx (states k).model :=
        isNaN_reductionRatio finite yields.residual_allFinite
      simp only [undefined]

def flat : SquareSystem Float where
  convention := .outOfPlace
  sources := .separate (some fun _ => .ok (.list [.leaf 1])) fun _ => .ok (.list [.list [.leaf 1]])
  dimension := none

def steep : SquareSystem Float where
  convention := .outOfPlace
  sources := .separate
    (some (Formula.callable (.list
      [.leaf (.binary .multiply (.constant (.ofBits 0x6570000000000000)) (.coordinate 0))])))
    (Formula.callable (.list [.list [.leaf (.constant (.ofBits 0x6570000000000000))]]))
  dimension := none

def wide : Options Float where
  xtol := 0
  ftol := 0
  iterations := .whole 2
  storeTrace := true
  showTrace := false
  extendedTrace := true
  factor := 4
  autoscale := false
  lineSearch := .fixed 1

theorem rejected_iteration_flat :
    ∃ (states : Nat → State Float 1) (ledgers : Nat → Ledger Float 1),
      Passes flat wide .trustRegion #v[1] 1 states ledgers ∧ ¬ (states 0).Takes flat ∧
        (states 1).progress.fx = (states 0).progress.fx ∧ (states 0).delta = 4 ∧
        (states 1).delta = 2 := by
  have fine : (Method.trustRegion.reached flat wide #v[1] 1).1.isOk := by decide +kernel
  obtain ⟨states, ledgers, passes, reached⟩ := passes_of_reached fine
  have first : (Method.trustRegion.reached flat wide #v[1] 0).1.toOption.map (fun t =>
      (decide (State.Takes flat t), State.delta t,
        Overflows (State.progress t).fx (State.model t))) = some (false, 4, false) := by
    decide +kernel
  rw [reached 0 (by decide)] at first
  simp only [Except.toOption, Option.map_some, Option.some.injEq, Prod.mk.injEq,
    decide_eq_false_iff_not] at first
  obtain ⟨rejected, delta, fits⟩ := first
  obtain ⟨_, fx, _, _, _, _, _, next⟩ := rejected_iteration passes (by decide) rejected
  rw [fits, delta] at next
  have half : (0.5 * 4 : Float) = 2 := by decide +kernel
  exact ⟨states, ledgers, passes, rejected, fx, delta, next.trans half⟩

theorem steep_rejection_keeps_radius :
    ∃ (states : Nat → State Float 1) (ledgers : Nat → Ledger Float 1),
      Passes steep wide .trustRegion #v[1] 1 states ledgers ∧ ¬ (states 0).Takes steep ∧
        (states 1).delta ≠ 0.5 * (states 0).delta := by
  have fine : (Method.trustRegion.reached steep wide #v[1] 1).1.isOk := by decide +kernel
  obtain ⟨states, ledgers, passes, reached⟩ := passes_of_reached fine
  have first : (Method.trustRegion.reached steep wide #v[1] 0).1.toOption.map (fun t =>
      (decide (State.Takes steep t), State.delta t)) = some (false, 4) := by
    decide +kernel
  have second : (Method.trustRegion.reached steep wide #v[1] 1).1.toOption.map State.delta =
      some 4 := by
    decide +kernel
  rw [reached 0 (by decide)] at first
  rw [reached 1 (by decide)] at second
  simp only [Except.toOption, Option.map_some, Option.some.injEq, Prod.mk.injEq,
    decide_eq_false_iff_not] at first second
  obtain ⟨rejected, delta⟩ := first
  refine ⟨states, ledgers, passes, rejected, ?_⟩
  rw [second, delta]
  decide +kernel

end RootFinding.TrustRegion
