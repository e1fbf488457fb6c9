import RootFinding.Proofs.Exact.Descent

namespace RootFinding.TrustRegion

open Exact

variable {n : Nat}

/-- The Jacobian at the start, and those after the steps that were taken in so many iterations. -/
noncomputable def jacobians (s : SquareSystem ℝ) (states : Nat → State ℝ n) : Nat → List (Mat ℝ n n)
  | 0 => [(states 0).progress.jac]
  | k + 1 =>
    if (states k).Takes s then jacobians s states k ++ [(states (k + 1)).progress.jac]
    else jacobians s states k

noncomputable def columnWeight (i : Nat) (a : Mat ℝ n n) (j : Fin n) : ℝ :=
  if i = 0 ∧ a.column j = 0 then 1 else (a.column j).norm

/-- The weights of a column in a list of Jacobians, decayed once for each Jacobian after them. -/
def decayedWeights (decay : ℝ) (past : List (Mat ℝ n n)) (j : Fin n) : Set ℝ :=
  {w | ∃ (i : Nat) (within : i < past.length),
    w = decay ^ (past.length - 1 - i) * columnWeight i past[i] j}

section Weights

variable {decay w : ℝ} {past : List (Mat ℝ n n)} {a : Mat ℝ n n} {j : Fin n}

theorem columnWeight_zero (a : Mat ℝ n n) (j : Fin n) :
    columnWeight 0 a j = (initialScaling a).get j := by
  rw [columnWeight, initialScaling_get]
  refine if_congr ?_ rfl rfl
  rw [norm_eq_zero_iff]
  exact and_iff_right rfl

theorem isGreatest_first (decay : ℝ) (a : Mat ℝ n n) (j : Fin n) :
    IsGreatest (decayedWeights decay [a] j) ((initialScaling a).get j) := by
  have whole : decayedWeights decay [a] j = {(initialScaling a).get j} := by
    refine Set.ext fun w => ⟨?_, ?_⟩
    · rintro ⟨i, within, rfl⟩
      obtain rfl : i = 0 := Nat.lt_one_iff.mp within
      exact (one_mul _).trans (columnWeight_zero a j)
    · rintro rfl
      exact ⟨0, one_pos, ((one_mul _).trans (columnWeight_zero a j)).symm⟩
  rw [whole]
  exact isGreatest_singleton

theorem decayedWeights_append (begun : past ≠ []) :
    decayedWeights decay (past ++ [a]) j =
      (decay * ·) '' decayedWeights decay past j ∪ {(a.column j).norm} := by
  have positive : 0 < past.length := List.length_pos_iff.mpr begun
  have last : columnWeight past.length a j = (a.column j).norm :=
    if_neg fun first => positive.ne' first.1
  refine Set.ext fun w => ⟨?_, ?_⟩
  · rintro ⟨i, within, rfl⟩
    rw [List.length_append, List.length_singleton] at within
    rw [List.length_append, List.length_singleton, Nat.add_sub_cancel]
    by_cases before : i < past.length
    · refine .inl ⟨_, ⟨i, before, rfl⟩, ?_⟩
      have later : past.length - i = past.length - 1 - i + 1 := by omega
      rw [List.getElem_append_left before, later, pow_succ]
      ring
    · obtain rfl : i = past.length := by omega
      right
      rw [List.getElem_concat_length rfl, Nat.sub_self, pow_zero, one_mul, last]
      rfl
  · rintro (⟨_, ⟨i, within, rfl⟩, rfl⟩ | rfl)
    · have later : (past ++ [a]).length - 1 - i = past.length - 1 - i + 1 := by
        rw [List.length_append, List.length_singleton]
        omega
      refine ⟨i, by rw [List.length_append]; omega, ?_⟩
      rw [List.getElem_append_left within, later, pow_succ]
      ring
    · have none : (past ++ [a]).length - 1 - past.length = 0 := by
        rw [List.length_append, List.length_singleton]
        omega
      refine ⟨past.length, by rw [List.length_append]; exact Nat.lt_succ_self _, ?_⟩
      rw [List.getElem_concat_length rfl, none, pow_zero, one_mul, last]

theorem isGreatest_append (nonneg : 0 ≤ decay) (begun : past ≠ [])
    (greatest : IsGreatest (decayedWeights decay past j) w) :
    IsGreatest (decayedWeights decay (past ++ [a]) j) (max (decay * w) (a.column j).norm) := by
  rw [decayedWeights_append begun]
  have grows : Monotone (decay * ·) := fun _ _ le => mul_le_mul_of_nonneg_left le nonneg
  exact (grows.map_isGreatest greatest).union isGreatest_singleton

end Weights

variable {s : SquareSystem ℝ} {o : Options ℝ} {x : Vec ℝ n} {length k : Nat}
  {states : Nat → State ℝ n} {ledgers : Nat → Ledger ℝ n}

theorem jacobians_getLast? (passes : Passes s o .trustRegion x length states ledgers)
    (within : k ≤ length) :
    (jacobians s states k).getLast? = some (states k).progress.jac := by
  induction k with
  | zero => rfl
  | succ k ih =>
    obtain ⟨trial, yields, _, _, taken | ⟨kept, _⟩⟩ := step_cases (passes.step k within)
    · rw [jacobians, if_pos ⟨trial, yields, taken.ratio⟩, List.getLast?_concat]
    · rw [jacobians, if_neg (kept.not_takes yields), kept.jac]
      exact ih (Nat.le_of_lt within)

theorem scaling_isGreatest (scales : o.autoscale)
    (passes : Passes s o .trustRegion x length states ledgers) (within : k ≤ length) (j : Fin n) :
    IsGreatest (decayedWeights 0.1 (jacobians s states k) j) ((states k).scaling.get j) := by
  induction k with
  | zero =>
    obtain ⟨_, _, _, _, scaling, _⟩ := start_cases passes.start
    rw [scaling, startScaling, if_pos scales]
    exact isGreatest_first _ _ j
  | succ k ih =>
    have before := ih (Nat.le_of_lt within)
    obtain ⟨trial, yields, _, _, taken | ⟨kept, _⟩⟩ := step_cases (passes.step k within)
    · have begun : jacobians s states k ≠ [] := by
        have last := jacobians_getLast? passes (Nat.le_of_lt within)
        intro empty
        rw [empty] at last
        cases last
      rw [jacobians, if_pos ⟨trial, yields, taken.ratio⟩, taken.scaling, if_pos scales,
        updateScaling_get]
      exact isGreatest_append (by norm_num) begun before
    · rw [jacobians, if_neg (kept.not_takes yields), kept.scaling]
      exact before

theorem slope_ne_zero_of_far {jac : Mat ℝ n n} {fx d : Vec ℝ n} {delta : ℝ} (positive : 0 < delta)
    (far : delta ≤ weightedNorm d (cauchyPoint jac fx d).2) : slope jac fx d ≠ 0 := by
  intro level
  rw [cauchyPoint_eq, weightedNorm_downhill jac fx d (reach_nonneg jac fx d), level, mul_zero]
    at far
  exact positive.not_ge far

/-- In each column the scaling is the largest decayed norm so far. So it is positive and no less
than the current norm, and neither its squares nor the length of a gradient that a step is cut off
along are ever zero. -/
theorem scaling_remembers (scales : o.autoscale) (admitted : o.invalid? = none)
    (passes : Passes s o .trustRegion x length states ledgers) (within : k ≤ length) :
    let past := jacobians s states k
    let t := states k
    past.getLast? = some t.progress.jac ∧
      (∀ j, IsGreatest {w | ∃ (i : Nat) (within : i < past.length),
        w = 0.1 ^ (past.length - 1 - i) * columnWeight i past[i] j} (t.scaling.get j)) ∧
      (k < length → ¬ t.Takes s → (states (k + 1)).scaling = t.scaling) ∧
      (∀ j, 0 < t.scaling.get j ∧ (t.progress.jac.column j).norm ≤ t.scaling.get j ∧
        t.scaling.get j * t.scaling.get j ≠ 0) ∧
      (t.delta ≤ weightedNorm t.scaling (cauchyPoint t.progress.jac t.progress.fx t.scaling).2 →
        weightedNorm t.scaling (scaledGradient t.progress.jac t.progress.fx t.scaling) ≠ 0) := by
  have fit := fits scales passes k within
  refine ⟨jacobians_getLast? passes within, scaling_isGreatest scales passes within,
    fun less rejects => ?_, fun j => ?_, ?_⟩
  · obtain ⟨trial, yields, _, _, taken | ⟨kept, _⟩⟩ := step_cases (passes.step k less)
    · exact absurd ⟨trial, yields, taken.ratio⟩ rejects
    · exact kept.scaling
  · have positive := fit.positive j
    exact ⟨positive, fit.column j, (mul_pos positive positive).ne'⟩
  · exact slope_ne_zero_of_far (delta_pos admitted passes k within)

/-- One step that is taken, and so two Jacobians. -/
theorem scaling_remembers_line :
    ∃ (states : Nat → State ℝ 1) (ledgers : Nat → Ledger ℝ 1),
      Passes (line ℝ) .standard .trustRegion #v[1] 1 states ledgers ∧
        (jacobians (line ℝ) states 1).length = 2 ∧
        (∃ i, ∃ within : i < (jacobians (line ℝ) states 1).length, (states 1).scaling.get 0 =
          0.1 ^ (1 - i) * columnWeight i (jacobians (line ℝ) states 1)[i] 0) ∧
        0 < (states 1).scaling.get 0 := by
  obtain ⟨states, ledgers, passes, _⟩ :=
    passes_of_reached (reached_isOk (o := .standard) (x := #v[1]) line_replies 1)
  obtain ⟨yields, start, _⟩ := start_cases passes.start
  have known := yields.unique (line_yields 1).2.2
  have takes : (states 0).Takes (line ℝ) :=
    line_takes (delta_pos standard_admitted passes 0 (by decide)) (fits rfl passes 0 (by decide))
      (congrArg Prod.fst known) (congrArg Prod.snd known) start
  have two : (jacobians (line ℝ) states 1).length = 2 := by
    rw [jacobians, if_pos takes]
    rfl
  obtain ⟨_, greatest, _, column, _⟩ :=
    scaling_remembers rfl standard_admitted passes (Nat.le_refl 1)
  obtain ⟨i, within, weight⟩ := (greatest 0).1
  rw [two] at weight
  exact ⟨states, ledgers, passes, two, ⟨i, within, weight⟩, (column 0).1⟩

end RootFinding.TrustRegion
