import RootFinding.Proofs.Exact.Step

namespace RootFinding.Exact

section Share

variable {n : Nat} {start diff d : Vec ℝ n} {delta : ℝ}

/-- The share of the path is the largest that lies inside the region. The path is inside before it,
and on the boundary there unless it ends inside. What is divided by is not zero. -/
theorem doglegTau_isGreatest (moves : scaled d diff ≠ 0) (inside : weightedNorm d start < delta) :
    let tau := doglegTau start diff d delta
    let length (t : ℝ) := weightedNorm d (start + Vec.scale t diff)
    let a := weightedDot d diff diff
    let b := 2 * weightedDot d start diff
    let c := weightedDot d start start - delta * delta
    let root := Real.sqrt (b * b - 4 * a * c)
    IsGreatest {t ∈ Set.Icc 0 1 | length t ≤ delta} tau ∧ 0 < tau ∧
      (∀ t ∈ Set.Icc 0 tau, length t ≤ delta) ∧
      (delta ≤ weightedNorm d (start + diff) → length tau = delta) ∧
      (0 ≤ b → let q := -(1 / 2) * (b + root)
        q ≠ 0 ∧ tau = min (max (c / q) 0) 1) ∧
      (b < 0 → let q := -(1 / 2) * (b - root)
        a ≠ 0 ∧ tau = min (max (q / a) 0) 1) := by
  obtain ⟨r, hr, met, _, within⟩ := doglegTau_eq moves inside
  have length := weightedDot_self_pos moves
  have below := (weightedNorm_lt_iff ((weightedNorm_nonneg d start).trans inside.le)).mp inside
  have gap := mul_neg_of_pos_of_neg length (sub_neg.mpr below)
  have forward : 0 < min r 1 := lt_min hr one_pos
  refine ⟨⟨⟨doglegTau_mem start diff d delta, doglegTau_inside inside⟩, ?_⟩, ?_, ?_,
    doglegTau_boundary inside, fun upward => ?_, fun downward => ?_⟩
  · rintro t ⟨⟨ht, share⟩, reached⟩
    rw [met]
    exact le_min ((within t ht).mp reached) share
  · rw [met]
    exact forward
  · rintro t ⟨ht, before⟩
    rw [met] at before
    exact (within t ht).mpr (before.trans (min_le_left _ _))
  · obtain ⟨negative, _, share⟩ := unitRoot_of_nonneg gap upward
    exact ⟨negative.ne, (doglegTau_of_moves moves start delta).trans share⟩
  · obtain ⟨_, _, share⟩ := unitRoot_of_neg gap downward
    exact ⟨length.ne', (doglegTau_of_moves moves start delta).trans share⟩

/-- The path turns back and leaves the region on the other side. -/
theorem doglegTau_isGreatest_across :
    scaled #v[1] #v[-2] ≠ (0 : Vec ℝ 1) ∧ weightedNorm #v[1] #v[1 / 2] < (1 : ℝ) ∧
      weightedNorm #v[1] (#v[1 / 2] + Vec.scale (doglegTau #v[1 / 2] #v[-2] #v[1] 1) #v[-2]) =
        (1 : ℝ) := by
  have moves : scaled #v[1] #v[-2] ≠ (0 : Vec ℝ 1) := by
    intro still
    have entry := congrArg (·.get 0) still
    simp only [scaled_get, zero_get] at entry
    change (1 : ℝ) * -2 = 0 at entry
    norm_num at entry
  have inside : weightedNorm #v[1] #v[1 / 2] < (1 : ℝ) := by
    rw [weightedNorm_single]
    norm_num [abs_of_pos]
  have beyond : (1 : ℝ) ≤ weightedNorm #v[1] (#v[1 / 2] + #v[-2]) := by
    rw [show #v[1 / 2] + #v[-2] = (#v[-3 / 2] : Vec ℝ 1) from
      ext_single (by rw [add_get]; change (1 / 2 : ℝ) + -2 = -3 / 2; norm_num),
      weightedNorm_single]
    norm_num [abs_of_neg]
  exact ⟨moves, inside, (doglegTau_isGreatest moves inside).2.2.2.1 beyond⟩

theorem doglegTau_le {delta' : ℝ} (inside : weightedNorm d start < delta)
    (larger : delta ≤ delta') (diff : Vec ℝ n) :
    doglegTau start diff d delta ≤ doglegTau start diff d delta' := by
  by_cases still : scaled d diff = 0
  · rw [doglegTau_of_still still, doglegTau_of_still still]
  · obtain ⟨r, hr, met, boundary, _⟩ := doglegTau_eq still inside
    obtain ⟨r', _, met', _, within⟩ := doglegTau_eq still (inside.trans_le larger)
    rw [met, met']
    exact min_le_min_right 1 ((within r hr.le).mp (boundary.trans_le larger))

end Share

section Region

variable {m n : Nat} {jac : Mat ℝ m n} {fx : Vec ℝ m} {d : Vec ℝ n} {delta delta' : ℝ}

theorem weightedNorm_doglegPath_some (positive : 0 < delta) (newton : Vec ℝ n) :
    weightedNorm d (doglegPath (some newton) jac fx d delta).p =
      min delta (weightedNorm d newton) := by
  rcases doglegPath_some jac fx d positive newton with ⟨within, _, same⟩ | ⟨beyond, _, boundary⟩
  · rw [same, min_eq_right within]
  · rw [boundary, min_eq_left beyond.le]

theorem weightedNorm_doglegPath_mono (positive : 0 < delta) (larger : delta ≤ delta')
    (full : Option (Vec ℝ n)) :
    weightedNorm d (doglegPath full jac fx d delta).p ≤
      weightedNorm d (doglegPath full jac fx d delta').p := by
  have positive' := positive.trans_le larger
  cases full with
  | none =>
    rw [(doglegPath_none jac fx d positive).2, (doglegPath_none jac fx d positive').2]
    exact min_le_min_right _ larger
  | some newton =>
    rw [weightedNorm_doglegPath_some positive, weightedNorm_doglegPath_some positive']
    exact min_le_min_right _ larger

theorem predicted_doglegPath_anti (positive : 0 < delta) (larger : delta ≤ delta')
    {full : Option (Vec ℝ n)} (solves : ∀ newton, full = some newton → jac.mulVec newton = -fx) :
    predicted jac fx (doglegPath full jac fx d delta').p ≤
      predicted jac fx (doglegPath full jac fx d delta).p := by
  have positive' := positive.trans_le larger
  -- A point of the gradient is inside the larger region as well, where the step is no worse.
  have gradient {t : ℝ} (within : t * slope jac fx d ≤ delta) :
      predicted jac fx (doglegPath full jac fx d delta').p ≤
        predicted jac fx (downhill jac fx d t) :=
    predicted_doglegPath_le positive' solves (within.trans larger)
  rcases doglegPath_cases jac fx d positive full with
    ⟨known, within⟩ | ⟨steep, _, boundary⟩ | ⟨inside, _, cauchy⟩ | ⟨inside, newton, known, between⟩
  · rcases doglegPath_some jac fx d positive' (doglegPath full jac fx d delta).p with
      ⟨_, _, same⟩ | ⟨beyond, _⟩
    · rw [← known] at same
      rw [same]
    · exact absurd (within.trans larger) beyond.not_ge
  · rw [boundary]
    exact gradient (div_mul_cancel₀ _ steep.ne').le
  · rw [cauchy]
    rw [weightedNorm_downhill jac fx d (reach_nonneg jac fx d)] at inside
    exact gradient inside.le
  · rcases doglegPath_cases jac fx d positive' full with
      ⟨known', _⟩ | ⟨_, outside, _⟩ | ⟨_, none', _⟩ | ⟨_, newton', known', between'⟩
    · rw [predicted_newton (solves _ known')]
      exact predicted_nonneg _
    · exact absurd (inside.trans_le larger) outside.not_gt
    · cases known.symm.trans none'
    · obtain rfl := Option.some.inj (known.symm.trans known')
      have later := doglegTau_le inside larger (newton - downhill jac fx d (reach jac fx d))
      have most := (doglegTau_mem (downhill jac fx d (reach jac fx d))
        (newton - downhill jac fx d (reach jac fx d)) d delta').2
      rw [between, between', predicted_between (solves newton known),
        predicted_between (solves newton known)]
      refine mul_le_mul_of_nonneg_right ?_ (predicted_nonneg _)
      exact mul_self_le_mul_self (by linarith) (by linarith)

end Region

/-- A larger region never gives a shorter step, nor one after which the linear model is worse. -/
theorem doglegStep_mono {n : Nat} (jac : Mat ℝ n n) (fx d : Vec ℝ n) {delta delta' : ℝ}
    (positive : 0 < delta) (larger : delta ≤ delta') :
    let p := (doglegStep jac fx d delta).p
    let p' := (doglegStep jac fx d delta').p
    weightedNorm d p ≤ weightedNorm d p' ∧
      (fx + jac.mulVec p').norm ≤ (fx + jac.mulVec p).norm := by
  refine ⟨weightedNorm_doglegPath_mono positive larger _, Real.sqrt_le_sqrt ?_⟩
  exact predicted_doglegPath_anti positive larger (gaussNewtonStep_solves jac fx)

/-- The smaller region cuts off the gradient of a singular Jacobian, the larger one does not. -/
theorem doglegStep_mono_repeated :
    (0 : ℝ) < 1 / 4 ∧ (1 / 4 : ℝ) ≤ 1 ∧
      let jac : Mat ℝ 2 2 := #v[#v[1, 1], #v[1, 1]]
      let p := (doglegStep jac #v[1, 0] #v[1, 1] (1 / 4)).p
      let p' := (doglegStep jac #v[1, 0] #v[1, 1] 1).p
      weightedNorm #v[1, 1] p ≤ weightedNorm #v[1, 1] p' ∧
        Vec.norm (#v[1, 0] + jac.mulVec p') ≤ Vec.norm (#v[1, 0] + jac.mulVec p) := by
  have positive : (0 : ℝ) < 1 / 4 := by norm_num
  have larger : (1 / 4 : ℝ) ≤ 1 := by norm_num
  exact ⟨positive, larger, doglegStep_mono _ _ _ positive larger⟩

end RootFinding.Exact
