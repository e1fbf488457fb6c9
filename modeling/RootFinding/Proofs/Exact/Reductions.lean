import RootFinding.Proofs.Exact.Backtracking

namespace RootFinding.Backtracking

open Exact

variable {b : Backtracking ℝ} {φ : MeritFunction ℝ} {phi0 slope : ℝ}

/-- A reduction by the one quadratic through the trial: what is divided by is positive, and before
it is safeguarded the next step length is where the quadratic is least. -/
structure QuadraticReduction (b : Backtracking ℝ) (phi0 slope : ℝ) (t : Trial ℝ) (next : ℝ) :
    Prop where
  kept : next = b.safeguard t.alpha (some (b.quadraticStep phi0 slope t))
  denominator : 0 < 2 * (t.phi - phi0 - slope * t.alpha)
  unique : ∃! q, Interpolates phi0 slope [t] q
  least : ∀ q, Interpolates phi0 slope [t] q → ∀ x ≠ b.quadraticStep phi0 slope t,
    q.eval (b.quadraticStep phi0 slope t) < q.eval x

/-- A reduction by the one cubic through two trials. Without a step it is as small as the factors
allow. Unless the leading coefficient counts as zero, and as long as no more than a quarter of the
slope is asked for, there is a step, and before it is safeguarded it is positive and the one local
minimum of the cubic. -/
structure CubicReduction (b : Backtracking ℝ) (phi0 slope : ℝ) (older newer : Trial ℝ) (next : ℝ)
    (p : Cubic ℝ) (step : Option ℝ) : Prop where
  kept : next = b.safeguard newer.alpha step
  proposed : cubicProposal phi0 slope older newer = .ok step
  computed : step =
    if |p.a| ≤ Scalar.epsilon then
      if p.b = 0 then none else some (-slope / (2 * p.b))
    else some ((-p.b + √(max (p.b * p.b - 3 * p.a * slope) 0)) / (3 * p.a))
  missing : step = none → next = b.rhoHi * newer.alpha
  unique : ∀ q, Interpolates phi0 slope [older, newer] q ↔ q = p.toPoly
  minimum : b.c1 ≤ 1 / 4 → Scalar.epsilon < |p.a| →
    0 < p.b * p.b - 3 * p.a * slope ∧ ∃ s ∈ step, 0 < s ∧
      ∀ x, IsLocalMin (fun y => p.toPoly.eval y) x ↔ x = s

theorem quadraticReduction (share : b.c1 < 1) (downhill : slope < 0) {t : Trial ℝ}
    (positive : 0 < t.alpha) (above : phi0 + b.c1 * t.alpha * slope < t.phi) :
    b.QuadraticReduction phi0 slope t
      (b.safeguard t.alpha (some (b.quadraticStep phi0 slope t))) := by
  have lifted := excess_pos share downhill positive above
  refine ⟨rfl, mul_pos two_pos lifted, ?_, fun q fits x other =>
    quadraticStep_least b positive lifted fits other⟩
  exact ⟨_, (interpolates_single positive.ne').mpr rfl, fun q fits =>
    (interpolates_single positive.ne').mp fits⟩

theorem epsilon_pos : (0 : ℝ) < Scalar.epsilon := by
  rw [Scalar.epsilon]
  norm_num

theorem cubicReduction (admitted : b.Admitted) (downhill : slope < 0) {older newer : Trial ℝ}
    (positive : 0 < newer.alpha) (shorter : newer.alpha < older.alpha)
    (above : phi0 + b.c1 * newer.alpha * slope < newer.phi) {step : Option ℝ}
    (proposed : cubicProposal phi0 slope older newer = .ok step) :
    b.CubicReduction phi0 slope older newer (b.safeguard newer.alpha step)
      (interpolant phi0 slope older newer) step := by
  have h0 := (positive.trans shorter).ne'
  have computed :=
    Except.ok.inj (proposed.symm.trans (cubicProposal_eq h0 positive.ne' shorter.ne'))
  refine ⟨rfl, proposed, computed, fun missing => ?_,
    fun q => interpolates_pair h0 positive.ne' shorter.ne', fun quarter significant => ?_⟩
  · rw [missing, safeguard_none admitted positive]
  obtain ⟨p, known⟩ : ∃ p, p = interpolant phi0 slope older newer := ⟨_, rfl⟩
  have tangent : p.d = phi0 ∧ p.c = slope := by rw [known]; exact ⟨rfl, rfl⟩
  obtain ⟨rfl, rfl⟩ := tangent
  rw [← known] at computed significant ⊢
  have passes := ((eq_interpolant_iff h0 positive.ne' shorter.ne').mp known).2
  have nonzero : p.a ≠ 0 := abs_pos.mp (epsilon_pos.trans significant)
  obtain ⟨discriminant, beyond⟩ := discriminant_pos downhill quarter positive above passes nonzero
  rw [if_neg significant.not_ge, max_eq_left discriminant.le] at computed
  exact ⟨discriminant, _, computed, lowPoint_pos downhill nonzero discriminant beyond, fun x =>
    isLocalMin_toPoly_iff_eq nonzero discriminant⟩

theorem Tries.filterMap_trial? {left : Nat} {trials : List ℝ} {asked : List (MeritRequest ℝ)}
    {out : Except (Failure ℝ) ℝ} (tries : Tries b φ phi0 slope left trials asked out) :
    asked.filterMap MeritRequest.trial? = trials := by
  induction tries with
  | failed | low | spent => rfl
  | reduced _ _ _ _ ih => exact congrArg _ ih

/-- The reductions of a search downhill, between each step length that is tried and the next: by the
quadratic through the last trial, or for order three by the cubic through the last two. -/
theorem search_interpolates (valid : b.invalid? = none) (downhill : slope < 0)
    (φ : MeritFunction ℝ) (phi0 : ℝ) {n : Nat} (direction : Vec ℝ n) :
    let asked := Plan.requests φ.reply (b.search phi0 slope direction.norm)
    ∀ earlier newer next later,
      asked.filterMap MeritRequest.trial? = earlier ++ newer :: next :: later →
      ∃ phi, φ.value newer = .ok phi ∧ phi0 + b.c1 * newer * slope < phi ∧
        (b.order.equals 2 = true ∨ earlier = [] →
          b.QuadraticReduction phi0 slope ⟨newer, phi⟩ next) ∧
        (b.order.equals 2 = false → ∀ t ∈ earlier.getLast?, ∃ phi', φ.value t = .ok phi' ∧
          ∃ step, b.CubicReduction phi0 slope ⟨t, phi'⟩ ⟨newer, phi⟩ next
            (interpolant phi0 slope ⟨t, phi'⟩ ⟨newer, phi⟩) step) := by
  have admitted := admitted_of_invalid? valid
  have begins := (initialStep_mem admitted (norm_nonneg direction)).1
  obtain ⟨_, reduces⟩ := search_reduces b φ phi0 slope direction.norm
  have tries := reduces.tries admitted begins
  intro asked earlier newer next later split
  rw [tries.filterMap_trial?] at split
  have positive (t : ℝ) (member : t ∈ earlier ++ newer :: next :: later) : 0 < t := by
    rw [← split] at member
    exact (mem_of_isChain admitted tries.isChain begins t member).1
  have forward := positive newer (by simp)
  have chain := tries.isChain
  rw [split, List.isChain_append] at chain
  obtain ⟨step, ⟨before, phi, last, preceded, value, proposed⟩, kept⟩ := reduces.proposes split
  obtain ⟨phi', value', above⟩ := tries.above_dropLast newer (by rw [split]; simp)
  cases value.symm.trans value'
  refine ⟨phi, value, above, fun quadratic => ?_, fun cubic t final => ?_⟩
  · have first : b.order.equals 2 = true ∨ before.isNone = true := by
      refine quadratic.imp_right fun empty => ?_
      rw [empty] at last
      rw [Option.isNone_iff_eq_none, ← Option.map_eq_none_iff, ← last, List.getLast?_nil]
    rw [proposal_of_quadratic first] at proposed
    rw [kept, ← Except.ok.inj proposed]
    exact quadraticReduction admitted.decrease.2 downhill forward above
  · rw [Option.mem_def.mp final] at last
    obtain ⟨older, rfl, rfl⟩ := Option.map_eq_some_iff.mp last.symm
    rw [Option.isNone_some, proposal_of_cubic cubic] at proposed
    have longer := positive _ (List.mem_append_left _ (List.mem_of_getLast? final))
    have shorter : newer < older.alpha :=
      (chain.2.2 _ final newer rfl).2.trans_lt (mul_lt_of_lt_one_left longer admitted.highest)
    refine ⟨older.phi, preceded older rfl, step, ?_⟩
    rw [kept]
    exact cubicReduction admitted downhill forward shorter above proposed

/-- A merit function that rises although its slope says otherwise: one reduction of each kind. -/
theorem search_interpolates_uphill :
    let b : Backtracking ℝ := { Backtracking.standard with iterations := .whole 2 }
    let φ : MeritFunction ℝ := ⟨fun t => .ok (1 + t), fun _ => .ok 1⟩
    let asked := Plan.requests φ.reply (b.search 1 (-1) (Vec.norm #v[1]))
    b.invalid? = none ∧ (-1 : ℝ) < 0 ∧ ∃ next last step,
      asked.filterMap MeritRequest.trial? = [1, next, last] ∧
      b.QuadraticReduction 1 (-1) ⟨1, 1 + 1⟩ next ∧
      b.CubicReduction 1 (-1) ⟨1, 1 + 1⟩ ⟨next, 1 + next⟩ last
        (interpolant 1 (-1) ⟨1, 1 + 1⟩ ⟨next, 1 + next⟩) step := by
  intro b φ asked
  have valid : b.invalid? = none := by
    norm_num [b, invalid?, standard, Count.equals, Count.isBelow]
  have downhill : (-1 : ℝ) < 0 := by norm_num
  have admitted := admitted_of_invalid? valid
  have reductions := search_interpolates valid downhill φ 1 #v[1]
  -- No trial is low enough, and all three are made.
  have nonneg := norm_nonneg (#v[1] : Vec ℝ 1)
  have begins := (initialStep_mem admitted nonneg).1
  obtain ⟨trials, tries⟩ := search_tries φ 1 (-1) admitted nonneg
  obtain ⟨t, ended, _, full⟩ := tries.ends
  have positive :=
    (mem_of_isChain admitted tries.isChain begins t (List.mem_of_getLast? ended)).1
  have length := full ⟨_, rfl, by
    change 1 + 1e-4 * t * -1 < 1 + t
    linarith⟩
  rw [List.length_cons] at length
  obtain ⟨next, last, rfl⟩ := List.length_eq_two.mp (Nat.succ_injective length)
  have first : b.initialStep (Vec.norm #v[1]) = 1 := (b.initialStep_eq _).1 (.inl rfl)
  have made := tries.filterMap_trial?
  rw [first] at made
  obtain ⟨phi, value, _, quadratic, _⟩ := reductions [] 1 next [last] made
  obtain ⟨phi', value', _, _, cubic⟩ := reductions [1] next last [] made
  cases value
  cases value'
  obtain ⟨phi, value, step, reduced⟩ := cubic rfl 1 rfl
  cases value
  exact ⟨valid, downhill, next, last, step, made, quadratic (.inr rfl), reduced⟩

end RootFinding.Backtracking
