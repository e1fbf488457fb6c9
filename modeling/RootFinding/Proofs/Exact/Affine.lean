import RootFinding.Proofs.Exact.Differences
import RootFinding.Proofs.Exact.Descent
import RootFinding.Proofs.Exact.Equations
import RootFinding.Proofs.Exact.Replies
import RootFinding.Proofs.Solver.Counters
import RootFinding.Proofs.Solver.Iterations

namespace RootFinding

open Exact

variable {n : Nat} {a : Mat ℝ n n} {b : Vec ℝ n} {s : SquareSystem ℝ}

structure SquareSystem.Affine (s : SquareSystem ℝ) (a : Mat ℝ n n) (b : Vec ℝ n) : Prop where
  residual : ∀ y, s.reply (.residual y) = .ok (a.mulVec y - b)
  jacobian : ∀ y, s.reply (.jacobian y) = .ok a
  both : ∀ y, s.reply (.both y) = .ok (a.mulVec y - b, a)

theorem Callables.quotients_affine {c : Callables ℝ n} (map : ∀ y, c.map y = a.mulVec y - b)
    (x : Vec ℝ n) : c.quotients x = a :=
  (c.quotients_eq x).trans (differenceQuotients_affine map x)

theorem SquareSystem.Presents.affine {c : Callables ℝ n} (presents : s.Presents c)
    (map : ∀ y, c.map y = a.mulVec y - b) (derivative : ∀ y, c.derivative y = a) :
    s.Affine a b := by
  have matrix (y : Vec ℝ n) : c.jacobian s.analytic y = a := by
    rw [Callables.jacobian]
    split
    · exact derivative y
    · exact c.quotients_affine map y
  refine ⟨fun y => ?_, fun y => ?_, fun y => ?_⟩
  · rw [(presents.replies y).1, map]
  · rw [(presents.replies y).2.1, matrix]
  · rw [(presents.replies y).2.2, map, matrix]

namespace TrustRegion

variable {o : Options ℝ} {x d : Vec ℝ n} {t next : State ℝ n}

/-- What does not change while a system of linear equations is solved. -/
structure State.Models (a : Mat ℝ n n) (b d : Vec ℝ n) (t : State ℝ n) : Prop where
  fx : t.progress.fx = a.mulVec t.progress.x - b
  jac : t.progress.jac = a
  scaling : t.scaling = d

structure Foreseen (s : SquareSystem ℝ) (t next : State ℝ n) : Prop where
  ratio : ∃ trial, s.Yields (.residual t.trialPoint) trial ∧ t.ratio trial = 1
  takes : t.Takes s
  doubles : t.move.kind ≠ .newton → next.delta = 2 * t.delta
  solves : t.move.kind = .newton → next.progress.fx = 0

theorem startScaling_pos (autoscale : Bool) (jac : Mat ℝ n n) (j : Fin n) :
    0 < (startScaling autoscale jac).get j := by
  rw [startScaling]
  split
  · exact (fits_initialScaling jac).positive j
  · have one : (Vector.replicate n (1 : ℝ)).get j = 1 := Vector.getElem_replicate j.isLt
    rw [one]
    exact one_pos

section Affine

variable (affine : s.Affine a b)
include affine

theorem State.Models.model_yields (models : t.Models a b d) :
    s.Yields (.residual t.trialPoint) t.model := by
  refine SquareSystem.yields_iff.mpr ((affine.residual _).trans (congrArg _ ?_))
  rw [State.trialPoint, State.model, models.fx, models.jac, mulVec_add]
  refine ext_get fun i => ?_
  simp only [sub_get, add_get]
  ring

theorem models (regular : Regular a) {length : Nat} {states : Nat → State ℝ n}
    {ledgers : Nat → Ledger ℝ n} (passes : Passes s o .trustRegion x length states ledgers) :
    ∀ k ≤ length, (states k).Models a b (startScaling o.autoscale a) := by
  refine passes.induct (motive := fun _ t => State.Models a b (startScaling o.autoscale a) t)
    (fun ran => ?_) fun k _ ran before => ?_
  · obtain ⟨yields, place, _, _, scaling, _⟩ := start_cases ran
    have known := (SquareSystem.yields_iff.mp yields).symm.trans (affine.both x)
    obtain ⟨fx, jac⟩ := Prod.mk.inj (Except.ok.inj known)
    exact ⟨by rw [fx, place], jac, by rw [scaling, jac]⟩
  · obtain ⟨trial, yields, _, _, taken | ⟨kept, _⟩⟩ := step_cases ran
    · have fx := (SquareSystem.yields_iff.mp yields).symm.trans (affine.residual _)
      have jac := (SquareSystem.yields_iff.mp taken.jac).symm.trans (affine.jacobian _)
      refine ⟨?_, Except.ok.inj jac, ?_⟩
      · rw [taken.fx, taken.x]
        exact Except.ok.inj fx
      · rw [taken.scaling, Except.ok.inj jac, before.scaling, startScaling]
        split
        · exact updateScaling_initialScaling regular.column_ne_zero
        · rfl
    · exact ⟨by rw [kept.fx, kept.x]; exact before.fx, kept.jac.trans before.jac,
        kept.scaling.trans before.scaling⟩

omit affine in
theorem State.Models.path (models : t.Models a b d) (regular : Regular a)
    (positive : 0 < t.delta) : ∃ newton, a.mulVec newton = -t.progress.fx ∧
      (weightedNorm d newton ≤ t.delta ∧ t.move.kind = .newton ∧ t.move.p = newton ∨
        t.delta < weightedNorm d newton ∧ t.move.kind ≠ .newton ∧
          weightedNorm d t.move.p = t.delta) := by
  obtain ⟨newton, found, solves⟩ := regular.gaussNewtonStep t.progress.fx
  have move : t.move = doglegPath (some newton) a t.progress.fx d t.delta := by
    rw [State.move, models.jac, models.scaling, doglegStep, found]
  refine ⟨newton, solves, ?_⟩
  rw [move]
  exact doglegPath_some a t.progress.fx d positive newton

omit affine in
theorem State.Models.newton_of_large (models : t.Models a b d) (regular : Regular a)
    (positive : 0 < t.delta) {bound : ℝ}
    (bounded : ∀ v, weightedDot d v v ≤ bound * (a.mulVec v).dot (a.mulVec v))
    (large : bound * t.squaredResidual ≤ t.delta * t.delta) : t.move.kind = .newton := by
  obtain ⟨newton, solves, ⟨_, kind, _⟩ | ⟨long, _, _⟩⟩ := models.path regular positive
  · exact kind
  · have square : (-t.progress.fx).dot (-t.progress.fx) = t.squaredResidual := by
      simp only [State.squaredResidual, dot_eq, neg_get, neg_mul_neg]
    have short := bounded newton
    rw [solves, square] at short
    exact absurd ((weightedNorm_le_iff positive.le).mpr (short.trans large)) long.not_ge

theorem foreseen (regular : Regular a) (weights : ∀ j, 0 < d.get j) (models : t.Models a b d)
    (positive : 0 < t.delta) (nonzero : t.progress.fx ≠ 0) {ledger after : Ledger ℝ n}
    (ran : (step o t).run (Ledger.answer s) ledger = (.ok next, after)) : Foreseen s t next := by
  have yields := models.model_yields affine
  have promised : predicted t.progress.jac t.progress.fx t.move.p <
      t.progress.fx.dot t.progress.fx := by
    rw [State.move, models.jac, models.scaling]
    exact regular.predicted_lt weights positive nonzero
  have perfect : t.ratio t.model = 1 := by
    rw [State.ratio, reductionRatio]
    exact (if_pos (sub_pos.mpr promised)).trans (div_self (sub_pos.mpr promised).ne')
  have takes : t.Takes s := by
    refine ⟨t.model, yields, ?_⟩
    rw [perfect]
    norm_num [acceptRatio]
  obtain ⟨trial, yields', delta, _, taken | ⟨kept, _⟩⟩ := step_cases ran
  · obtain rfl := yields'.unique yields
    obtain ⟨newton, solves, path⟩ := models.path regular positive
    refine ⟨⟨_, yields, perfect⟩, takes, fun short => ?_, fun full => ?_⟩
    · obtain ⟨_, kind, _⟩ | ⟨_, _, boundary⟩ := path
      · exact absurd kind short
      · rw [delta, State.nextRadius, perfect, models.scaling, boundary, updateRadius, larger_eq]
        norm_num
        linarith
    · obtain ⟨_, _, step⟩ | ⟨_, kind, _⟩ := path
      · rw [taken.fx, State.model, models.jac, step, solves]
        refine ext_get fun i => ?_
        rw [add_get, neg_get, zero_get, add_neg_cancel]
      · exact absurd full kind
  · exact absurd takes (kept.not_takes yields')

end Affine

section Run

variable {length : Nat} {states : Nat → State ℝ n} {ledgers : Nat → Ledger ℝ n}

theorem fx_ne_zero (passes : Passes s o .trustRegion x length states ledgers)
    (tight : 0 < o.ftol) {k : Nat} (within : k ≤ length)
    (undecided : (states k).progress.tests.any = false) : (states k).progress.fx ≠ 0 := by
  intro zero
  have byResidual := passes.byResidual k within
  change (states k).progress.tests.byResidual =
    Convergence.residualTest (states k).progress.fx o.ftol at byResidual
  rw [zero, Convergence.residualTest_zero tight] at byResidual
  rw [Convergence.any, byResidual, Bool.or_true] at undecided
  cases undecided

theorem iteration_foreseen (affine : s.Affine a b) (regular : Regular a)
    (admitted : o.invalid? = none) (tight : 0 < o.ftol)
    (passes : Passes s o .trustRegion x length states ledgers) {k : Nat} (less : k < length)
    (undecided : (states k).progress.tests.any = false) :
    Foreseen s (states k) (states (k + 1)) :=
  foreseen affine regular (startScaling_pos o.autoscale a)
    (models affine regular passes k less.le) (delta_pos admitted passes k less.le)
    (fx_ne_zero passes tight less.le undecided) (passes.step k less)

theorem delta_doubles (iterations : ∀ k < length, Foreseen s (states k) (states (k + 1)))
    (short : ∀ k < length, (states k).move.kind ≠ .newton) :
    ∀ k ≤ length, (states k).delta = 2 ^ k * (states 0).delta := by
  intro k
  induction k with
  | zero =>
    intro _
    rw [pow_zero, one_mul]
  | succ k ih =>
    intro less
    rw [(iterations k less).doubles (short k less), ih (Nat.le_of_lt less), pow_succ]
    ring

theorem squaredResidual_le (admitted : o.invalid? = none)
    (passes : Passes s o .trustRegion x length states ledgers) :
    ∀ k ≤ length, (states k).squaredResidual ≤ (states 0).squaredResidual := by
  intro k
  induction k with
  | zero => exact fun _ => le_refl _
  | succ k ih =>
    intro less
    have iteration := iteration_descends admitted passes (Nat.lt_of_succ_le less)
    refine le_trans ?_ (ih (Nat.le_of_lt less))
    split at iteration
    · exact iteration.1.le
    · rw [State.squaredResidual, State.squaredResidual, iteration]

theorem stops_by (affine : s.Affine a b) (regular : Regular a) (admitted : o.invalid? = none)
    (tight : 0 < o.ftol) {bound : ℝ} (nonneg : 0 ≤ bound)
    (bounded : ∀ v, weightedDot (startScaling o.autoscale a) v v ≤
      bound * (a.mulVec v).dot (a.mulVec v)) {count : Nat}
    (passes : Passes s o .trustRegion x (count + 1) states ledgers)
    (large : bound * (states 0).squaredResidual ≤
      2 ^ count * (states 0).delta * (2 ^ count * (states 0).delta)) :
    ∃ k ≤ count + 1, (states k).progress.tests.any := by
  by_contra never
  have undecided (k : Nat) (le : k ≤ count + 1) : (states k).progress.tests.any = false :=
    Bool.eq_false_iff.mpr fun holds => never ⟨k, le, holds⟩
  have iterations (k : Nat) (less : k < count + 1) : Foreseen s (states k) (states (k + 1)) :=
    iteration_foreseen affine regular admitted tight passes less (undecided k less.le)
  -- A full step would have ended the solve.
  have short (k : Nat) (less : k < count + 1) : (states k).move.kind ≠ .newton := fun full =>
    fx_ne_zero passes tight less (undecided (k + 1) less) ((iterations k less).solves full)
  have delta := delta_doubles iterations short count (Nat.le_succ count)
  refine short count (Nat.lt_succ_self count) ?_
  refine (models affine regular passes count (Nat.le_succ count)).newton_of_large regular
    (delta_pos admitted passes count (Nat.le_succ count)) bounded ?_
  rw [delta]
  refine le_trans (mul_le_mul_of_nonneg_left ?_ nonneg) large
  exact squaredResidual_le admitted passes count (Nat.le_succ count)

theorem ends_converged (never : o.xtol = 0)
    (passes : Passes s o .trustRegion x length states ledgers) {k : Nat} (within : k ≤ length)
    (holds : (states k).progress.tests.any) (enough : length ≤ o.iterations.below) :
    ∃ r, (solveFrom s o .trustRegion x).result = .ok r ∧ r.fConverged ∧
      ∃ last states' ledgers', Passes s o .trustRegion x last states' ledgers' ∧
        (∀ j < last, (State.progress (states' j)).tests.any = false) ∧
        r.iterations = last ∧ r.zero = (State.progress (states' last)).x.toList := by
  obtain ⟨r, returned⟩ := solveFrom_returns passes within (.inl holds)
  obtain ⟨last, states', ledgers', passes', going, bound, reason, known⟩ :=
    solveFrom_passes returned
  have early : last ≤ k := by
    by_contra later
    have same := passes.unique passes' within (not_le.mp later).le
    have undecided := going k (not_le.mp later)
    rw [← same] at undecided
    change (states k).progress.tests.any = false at undecided
    rw [holds] at undecided
    cases undecided
  have decided : (Method.trustRegion.progress (states' last)).tests.any := by
    rcases reason with holds' | full
    · exact holds'
    · obtain rfl : last = k := by omega
      rw [← passes.unique passes' within (Nat.le_refl last)]
      exact holds
  rw [Convergence.any, passes'.byStep_never never (Nat.le_refl last), Bool.false_or] at decided
  refine ⟨r, returned, ?_, last, states', ledgers', passes', going, ?_, ?_⟩
  · rw [known]
    exact decided
  · rw [known]
    exact congrArg Nat.cast (passes'.iteration last (Nat.le_refl last))
  · rw [known]
    rfl

theorem exists_count (regular : Regular a) (b x : Vec ℝ n) {factor : ℝ} (grows : 0 < factor)
    (autoscale : Bool) : ∃ count : Nat, ∀ (s : SquareSystem ℝ) (o : Options ℝ), s.Affine a b →
      o.invalid? = none → o.factor = factor → o.autoscale = autoscale → 0 < o.ftol →
      ∀ states ledgers, Passes s o .trustRegion x (count + 1) states ledgers →
        ∃ k ≤ count + 1, (State.progress (states k)).tests.any := by
  obtain ⟨bound, nonneg, bounded⟩ := regular.weightedDot_le (startScaling autoscale a)
  let delta := startRadius factor (startScaling autoscale a) x
  have positive : 0 < delta * delta :=
    mul_pos (startRadius_pos grows _ x) (startRadius_pos grows _ x)
  let residual := a.mulVec x - b
  obtain ⟨count, above⟩ := pow_unbounded_of_one_lt (bound * residual.dot residual / (delta * delta))
    (y := (4 : ℝ)) (by norm_num)
  refine ⟨count, fun s o affine admitted known scales tight states ledgers passes => ?_⟩
  subst scales known
  obtain ⟨yields, place, _, _, scaling, radius⟩ := start_cases passes.start
  have replied := (SquareSystem.yields_iff.mp yields).symm.trans (affine.both x)
  obtain ⟨fx, jac⟩ := Prod.mk.inj (Except.ok.inj replied)
  have start : (State.delta (states 0)) = delta := by rw [radius, scaling, jac]
  refine stops_by affine regular admitted tight nonneg bounded passes ?_
  have quadruple : 2 ^ count * delta * (2 ^ count * delta) = 4 ^ count * (delta * delta) := by
    have four : (4 : ℝ) ^ count = 2 ^ count * 2 ^ count := by
      rw [← mul_pow]
      norm_num
    rw [four]
    ring
  rw [start, quadruple, State.squaredResidual, fx]
  exact ((div_lt_iff₀ positive).mp above).le

theorem exists_common_count (regular : Regular a) (b x : Vec ℝ n) {factor : ℝ}
    (grows : 0 < factor) : ∃ count : Nat, ∀ (s : SquareSystem ℝ) (o : Options ℝ), s.Affine a b →
      o.invalid? = none → o.factor = factor → 0 < o.ftol →
      ∀ states ledgers, Passes s o .trustRegion x count states ledgers →
        ∃ k ≤ count, (State.progress (states k)).tests.any := by
  obtain ⟨scaled, scaledStops⟩ := exists_count regular b x grows true
  obtain ⟨plain, plainStops⟩ := exists_count regular b x grows false
  refine ⟨max scaled plain + 1, fun s o affine admitted known tight states ledgers passes => ?_⟩
  cases scales : o.autoscale with
  | true =>
    have le : scaled + 1 ≤ max scaled plain + 1 := by omega
    obtain ⟨k, before, holds⟩ :=
      scaledStops s o affine admitted known scales tight states ledgers (passes.take le)
    exact ⟨k, before.trans le, holds⟩
  | false =>
    have le : plain + 1 ≤ max scaled plain + 1 := by omega
    obtain ⟨k, before, holds⟩ :=
      plainStops s o affine admitted known scales tight states ledgers (passes.take le)
    exact ⟨k, before.trans le, holds⟩

theorem solved_or_short (affine : s.Affine a b) (regular : Regular a)
    (admitted : o.invalid? = none) (tight : 0 < o.ftol)
    (passes : Passes s o .trustRegion x length states ledgers)
    (undecided : ∀ k < length, (states k).progress.tests.any = false) :
    a.mulVec (states length).progress.x = b ∨ ∀ k < length, (states k).move.kind ≠ .newton := by
  by_cases short : ∀ k < length, (states k).move.kind ≠ .newton
  · exact .inr short
  · left
    push Not at short
    obtain ⟨k, less, full⟩ := short
    have solved := (iteration_foreseen affine regular admitted tight passes less
      (undecided k less)).solves full
    obtain rfl : k + 1 = length := by
      by_contra other
      have later : k + 1 < length := by omega
      exact fx_ne_zero passes tight later.le (undecided (k + 1) later) solved
    have equation := (models affine regular passes (k + 1) (Nat.le_refl _)).fx
    rw [solved] at equation
    refine ext_get fun i => ?_
    have entry := congrArg (·.get i) equation
    simp only [zero_get, sub_get] at entry
    linarith

end Run

/-- A regular system of linear equations, however it is presented: each iteration is as the linear
model foresees it, and after so many of them the solve has ended below the tolerance, in the
solution unless it got there before any full step. -/
theorem linear_equations_solved (entries : 0 < n) (regular : Regular a) (b x : Vec ℝ n)
    {factor : ℝ} (grows : 0 < factor) :
    ∃ count : Nat, ∀ (c : Callables ℝ n) (w : Presentation), (∀ y, c.map y = a.mulVec y - b) →
      (∀ y, c.derivative y = a) → ∃ s, w.system c = .ok s ∧
        ∀ o : Options ℝ, o.invalid? = none → o.factor = factor → o.xtol = 0 → 0 < o.ftol →
          (∀ length states ledgers, Passes s o .trustRegion x length states ledgers →
            (∀ k < length, (State.progress (states k)).tests.any = false) →
              ∀ k < length, Foreseen s (states k) (states (k + 1))) ∧
          (count ≤ o.iterations.below →
            ∃ r, (solveFrom s o .trustRegion x).result = .ok r ∧ r.fConverged ∧
              ∃ length states ledgers, Passes s o .trustRegion x length states ledgers ∧
                (∀ k < length, (State.progress (states k)).tests.any = false) ∧
                r.iterations = length ∧ r.zero = (State.progress (states length)).x.toList ∧
                (a.mulVec (State.progress (states length)).x = b ∨
                  ∀ k < length, (State.move (states k)).kind ≠ .newton)) := by
  obtain ⟨count, stops⟩ := exists_common_count regular b x grows
  refine ⟨count, fun c w map derivative => ?_⟩
  obtain ⟨s, system, presents, _⟩ := w.system_ok entries c
  have affine := presents.affine map derivative
  refine ⟨s, system, fun o admitted known never tight => ⟨?_, fun enough => ?_⟩⟩
  · intro length states ledgers passes undecided k less
    exact iteration_foreseen affine regular admitted tight passes less (undecided k less)
  · have replies (q : Request ℝ n) := presents.replies_isOk q
    obtain ⟨states, ledgers, passes, _⟩ :=
      passes_of_reached (reached_isOk (o := o) (x := x) replies count)
    obtain ⟨k, within, holds⟩ := stops s o affine admitted known tight states ledgers passes
    obtain ⟨r, returned, converged, last, states', ledgers', passes', going, iterations, zero⟩ :=
      ends_converged never passes within holds enough
    exact ⟨r, returned, converged, last, states', ledgers', passes', going, iterations, zero,
      solved_or_short affine regular admitted tight passes' going⟩

theorem linear_equations_solved_twice :
    ∃ s o r, Presentation.system (.plain false) twice = .ok s ∧
      (solveFrom s o .trustRegion #v[3]).result = .ok r ∧ r.fConverged := by
  obtain ⟨count, solved⟩ :=
    linear_equations_solved Nat.one_pos (regular_single two_ne_zero) #v[1] #v[3]
      (one_pos : (0 : ℝ) < 1)
  obtain ⟨s, system, ends⟩ := solved twice (.plain false) (fun _ => rfl) fun _ => rfl
  have admitted :
      ({ Options.standard with iterations := .whole count } : Options ℝ).invalid? = none := by
    obtain ⟨xtol, ftol, _, factor⟩ := Options.invalid?_eq_none.mp standard_admitted
    refine Options.invalid?_eq_none.mpr ⟨xtol, ftol, ?_, factor⟩
    exact decide_eq_false (Int.not_lt.mpr (Int.natCast_nonneg count))
  have tight : (0 : ℝ) < (Options.standard : Options ℝ).ftol := by
    norm_num [Options.standard]
  obtain ⟨_, returns⟩ := ends { Options.standard with iterations := .whole count } admitted rfl rfl
    tight
  obtain ⟨r, returned, converged, _⟩ := returns (le_refl _)
  exact ⟨s, _, r, system, returned, converged⟩

end TrustRegion

end RootFinding
