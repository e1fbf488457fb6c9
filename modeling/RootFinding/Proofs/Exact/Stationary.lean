import RootFinding.Proofs.Exact.Step
import RootFinding.Proofs.Exact.Equations
import RootFinding.Proofs.Exact.Replies
import RootFinding.Proofs.Solver.Counters

namespace RootFinding.TrustRegion

open Exact

variable {n : Nat} {s : SquareSystem ℝ} {o : Options ℝ} {x : Vec ℝ n}

/-- No test holds and there is no gradient, but a residual. The scaling may be any. -/
structure State.Stationary (s : SquareSystem ℝ) (t : State ℝ n) : Prop where
  level : t.progress.jac.tmulVec t.progress.fx = 0
  undecided : t.progress.tests.any = false
  answers : (s.reply (.residual t.progress.x)).isOk
  positive : 0 < t.delta

/-- An iteration that tries the zero step and stays where it is: it has the residual evaluated there
once more, halves the radius and does nothing else. -/
structure Idles (s : SquareSystem ℝ) (t next : State ℝ n) (ledger after : Ledger ℝ n) : Prop where
  still : t.move.p = 0
  ratio : ∃ trial, s.Yields (.residual t.trialPoint) trial ∧ t.ratio trial = 0
  rejects : ¬ t.Takes s
  x : next.progress.x = t.progress.x
  fx : next.progress.fx = t.progress.fx
  jac : next.progress.jac = t.progress.jac
  scaling : next.scaling = t.scaling
  delta : next.delta = t.delta / 2
  fCalls : after.session.fCalls = ledger.session.fCalls + 1
  jCalls : after.session.jCalls = ledger.session.jCalls
  calls : after.session.desk.calls =
    s.residualCalls t.progress.x.toArray ++ ledger.session.desk.calls

namespace State.Stationary

variable {t next : State ℝ n} {ledger after : Ledger ℝ n}

theorem move_eq (stationary : t.Stationary s) : t.move.p = 0 :=
  doglegStep_of_level stationary.positive stationary.level

theorem trialPoint_eq (stationary : t.Stationary s) : t.trialPoint = t.progress.x := by
  rw [trialPoint, stationary.move_eq]
  refine ext_get fun i => ?_
  rw [add_get, zero_get, add_zero]

theorem ratio_eq (stationary : t.Stationary s) (trial : Vec ℝ n) : t.ratio trial = 0 := by
  have model : t.model = t.progress.fx := by
    rw [State.model, stationary.move_eq, model_zero]
  rw [ratio, model, reductionRatio, sub_self]
  exact if_neg (lt_irrefl 0)

theorem nextRadius_eq (stationary : t.Stationary s) (trial : Vec ℝ n) :
    t.nextRadius trial = t.delta / 2 := by
  refine nextRadius_of_poor ?_
  rw [stationary.ratio_eq]
  norm_num

theorem not_takes (stationary : t.Stationary s) : ¬ t.Takes s := by
  rintro ⟨trial, _, good⟩
  rw [stationary.ratio_eq] at good
  exact acceptRatio_pos.not_gt good

theorem step_idles (stationary : t.Stationary s)
    (ran : (step o t).run (Ledger.answer s) ledger = (.ok next, after)) :
    Idles s t next ledger after ∧ next.Stationary s := by
  have rejects := stationary.not_takes
  have calls := step_calls ran rejects
  rw [stationary.trialPoint_eq] at calls
  obtain ⟨trial, yields, delta, _, taken | ⟨kept, fCalls, jCalls⟩⟩ := step_cases ran
  · exact absurd ⟨trial, yields, taken.ratio⟩ rejects
  · rw [stationary.nextRadius_eq] at delta
    refine ⟨⟨stationary.move_eq, ⟨trial, yields, stationary.ratio_eq trial⟩, rejects, kept.x,
      kept.fx, kept.jac, kept.scaling, delta, fCalls, jCalls, calls⟩, ?_, ?_, ?_, ?_⟩
    · rw [kept.jac, kept.fx]
      exact stationary.level
    · have undecided := stationary.undecided
      rw [Convergence.any, Bool.or_eq_false_iff] at undecided
      rw [kept.tests, Convergence.any, undecided.2]
      rfl
    · rw [kept.x]
      exact stationary.answers
    · rw [delta]
      exact half_pos stationary.positive

theorem step_isOk (stationary : t.Stationary s) (o : Options ℝ) (ledger : Ledger ℝ n) :
    ∃ next after, (step o t).run (Ledger.answer s) ledger = (.ok next, after) := by
  have answers := stationary.answers
  rw [← stationary.trialPoint_eq] at answers
  obtain ⟨trial, replied⟩ := Except.isOk_iff.mp answers
  have poor : ¬ acceptRatio < t.ratio trial := by
    rw [stationary.ratio_eq]
    exact acceptRatio_pos.not_gt
  have value : ((step o t).run (Ledger.answer s) ledger).1 = .ok (t.kept trial) := by
    rw [Ledger.run_fst, step_value, replied]
    exact if_neg poor
  exact ⟨_, _, Prod.ext value rfl⟩

end State.Stationary

/-- What stays the same in `m` idle iterations, and what does not. -/
structure State.Idled (t next : State ℝ n) (ledger after : Ledger ℝ n) (m : Nat) : Prop where
  x : next.progress.x = t.progress.x
  fx : next.progress.fx = t.progress.fx
  jac : next.progress.jac = t.progress.jac
  scaling : next.scaling = t.scaling
  delta : next.delta = t.delta / 2 ^ m
  undecided : next.progress.tests.any = false
  fCalls : after.session.fCalls = ledger.session.fCalls + m
  jCalls : after.session.jCalls = ledger.session.jCalls

structure Stalls (s : SquareSystem ℝ) (o : Options ℝ) (count : Nat) (states : Nat → State ℝ n)
    (ledgers : Nat → Ledger ℝ n) : Prop where
  step : ∀ m < count, (step o (states m)).run (Ledger.answer s) (ledgers m) =
    (.ok (states (m + 1)), ledgers (m + 1))
  idles : ∀ m < count, Idles s (states m) (states (m + 1)) (ledgers m) (ledgers (m + 1))
  idled : ∀ m ≤ count, (states 0).Idled (states m) (ledgers 0) (ledgers m) m

theorem stalls_of_steps {count : Nat} {states : Nat → State ℝ n} {ledgers : Nat → Ledger ℝ n}
    (stationary : (states 0).Stationary s)
    (steps : ∀ m < count, (step o (states m)).run (Ledger.answer s) (ledgers m) =
      (.ok (states (m + 1)), ledgers (m + 1))) : Stalls s o count states ledgers := by
  have stays : ∀ m ≤ count, (states m).Stationary s ∧
      (states 0).Idled (states m) (ledgers 0) (ledgers m) m := by
    intro m
    induction m with
    | zero =>
      refine fun _ => ⟨stationary, rfl, rfl, rfl, rfl, ?_, stationary.undecided, rfl, rfl⟩
      rw [pow_zero, div_one]
    | succ m ih =>
      intro within
      obtain ⟨here, idled⟩ := ih (Nat.le_of_lt within)
      obtain ⟨idles, next⟩ := here.step_idles (steps m within)
      refine ⟨next, idles.x.trans idled.x, idles.fx.trans idled.fx, idles.jac.trans idled.jac,
        idles.scaling.trans idled.scaling, ?_, next.undecided, ?_, idles.jCalls.trans idled.jCalls⟩
      · rw [idles.delta, idled.delta, div_div, pow_succ]
      · rw [idles.fCalls, idled.fCalls, add_assoc]
  exact ⟨steps, fun m less => ((stays m less.le).1.step_idles (steps m less)).1,
    fun m within => (stays m within).2⟩

theorem State.Stationary.stalls {t : State ℝ n} (stationary : t.Stationary s) (o : Options ℝ)
    (count : Nat) (ledger : Ledger ℝ n) :
    ∃ (states : Nat → State ℝ n) (ledgers : Nat → Ledger ℝ n), states 0 = t ∧
      ledgers 0 = ledger ∧ Stalls s o count states ledgers := by
  suffices runs : ∃ (states : Nat → State ℝ n) (ledgers : Nat → Ledger ℝ n), states 0 = t ∧
      ledgers 0 = ledger ∧ ∀ m < count, (step o (states m)).run (Ledger.answer s) (ledgers m) =
        (.ok (states (m + 1)), ledgers (m + 1)) by
    obtain ⟨states, ledgers, rfl, rfl, steps⟩ := runs
    exact ⟨states, ledgers, rfl, rfl, stalls_of_steps stationary steps⟩
  induction count generalizing t ledger with
  | zero => exact ⟨fun _ => t, fun _ => ledger, rfl, rfl, fun m less => absurd less m.not_lt_zero⟩
  | succ count ih =>
    obtain ⟨next, after, ran⟩ := stationary.step_isOk o ledger
    obtain ⟨states, ledgers, rfl, rfl, steps⟩ := ih (stationary.step_idles ran).2 after
    -- This state, and after it those of the rest.
    refine ⟨fun m => m.casesOn t states, fun m => m.casesOn ledger ledgers, rfl, rfl,
      fun m less => ?_⟩
    cases m with
    | zero => exact ran
    | succ m => exact steps m (by omega)

variable {k length : Nat} {states : Nat → State ℝ n} {ledgers : Nat → Ledger ℝ n}

theorem State.Stationary.extend (here : (states k).Stationary s)
    (passes : Passes s o .trustRegion x k states ledgers) (count : Nat) :
    ∃ (all : Nat → State ℝ n) (allLedgers : Nat → Ledger ℝ n),
      Passes s o .trustRegion x (k + count) all allLedgers ∧
      (∀ j ≤ k, all j = states j ∧ allLedgers j = ledgers j) ∧
      Stalls s o count (fun m => all (k + m)) fun m => allLedgers (k + m) := by
  obtain ⟨later, laterLedgers, first, firstLedger, stalls⟩ := here.stalls o count (ledgers k)
  obtain ⟨all, allLedgers, long, early, _⟩ := passes.extend first firstLedger stalls.step
  refine ⟨all, allLedgers, long, early, stalls_of_steps ?_ fun m less => long.step (k + m) ?_⟩
  · rw [Nat.add_zero, (early k (Nat.le_refl k)).1]
    exact here
  · omega

theorem residual_isOk (passes : Passes s o .trustRegion x length states ledgers) :
    ∀ k ≤ length, (states k).progress.x = x ∨
      (s.reply (.residual (states k).progress.x)).isOk := by
  refine passes.induct (motive := fun _ t => (State.progress t).x = x ∨
    (s.reply (.residual (State.progress t).x)).isOk) (fun ran => ?_) fun k _ ran before => ?_
  · exact .inl (start_cases ran).2.1
  · obtain ⟨trial, yields, _, _, taken | ⟨kept, _⟩⟩ := step_cases ran
    · right
      rw [taken.x, SquareSystem.yields_iff.mp yields]
      rfl
    · rw [kept.x]
      exact before

/-- From a state without a gradient in which no test holds, whatever its scaling and radius, nothing
but the radius changes any more, and the solve returns the same point once its iterations are used
up. The start may have had its residual from a combined callable, so there the residual callable has
to know it as well. -/
theorem stationary_stalls (admitted : o.invalid? = none) {cap : Nat}
    (limit : o.iterations = .whole cap) (passes : Passes s o .trustRegion x k states ledgers)
    (within : k ≤ cap) (going : ∀ j ≤ k, (states j).progress.tests.any = false)
    (level : (states k).progress.jac.tmulVec (states k).progress.fx = 0)
    (answers : (states k).progress.x = x → (s.reply (.residual x)).isOk) :
    (∀ (d : Vec ℝ n) (delta : ℝ), 0 < delta → ∀ count ledger,
      ∃ (states' : Nat → State ℝ n) (ledgers' : Nat → Ledger ℝ n),
        states' 0 = { states k with scaling := d, delta := delta } ∧ ledgers' 0 = ledger ∧
          Stalls s o count states' ledgers') ∧
    ∃ (states' : Nat → State ℝ n) (ledgers' : Nat → Ledger ℝ n),
      Passes s o .trustRegion x cap states' ledgers' ∧
      (∀ j ≤ k, states' j = states j ∧ ledgers' j = ledgers j) ∧
      Stalls s o (cap - k) (fun m => states' (k + m)) (fun m => ledgers' (k + m)) ∧
      ∃ r, (solveFrom s o .trustRegion x).result = .ok r ∧ r.iterations = cap ∧
        r.zero = (states k).progress.x.toList ∧ r.converged = false ∧
        r.jCalls = (ledgers k).session.jCalls := by
  have undecided := going k (Nat.le_refl k)
  have known : (s.reply (.residual (states k).progress.x)).isOk := by
    rcases residual_isOk passes k (Nat.le_refl k) with first | asked
    · rw [first]
      exact answers first
    · exact asked
  have stationary (d : Vec ℝ n) (delta : ℝ) (positive : 0 < delta) :
      State.Stationary s { states k with scaling := d, delta := delta } :=
    ⟨level, undecided, known, positive⟩
  refine ⟨fun d delta positive count ledger => (stationary d delta positive).stalls o count ledger,
    ?_⟩
  obtain ⟨count, rfl⟩ := Nat.exists_eq_add_of_le within
  have here : (states k).Stationary s :=
    stationary _ _ (delta_pos admitted passes k (Nat.le_refl k))
  obtain ⟨all, allLedgers, long, early, idle⟩ := here.extend passes count
  have last := idle.idled count (Nat.le_refl count)
  rw [Nat.add_zero, (early k (Nat.le_refl k)).1, (early k (Nat.le_refl k)).2] at last
  have full : k + count = o.iterations.below := by
    rw [limit, Count.below, Int.toNat_natCast]
  have open' (j : Nat) (less : j < k + count) : (all j).progress.tests.any = false := by
    by_cases before : j ≤ k
    · rw [(early j before).1]
      exact going j before
    · obtain ⟨m, rfl⟩ := Nat.exists_eq_add_of_le (not_le.mp before).le
      exact (idle.idled m (by omega)).undecided
  have returned := solveFrom_of_passes long open' full.le (.inr full)
  refine ⟨all, allLedgers, long, early, ?_, _, returned, ?_, ?_, last.undecided,
    congrArg Nat.cast last.jCalls⟩
  · rw [Nat.add_sub_cancel_left]
    exact idle
  · exact congrArg Nat.cast (long.iteration (k + count) (Nat.le_refl _))
  · exact congrArg Vector.toList last.x

/-- A residual that is the same everywhere. -/
theorem stationary_stalls_constant :
    let s := Newton.equation (fun _ => 1) fun _ => 0
    let o : Options ℝ := { Options.standard with ftol := 0, iterations := .whole 3 }
    ∃ r, (solveFrom s o .trustRegion #v[1]).result = .ok r ∧ r.iterations = 3 ∧ r.zero = [1] ∧
      r.converged = false ∧ r.jCalls = 1 := by
  intro s o
  obtain ⟨residual, both⟩ := @Newton.equation_replies (fun _ => 1) (fun _ => 0) 1
  have admitted : o.invalid? = none :=
    Options.invalid?_eq_none.mpr ⟨le_refl 0, le_refl 0, rfl, one_pos, rfl⟩
  obtain ⟨ledgers, passes⟩ : ∃ ledgers, Passes s o .trustRegion #v[1] 0
      (fun _ => State.first o #v[1] #v[1] #v[#v[0]]) ledgers := by
    refine passes_of_values ?_ fun k less => absurd less k.not_lt_zero
    change (start o #v[1]).value s.reply = _
    rw [start_value, both]
    rfl
  have limit : o.iterations = .whole (3 : Nat) := rfl
  have level : Mat.tmulVec (#v[#v[0]] : Mat ℝ 1 1) #v[1] = 0 := by
    refine ext_single ?_
    rw [tmulVec_get, dot_eq, Fin.sum_univ_one, column_get, zero_get]
    exact zero_mul 1
  have answers : (s.reply (.residual #v[1])).isOk := by
    rw [residual]
    rfl
  obtain ⟨_, _, _, _, _, _, r, returned, iterations, zero, converged, jCalls⟩ :=
    stationary_stalls admitted limit passes (Nat.zero_le 3)
      (fun j within => passes.undecided rfl rfl within) level fun _ => answers
  have once : (ledgers 0).session.jCalls = 1 := (start_gains passes.start).2
  exact ⟨r, returned, iterations, zero, converged, jCalls.trans (congrArg Nat.cast once)⟩

end RootFinding.TrustRegion
