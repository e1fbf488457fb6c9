import RootFinding.Proofs.Solver.Failures
import RootFinding.Proofs.Solver.Resumption

namespace RootFinding

variable {α : Type} [Scalar α] {n : Nat} {s : SquareSystem α} {o : Options α}

namespace SquareSystem

theorem Explains.iteration? {calls : List (Call α)} {failure : Failure α}
    (explains : s.Explains n calls failure) : failure.iteration? = none := by
  cases explains with
  | last blames _ => cases blames <;> rfl
  | missing | residual | jacobian => rfl

theorem reply_error_iteration? (suits : ∀ d ∈ s.dimension, n = d) {q : Request α n}
    {failure : Failure α} (failed : s.reply q = .error failure) : failure.iteration? = none := by
  let fresh : Ledger α n := ⟨Session.fresh, []⟩
  have explained := Ledger.answer_explained suits q fresh fun c none => by cases none
  have replied := (Ledger.answers s q fresh).1
  generalize Ledger.answer s q fresh = answered at explained replied
  obtain ⟨result, after⟩ := answered
  change result = _ at replied
  subst replied
  rw [failed] at explained
  exact explained.iteration?

end SquareSystem

section Searches

def Arithmetical (failure : Failure α) : Prop := ∃ f, failure = .fault f

theorem Backtracking.reduce_ensures (b : Backtracking α) (phi0 slope : α) (left : Nat)
    (first : Bool) (older newer : Trial α) :
    (b.reduce phi0 slope left first older newer).Ensures (fun _ => True) Arithmetical := by
  induction left generalizing first older newer with
  | zero =>
    rw [reduce]
    split
    · exact Plan.Ensures.bind (Plan.ensures_request fun _ => trivial) fun _ _ =>
        Plan.ensures_pure trivial
    · exact Plan.ensures_pure trivial
  | succ left ih =>
    rw [reduce]
    split
    · have proposed : (Search.ofExcept (b.proposal phi0 slope first older newer) :
          Search α (Option α)).Ensures (fun _ => True) Arithmetical := by
        cases b.proposal phi0 slope first older newer with
        | ok proposal => trivial
        | error f => exact ⟨f, rfl⟩
      exact proposed.bind fun _ _ =>
        Plan.Ensures.bind (Plan.ensures_request fun _ => trivial) fun phi _ => ih _ _ _
    · exact Plan.ensures_pure trivial

theorem LineSearch.search_arithmetical (strategy : LineSearch α) (phi0 slope length : α) :
    (strategy.search phi0 slope length).Ensures (fun _ => True) Arithmetical := by
  induction strategy with
  | fixed alpha => exact Plan.ensures_pure trivial
  | backtracking b =>
    have searched : (b.search phi0 slope length).Ensures (fun _ => True) Arithmetical :=
      Plan.Ensures.bind (Plan.ensures_request fun _ => trivial) fun phi _ =>
        b.reduce_ensures _ _ _ _ _ _
    exact searched.bind fun alpha _ => Plan.ensures_pure trivial
  | strongWolfe c1 c2 maxiter fallback ih =>
    have searched := (StrongWolfe.search_ensures ⟨c1, c2, phi0, slope⟩ maxiter).weaken
      fun e failed => (⟨_, failed.2⟩ : Arithmetical e)
    refine searched.bind fun found _ => ?_
    cases found with
    | some alpha => exact Plan.ensures_pure trivial
    | none =>
      exact Plan.Ensures.bind (Plan.ensures_request fun _ => trivial) fun _ _ =>
        ih.bind fun found _ => Plan.ensures_pure trivial
  | sequence upcoming => cases upcoming <;> exact Plan.ensures_pure trivial

end Searches

/-- The equations for the direction have no solution, or one that is not finite. -/
def Undirected (jac : Mat α n n) (fx : Vec α n) : Prop :=
  Elimination.solve jac (-fx) = none ∨
    ∃ p, Elimination.solve jac (-fx) = some p ∧ p.allFinite = false

theorem newtonDirection_iteration? {jac : Mat α n n} {fx : Vec α n} {i : Int}
    {failure : Failure α} (failed : newtonDirection jac fx i = .error failure) :
    failure.iteration? = some i := by
  unfold newtonDirection at failed
  split at failed
  · cases failed
    rfl
  split at failed
  · cases failed
  · cases failed
    rfl

theorem undirected_iff {jac : Mat α n n} {fx : Vec α n} (i : Int) :
    Undirected jac fx ↔ ∃ failure, newtonDirection jac fx i = .error failure := by
  unfold Undirected newtonDirection
  cases Elimination.solve jac (-fx) with
  | none => simp
  | some p => cases finite : p.allFinite <;> simp [finite]

namespace Newton

theorem checkStep_iteration? {alpha : α} {failure : Failure α}
    (failed : checkStep alpha = .error failure) : failure.iteration? = none := by
  unfold checkStep at failed
  split at failed
  · cases failed
    rfl
  · cases failed

theorem search_iteration? (suits : ∀ d ∈ s.dimension, n = d) {strategy : LineSearch α}
    {merit : Merit α n} {slope : α} {failure : Failure α}
    (failed : (merit.search strategy slope).value s.reply = .error failure) :
    failure.iteration? = none := by
  have ensures := (strategy.search_arithmetical merit.phi0 slope merit.direction.norm).serve
    merit.serve_unfailing
  obtain ⟨f, rfl⟩ | ⟨q, replied⟩ := ensures.error_of_value failed
  · rfl
  · exact SquareSystem.reply_error_iteration? suits replied

theorem step_error (suits : ∀ d ∈ s.dimension, n = d) {t : State α n} {i : Int} :
    (∃ failure, (step o t).value s.reply = .error failure ∧ failure.iteration? = some i) ↔
      Undirected t.progress.jac t.progress.fx ∧ i = t.progress.iteration + 1 := by
  simp only [step_value, undirected_iff (t.progress.iteration + 1 : Nat)]
  constructor
  · rintro ⟨failure, failed, numbered⟩
    obtain undirected | ⟨direction, _, failed⟩ := Except.bind_error.mp failed
    · refine ⟨⟨failure, undirected⟩, ?_⟩
      rw [newtonDirection_iteration? undirected] at numbered
      cases numbered
      rfl
    -- What follows the direction fails without a number.
    exfalso
    have unnumbered : failure.iteration? = none := by
      obtain failed | ⟨found, _, failed⟩ := Except.bind_error.mp failed
      · exact search_iteration? suits failed
      obtain failed | ⟨alpha, _, failed⟩ := Except.bind_error.mp failed
      · exact checkStep_iteration? failed
      obtain failed | ⟨pair, _, failed⟩ := Except.bind_error.mp failed
      · exact SquareSystem.reply_error_iteration? suits failed
      · cases failed
    rw [unnumbered] at numbered
    cases numbered
  · rintro ⟨⟨failure, undirected⟩, rfl⟩
    refine ⟨failure, Except.bind_error.mpr (.inl undirected), ?_⟩
    exact newtonDirection_iteration? undirected

end Newton

namespace Method

variable {m : Method}

theorem iterate_error {passes : Nat} {t : m.State α n} {e : Failure α} :
    (m.iterate o passes t).value s.reply = .error e ↔
      ∃ length < passes, ∃ states : Nat → m.State α n, states 0 = t ∧
        (∀ k < length, (m.step o (states k)).value s.reply = .ok (states (k + 1))) ∧
        (∀ k ≤ length, (m.progress (states k)).tests.any = false) ∧
        (m.step o (states length)).value s.reply = .error e := by
  induction passes generalizing t with
  | zero =>
    rw [iterate_zero]
    constructor
    · intro failed
      cases failed
    · rintro ⟨length, less, _⟩
      exact absurd less (Nat.not_lt_zero length)
  | succ passes ih =>
    rw [iterate_succ]
    by_cases stops : (m.progress t).tests.any
    · rw [if_pos stops]
      constructor
      · intro failed
        cases failed
      · rintro ⟨length, _, states, rfl, _, going, _⟩
        rw [going 0 (Nat.zero_le length)] at stops
        cases stops
    rw [if_neg stops, Plan.value_bind, Except.bind_error]
    constructor
    · rintro (failed | ⟨next, stepped, failed⟩)
      · exact ⟨0, Nat.succ_pos passes, fun _ => t, rfl, fun k less => absurd less k.not_lt_zero,
          fun _ _ => Bool.eq_false_iff.mpr stops, failed⟩
      · obtain ⟨length, less, states, rfl, steps, going, failed⟩ := ih.mp failed
        refine ⟨length + 1, Nat.succ_lt_succ less, fun k => k.casesOn t states, rfl,
          fun k within => ?_, fun k within => ?_, failed⟩
        · cases k with
          | zero => exact stepped
          | succ k => exact steps k (Nat.lt_of_succ_lt_succ within)
        · cases k with
          | zero => exact Bool.eq_false_iff.mpr stops
          | succ k => exact going k (Nat.le_of_succ_le_succ within)
    · rintro ⟨length, less, states, rfl, steps, going, failed⟩
      cases length with
      | zero => exact .inl failed
      | succ length =>
        refine .inr ⟨states 1, steps 0 (Nat.succ_pos length), ih.mpr ?_⟩
        exact ⟨length, Nat.lt_of_succ_lt_succ less, fun k => states (k + 1), rfl,
          fun k within => steps (k + 1) (Nat.succ_lt_succ within),
          fun k within => going (k + 1) (Nat.succ_le_succ within), failed⟩

theorem iterate_of_failure {length passes : Nat} {states : Nat → m.State α n}
    {ledgers : Nat → Ledger α n} {e : Failure α} {after : Ledger α n}
    (steps : ∀ k < length, (m.step o (states k)).run (Ledger.answer s) (ledgers k) =
      (.ok (states (k + 1)), ledgers (k + 1)))
    (going : ∀ k ≤ length, (m.progress (states k)).tests.any = false) (less : length < passes)
    (failed : (m.step o (states length)).run (Ledger.answer s) (ledgers length) =
      (.error e, after)) :
    (m.iterate o passes (states 0)).run (Ledger.answer s) (ledgers 0) = (.error e, after) := by
  induction passes generalizing states ledgers length with
  | zero => exact absurd less (Nat.not_lt_zero length)
  | succ passes ih =>
    rw [iterate_succ, if_neg (Bool.eq_false_iff.mp (going 0 (Nat.zero_le length))), Plan.run_bind]
    cases length with
    | zero => rw [failed]
    | succ length =>
      rw [steps 0 (Nat.succ_pos length)]
      exact @ih length (fun k => states (k + 1)) (fun k => ledgers (k + 1))
        (fun k within => steps (k + 1) (Nat.succ_lt_succ within))
        (fun k within => going (k + 1) (Nat.succ_le_succ within))
        (Nat.lt_of_succ_lt_succ less) failed

end Method

section Solves

variable {m : Method} {x : Vec α n}

theorem solveFrom_error {e : Failure α} : (solveFrom s o m x).result = .error e ↔
    (m.start o x).value s.reply = .error e ∨
      ∃ length < o.iterations.below, ∃ (states : Nat → m.State α n) (ledgers : Nat → Ledger α n),
        Passes s o m x length states ledgers ∧
        (∀ k ≤ length, (m.progress (states k)).tests.any = false) ∧
        (m.step o (states length)).value s.reply = .error e := by
  have ended : (solveFrom s o m x).result = .error e ↔ (m.run o x).value s.reply = .error e := by
    rw [solveFrom_result, ← Ledger.run_fst s (m.run o x) (.begun s m)]
    rcases (m.run o x).run (Ledger.answer s) (.begun s m) with ⟨_ | p, ledger⟩ <;> simp
  have noted (t : m.State α n) : ((do
      if !(m.progress t).tests.any then Solver.note (m.stopped (m.progress t).iteration)
      return m.progress t : Solver α n (Progress α n))).value s.reply = .ok (m.progress t) := by
    split <;> rfl
  rw [ended, Method.run_eq, Plan.value_bind, Except.bind_error]
  refine or_congr_right ⟨?_, ?_⟩
  · rintro ⟨first, started, failed⟩
    rw [Plan.value_bind, Except.bind_error] at failed
    obtain failed | ⟨t, _, failed⟩ := failed
    · obtain ⟨length, less, states, rfl, steps, going, failed⟩ := Method.iterate_error.mp failed
      obtain ⟨ledgers, passes⟩ := passes_of_values started steps
      exact ⟨length, less, states, ledgers, passes, going, failed⟩
    · rw [noted] at failed
      cases failed
  · rintro ⟨length, less, states, ledgers, passes, going, failed⟩
    have steps (k : Nat) (within : k < length) :
        (m.step o (states k)).value s.reply = .ok (states (k + 1)) := by
      rw [← Ledger.run_fst s _ (ledgers k), passes.step k within]
    refine ⟨states 0, ?_, ?_⟩
    · rw [← Ledger.run_fst s _ (.begun s m), passes.start]
    · rw [Plan.value_bind, Except.bind_error]
      exact .inl (Method.iterate_error.mpr ⟨length, less, states, rfl, steps, going, failed⟩)

end Solves

def Method.finalSession (m : Method) (s : SquareSystem α) (o : Options α) (x : Vec α n) :
    Session α n :=
  ((m.run o x).run (Ledger.answer s) (.begun s m)).2.session

def Outcome.RaisesSingular (out : Outcome α) (k : Nat) : Prop :=
  ∃ failure, out.result = .error failure ∧ failure.className = "SingularJacobianError" ∧
    failure.iteration? = some ↑k

/-- The solve has stopped before a test held, at a point without a direction. -/
def Results.StopsUndirected (s : SquareSystem α) (r : Results α) : Prop :=
  r.converged = false ∧ ∃ n, ∃ (y fx : Vec α n) (jac : Mat α n n), r.zero = y.toList ∧
    r.residual = fx.toList ∧ s.Yields (.both y) (fx, jac) ∧ Undirected jac fx

omit [Scalar α] in
theorem Failure.className_of_iteration? {failure : Failure α} {i : Int}
    (numbered : failure.iteration? = some i) : failure.className = "SingularJacobianError" := by
  cases failure with
  | singular | directionNotFinite => rfl
  | _ => cases numbered

namespace Newton

variable {x : Vec α n}

theorem raisesSingular_passes (suits : ∀ d ∈ s.dimension, n = d) {k : Nat} :
    (solveFrom s o .newton x).RaisesSingular k ↔
      ∃ length < o.iterations.below, ∃ (states : Nat → State α n) (ledgers : Nat → Ledger α n),
        Passes s o .newton x length states ledgers ∧
        (∀ j ≤ length, (states j).progress.tests.any = false) ∧
        Undirected (states length).progress.jac (states length).progress.fx ∧ k = length + 1 := by
  constructor
  · rintro ⟨failure, failed, _, numbered⟩
    obtain failed | ⟨length, less, states, ledgers, passes, going, failed⟩ :=
      solveFrom_error.mp failed
    · rw [Method.start, start_value] at failed
      obtain failed | ⟨pair, _, none⟩ := Except.bind_error.mp failed
      · rw [SquareSystem.reply_error_iteration? suits failed] at numbered
        cases numbered
      · cases none
    · obtain ⟨undirected, same⟩ := (step_error suits).mp ⟨failure, failed, numbered⟩
      have iteration := passes.iteration length (Nat.le_refl length)
      dsimp only [Method.progress] at iteration
      exact ⟨length, less, states, ledgers, passes, going, undirected, by omega⟩
  · rintro ⟨length, less, states, ledgers, passes, going, undirected, rfl⟩
    have iteration := passes.iteration length (Nat.le_refl length)
    dsimp only [Method.progress] at iteration
    obtain ⟨failure, failed, numbered⟩ :=
      (step_error (o := o) suits).mpr ⟨undirected, rfl⟩
    refine ⟨failure, solveFrom_error.mpr (.inr ?_), Failure.className_of_iteration? numbered, ?_⟩
    · exact ⟨length, less, states, ledgers, passes, going, failed⟩
    · rw [numbered, iteration]
      rfl

theorem run_undirected {length : Nat} {states : Nat → State α n} {ledgers : Nat → Ledger α n}
    (passes : Passes s o .newton x length states ledgers)
    (going : ∀ k ≤ length, (states k).progress.tests.any = false)
    (less : length < o.iterations.below)
    (undirected : Undirected (states length).progress.jac (states length).progress.fx) :
    Method.newton.finalSession s o x = (ledgers length).session := by
  obtain ⟨e, none⟩ := (undirected_iff ((states length).progress.iteration + 1 : Nat)).mp undirected
  have failed : (Method.newton.step o (states length)).run (Ledger.answer s) (ledgers length) =
      (.error e, ledgers length) := by
    simp only [Method.step, step, none]
    rfl
  have iterated := Method.iterate_of_failure (m := .newton) passes.step going less failed
  rw [Method.finalSession, Method.run_eq, Plan.run_bind, passes.start]
  dsimp only
  rw [Plan.run_bind, iterated]

theorem raisesSingular_iff_stops (suits : ∀ d ∈ s.dimension, n = d) {k cap : Nat}
    (within : k < cap) :
    (solveFrom s (o.capped cap) .newton x).RaisesSingular (k + 1) ↔
      ∃ r, (solveFrom s (o.capped k) .newton x).result = .ok r ∧ r.StopsUndirected s := by
  rw [raisesSingular_passes suits]
  constructor
  · rintro ⟨length, _, states, ledgers, passes, going, undirected, same⟩
    obtain rfl : k = length := Nat.succ.inj same
    refine ⟨_, solveFrom_of_passes (o := o.capped k) ⟨passes.start, passes.step⟩
      (fun j less => going j less.le) (Nat.le_refl k) (.inr rfl), going k (Nat.le_refl k), n,
      (states k).progress.x, (states k).progress.fx, (states k).progress.jac, rfl, rfl, ?_,
      undirected⟩
    exact passes_both passes k (Nat.le_refl k)
  · rintro ⟨r, returned, unconverged, n', y, fx, jac, zero, residual, yields, undirected⟩
    obtain ⟨length, states, ledgers, passes, going, bound, reason, rfl⟩ :=
      solveFrom_passes returned
    have stopped : (states length).progress.tests.any = false := unconverged
    obtain rfl : length = k := reason.resolve_left fun holds => by
      rw [Method.progress, stopped] at holds
      cases holds
    -- The point that it stopped at determines what is known there.
    obtain rfl : n = n' := by
      simpa only [Progress.results, Vector.length_toList] using congrArg List.length zero
    obtain rfl : (states length).progress.x = y := Vector.toList_inj.mp zero
    have same := (passes_both passes length (Nat.le_refl length)).unique yields
    simp only [Prod.mk.injEq] at same
    obtain ⟨rfl, rfl⟩ := same
    refine ⟨length, within, states, ledgers, ⟨passes.start, passes.step⟩, fun j le => ?_,
      undirected, rfl⟩
    rcases Nat.lt_or_eq_of_le le with less | rfl
    · exact going j less
    · exact stopped

end Newton

omit s in
theorem prepared_iteration? {dimension : Option Nat} {given : Except Fault (GivenPoint α)}
    {failure : Failure α}
    (failed : (given.mapError Failure.fault).bind (preparePoint dimension) = .error failure) :
    failure.iteration? = none := by
  cases given with
  | error f =>
    cases failed
    rfl
  | ok point =>
    change preparePoint dimension point = .error failure at failed
    unfold preparePoint at failed
    dsimp only at failed
    repeat' split at failed
    all_goals cases failed
    all_goals rfl

/-- Newton's method fails for want of a direction in iteration `k` if and only if it stops at a
point without a direction when it may take one iteration less; with no more than that it does not
fail so. -/
theorem newton_raises_singular_iff {e : Equations α} {jacobian : Option (Callable α)}
    (system : e.toSystem jacobian = .ok s) (given : Except Fault (GivenPoint α)) (o : Options α)
    {k : Nat} (positive : 1 ≤ k) (cap : Nat) :
    (k ≤ cap → ((solve e jacobian given "newton" (o.capped cap)).RaisesSingular k ↔
      ∃ r, (solve e jacobian given "newton" (o.capped (k - 1))).result = .ok r ∧
        r.StopsUndirected s)) ∧
      (cap < k → ¬ (solve e jacobian given "newton" (o.capped cap)).RaisesSingular k) := by
  have named : Method.ofOption? "newton" = some .newton := by decide
  obtain ⟨k, rfl⟩ := Nat.exists_eq_add_of_le' positive
  rw [Nat.add_sub_cancel]
  cases prepared : (given.mapError Failure.fault).bind (preparePoint s.dimension) with
  | error failure =>
    -- There is no point to begin from, whatever the limit.
    have refused (limit : Nat) :
        (solve e jacobian given "newton" (o.capped limit)).result = .error failure := by
      simp only [solve, named, system, prepared]
    have never (limit : Nat) :
        ¬ (solve e jacobian given "newton" (o.capped limit)).RaisesSingular (k + 1) := by
      rintro ⟨failure', failed, _, numbered⟩
      cases (refused limit).symm.trans failed
      rw [prepared_iteration? prepared] at numbered
      cases numbered
    refine ⟨fun _ => iff_of_false (never cap) ?_, fun _ => never cap⟩
    rintro ⟨r, returned, _⟩
    cases (refused k).symm.trans returned
  | ok entries =>
    obtain ⟨pair, _, accepted⟩ := Except.bind_ok.mp prepared
    have suits := preparePoint_ok accepted
    rw [solve_prepared named system prepared, solve_prepared named system prepared]
    refine ⟨Newton.raisesSingular_iff_stops suits, fun less raises => ?_⟩
    obtain ⟨length, within, _, _, _, _, _, same⟩ := (Newton.raisesSingular_passes suits).mp raises
    change length < cap at within
    omega

/-- An equation without a root, and no slope at the point that a full step from one leads to. -/
def rootless : SquareSystem Float where
  convention := .outOfPlace
  sources := .separate
    (some fun p => .ok (.list (p.entries.toList.map fun x => .leaf (x * x + 1))))
    fun p => .ok (.list [.list (p.entries.toList.map fun x => .leaf (2 * x))])
  dimension := none

def fullSteps : Options Float := { Options.standard with lineSearch := .fixed 1 }

theorem newton_raises_singular_rootless :
    (solve (.system rootless) none (.ok ([1], [1])) "newton"
        (fullSteps.capped 7)).RaisesSingular 2 ∧
      ¬ (solve (.system rootless) none (.ok ([1], [1])) "newton"
        (fullSteps.capped 1)).RaisesSingular 2 := by
  have system : (Equations.system rootless).toSystem none = .ok rootless := rfl
  have raises := newton_raises_singular_iff system (.ok ([1], [1])) fullSteps
    (show 1 ≤ 2 by decide)
  refine ⟨((raises 7).1 (by decide)).mpr ?_, (raises 1).2 (by decide)⟩
  have computed : (solve (.system rootless) none (.ok ([1], [1])) "newton"
      (fullSteps.capped 1)).result.toOption.map (fun r => (r.converged, r.zero, r.residual)) =
        some (false, (#v[0] : Vec Float 1).toList, (#v[1] : Vec Float 1).toList) := by
    decide +kernel
  obtain ⟨r, returned, known⟩ := Plan.ok_of_toOption computed
  simp only [Prod.mk.injEq] at known
  obtain ⟨unconverged, zero, residual⟩ := known
  have value : (rootless.bothValue (#v[0] : Vec Float 1)).toOption.map id =
      some (#v[1], #v[#v[0]]) := by
    decide +kernel
  have replied : rootless.reply (.both (#v[0] : Vec Float 1)) = .ok (#v[1], #v[#v[0]]) := by
    obtain ⟨_, value, rfl⟩ := Plan.ok_of_toOption value
    exact SquareSystem.reply_both_ok.mpr ⟨value, by decide +kernel⟩
  have stuck : Elimination.solve (#v[#v[0]] : Mat Float 1 1) (-#v[1]) = none := by
    decide +kernel
  exact ⟨r, returned, unconverged, 1, #v[0], #v[1], #v[#v[0]], zero, residual,
    SquareSystem.yields_iff.mpr replied, .inl stuck⟩

end RootFinding
