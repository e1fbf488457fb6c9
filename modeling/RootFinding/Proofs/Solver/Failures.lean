import RootFinding.Proofs.LineSearch.Backtracking
import RootFinding.Proofs.Solver.Presentations
import RootFinding.Proofs.Solver.TrustRegion
import RootFinding.Proofs.SquareSystem.Failures

namespace RootFinding

open Binary64

section Generic

variable {α : Type} [Scalar α]

theorem StrongWolfe.zoom_unfailing (w : Conditions α) (rounds : Nat) (first : Bool)
    (z : Bracket α) : (zoom w rounds first z).Unfailing := by
  induction rounds generalizing first z with
  | zero => exact Plan.unfailing_pure _
  | succ rounds ih =>
    refine (Plan.unfailing_request _).bind fun phi => ?_
    split
    · exact ih _ _
    · refine (Plan.unfailing_request _).bind fun slope => ?_
      split
      · exact Plan.unfailing_pure _
      · exact ih _ _

theorem StrongWolfe.widen_unfailing (w : Conditions α) (rounds : Nat) (first : Bool)
    (a0 phi0 slope0 a1 phi1 : α) :
    (widen w rounds first a0 phi0 slope0 a1 phi1).Unfailing := by
  induction rounds generalizing first a0 phi0 slope0 a1 phi1 with
  | zero => exact Plan.unfailing_pure _
  | succ rounds ih =>
    simp only [widen]
    split
    · exact Plan.unfailing_pure _
    split
    · exact zoom_unfailing _ _ _ _
    refine (Plan.unfailing_request _).bind fun slope => ?_
    split
    · exact Plan.unfailing_pure _
    split
    · exact zoom_unfailing _ _ _ _
    · exact (Plan.unfailing_request _).bind fun phi => ih _ _ _ _ _ _

theorem Backtracking.reduce_unfailing {b : Backtracking α} (quadratic : b.order.equals 2)
    (phi0 slope : α) (left : Nat) (first : Bool) (older newer : Trial α) :
    (b.reduce phi0 slope left first older newer).Unfailing := by
  induction left generalizing first older newer with
  | zero =>
    rw [reduce]
    split
    · exact (Plan.unfailing_request _).bind fun _ => Plan.unfailing_pure _
    · exact Plan.unfailing_pure _
  | succ left ih =>
    rw [reduce]
    split
    · rw [proposal, quadratic, Bool.true_or, if_pos rfl]
      exact (Plan.unfailing_pure _).bind fun proposed =>
        (Plan.unfailing_request _).bind fun phi => ih _ _ _
    · exact Plan.unfailing_pure _

theorem StrongWolfe.search_ensures (w : Conditions α) (maxiter : Count) :
    (search w maxiter).Ensures (fun _ => True) fun e =>
      (∃ limit, maxiter = .real limit) ∧ e = .fault .fractionalCount := by
  refine Plan.Ensures.bind (Plan.ensures_request fun _ => trivial) fun phi _ => ?_
  cases maxiter with
  | whole k => exact (widen_unfailing _ _ _ _ _ _ _ _).ensures fun _ => trivial
  | real limit => exact ⟨⟨limit, rfl⟩, rfl⟩

theorem Merit.serve_unfailing {n : Nat} (merit : Merit α n) (q : MeritRequest α) :
    (merit.serve q).Unfailing := by
  cases q with
  | value alpha =>
    change (if alpha == 0 then _ else _ : Solver α n α).Unfailing
    split
    · exact Plan.unfailing_pure _
    · exact (Plan.unfailing_request _).bind fun _ => Plan.unfailing_pure _
  | slope alpha => exact (Plan.unfailing_request _).bind fun _ => Plan.unfailing_pure _
  | note m => exact Plan.unfailing_request _

theorem Newton.recorded_unfailing {n : Nat} (p : Progress α n) (stepnorm alpha : α) :
    (recorded p stepnorm alpha).Unfailing := by
  simp only [recorded]
  split
  · exact (Plan.unfailing_request _).bind fun _ => Plan.unfailing_pure _
  · exact Plan.unfailing_pure _

omit [Scalar α] in
theorem Solver.ofExcept_ensures {n : Nat} {β : Type} {e : Except (Failure α) β} {post : β → Prop}
    {own : Failure α → Prop} (values : ∀ b, e = .ok b → post b)
    (failures : ∀ failure, e = .error failure → own failure) :
    (Solver.ofExcept e : Solver α n β).Ensures post own := by
  cases e with
  | ok b => exact values b rfl
  | error failure => exact failures failure rfl

end Generic

section Powers

variable [Powers] {n : Nat}

theorem Backtracking.search_ensures (cubes : CubesFinite) {b : Backtracking Float}
    (admitted : b.invalid? = none) (phi0 slope : Float) (direction : Vec Float n) :
    (b.search phi0 slope direction.norm).Ensures InUnit
      fun e => e = .fault .divisionByZero ∧ b.order.equals 2 = false := by
  refine Plan.ensures_of_course fun qs out course => ?_
  obtain ⟨t, rfl, _, inside⟩ | ⟨rfl, _⟩ := search_course cubes admitted course
  · exact .inl ⟨t, rfl, inside⟩
  · refine .inr ⟨_, rfl, rfl, Bool.eq_false_iff.mpr fun quadratic => ?_⟩
    have unfailing : (b.search phi0 slope direction.norm).Unfailing :=
      (Plan.unfailing_request _).bind fun phi => reduce_unfailing quadratic _ _ _ _ _ _
    obtain ⟨_, none⟩ := unfailing.course course
    cases none

namespace LineSearch

def Admitted : LineSearch Float → Prop
  | fixed alpha => buildFixed alpha = .ok (fixed alpha)
  | backtracking b => b.invalid? = none
  | strongWolfe c1 c2 maxiter fallback =>
    buildStrongWolfe c1 c2 maxiter fallback = .ok (strongWolfe c1 c2 maxiter fallback) ∧
      fallback.Admitted
  | sequence _ => False

/-- The failures that are due to the line search itself: a step length that is no length, a
division by zero between two trials, or a limit on the trials that is no whole number. -/
def Escapes : LineSearch Float → Failure Float → Prop
  | fixed alpha, failure => alpha.isFinite = false ∧ failure = .invalidStep alpha
  | backtracking b, failure => b.order.equals 2 = false ∧ failure = .fault .divisionByZero
  | strongWolfe _ _ maxiter fallback, failure =>
    (∃ alpha, (alpha.isFinite = false ∨ alpha < 0) ∧ failure = .invalidStep alpha) ∨
      (∃ limit, maxiter = .real limit) ∧ failure = .fault .fractionalCount ∨
      fallback.Escapes failure
  | sequence _, _ => False

theorem checkStep_error {alpha : Float} {failure : Failure Float}
    (failed : Newton.checkStep alpha = .error failure) :
    (alpha.isFinite = false ∨ alpha < 0) ∧ failure = .invalidStep alpha := by
  rw [Newton.checkStep] at failed
  split at failed
  · rename_i bad
    cases failed
    rw [Bool.or_eq_true, Bool.not_eq_true', decide_eq_true_iff] at bad
    exact ⟨bad, rfl⟩
  · cases failed

theorem checkStep_inUnit {alpha : Float} (inside : InUnit alpha) (failure : Failure Float) :
    Newton.checkStep alpha ≠ .error failure := by
  intro failed
  rcases (checkStep_error failed).1 with infinite | negative
  · rw [inside.finite] at infinite
    cases infinite
  · have below := (lt_iff_toRat inside.finite inUnit_zero.finite).mp negative
    rw [toRat_zero] at below
    exact absurd below (not_lt.mpr inside.nonneg)

theorem buildFixed_ok {alpha : Float} (admitted : buildFixed alpha = .ok (fixed alpha)) :
    ¬ alpha < 0 := by
  unfold buildFixed at admitted
  split at admitted
  · rename_i positive
    intro negative
    have less := LawfulScalar.lt_of_le_of_lt _ _ _ (LawfulScalar.le_of_lt _ _ positive) negative
    obtain ⟨_, _, ranked⟩ := lt_iff.mp less
    exact lt_irrefl _ ranked
  · cases admitted

theorem search_ensures (cubes : Backtracking.CubesFinite) {strategy : LineSearch Float}
    (admitted : strategy.Admitted) (phi0 slope : Float) (direction : Vec Float n) :
    (strategy.search phi0 slope direction.norm).Ensures
      (fun found => found.2 = strategy ∧
        ∀ failure, Newton.checkStep found.1 = .error failure → strategy.Escapes failure)
      strategy.Escapes := by
  induction strategy with
  | fixed alpha =>
    refine Plan.ensures_pure ⟨rfl, fun failure failed => ?_⟩
    obtain ⟨infinite | negative, same⟩ := checkStep_error failed
    · exact ⟨infinite, same⟩
    · exact absurd negative (buildFixed_ok admitted)
  | backtracking b =>
    have own := (Backtracking.search_ensures cubes admitted phi0 slope direction).weaken
      fun e failed => (⟨failed.2, failed.1⟩ : (backtracking b).Escapes e)
    refine own.bind fun alpha inside => Plan.ensures_pure ⟨rfl, fun failure failed => ?_⟩
    exact absurd failed (checkStep_inUnit inside failure)
  | strongWolfe c1 c2 maxiter fallback ih =>
    have own := (StrongWolfe.search_ensures ⟨c1, c2, phi0, slope⟩ maxiter).weaken fun e failed =>
      (.inr (.inl failed) : (strongWolfe c1 c2 maxiter fallback).Escapes e)
    refine own.bind fun found _ => ?_
    cases found with
    | some alpha =>
      refine Plan.ensures_pure ⟨rfl, fun failure failed => .inl ⟨alpha, checkStep_error failed⟩⟩
    | none =>
      have noted : (Search.note .wolfeFailed : Search Float Unit).Ensures (fun _ => True)
          (strongWolfe c1 c2 maxiter fallback).Escapes :=
        (Plan.unfailing_request _).ensures fun _ => trivial
      refine noted.bind fun _ _ => ?_
      refine ((ih admitted.2).weaken fun e own => .inr (.inr own)).bind ?_
      rintro ⟨alpha, next⟩ ⟨rfl, failures⟩
      exact Plan.ensures_pure ⟨rfl, fun failure failed => .inr (.inr (failures failure failed))⟩
  | sequence upcoming => exact admitted.elim

end LineSearch

namespace Newton

variable {o : Options Float}

def Fails (o : Options Float) (failure : Failure Float) : Prop :=
  failure.className = "SingularJacobianError" ∨ o.lineSearch.Escapes failure

theorem newtonDirection_error {jac : Mat Float n n} {fx : Vec Float n} {iteration : Int}
    {failure : Failure Float} (failed : newtonDirection jac fx iteration = .error failure) :
    failure.className = "SingularJacobianError" := by
  rw [newtonDirection] at failed
  split at failed
  · cases failed
    rfl
  split at failed
  · cases failed
  · cases failed
    rfl

theorem start_ensures (o : Options Float) (x : Vec Float n) :
    (start o x).Ensures (fun t => t.lineSearch = o.lineSearch) (Fails o) := by
  refine Plan.Ensures.bind (Plan.ensures_request fun _ => trivial) fun pair _ => ?_
  refine Plan.Ensures.bind ((recorded_unfailing _ _ _).ensures fun _ => trivial) fun p _ => ?_
  exact Plan.ensures_pure rfl

theorem step_ensures (cubes : Backtracking.CubesFinite) (admitted : o.lineSearch.Admitted)
    {t : State Float n} (same : t.lineSearch = o.lineSearch) :
    (step o t).Ensures (fun next => next.lineSearch = o.lineSearch) (Fails o) := by
  simp only [step]
  have directed (jac : Mat Float n n) (fx : Vec Float n) (iteration : Int) :
      (Solver.ofExcept (newtonDirection jac fx iteration) : Solver Float n _).Ensures
        (fun _ => True) (Fails o) :=
    Solver.ofExcept_ensures (fun _ _ => trivial) fun failure failed =>
      .inl (newtonDirection_error failed)
  refine (directed _ _ _).bind fun direction _ => ?_
  have searched := (LineSearch.search_ensures cubes admitted (Merit.halfSquare t.progress.fx)
    (Vec.dot t.progress.gradient direction) direction).weaken
      fun failure escapes => (.inr escapes : Fails o failure)
  have served := searched.serve
    (Merit.serve_unfailing ⟨t.progress.x, direction, Merit.halfSquare t.progress.fx⟩)
  rw [same]
  refine served.bind ?_
  rintro ⟨chosen, next⟩ ⟨rfl, escapes⟩
  have checked : (Solver.ofExcept (checkStep chosen) : Solver Float n _).Ensures
      (fun _ => True) (Fails o) :=
    Solver.ofExcept_ensures (fun _ _ => trivial) fun failure failed =>
      .inr (escapes failure failed)
  refine checked.bind fun alpha _ => ?_
  refine Plan.Ensures.bind (Plan.ensures_request fun _ => trivial) fun pair _ => ?_
  refine Plan.Ensures.bind ((recorded_unfailing _ _ _).ensures fun _ => trivial) fun p _ => ?_
  exact Plan.ensures_pure rfl

end Newton

namespace Method

def Fails (o : Options Float) : Method → Failure Float → Prop
  | trustRegion, _ => False
  | newton, failure => Newton.Fails o failure

variable {o : Options Float}

theorem run_fails (cubes : Backtracking.CubesFinite) (admitted : o.lineSearch.Admitted)
    (m : Method) (x : Vec Float n) : (m.run o x).Ensures (fun _ => True) (m.Fails o) := by
  cases m with
  | trustRegion =>
    have start : (Method.trustRegion.start o x).Ensures (fun _ => True) (trustRegion.Fails o) :=
      (TrustRegion.start_unfailing o x).ensures fun _ => trivial
    exact run_ensures start
      (fun t _ => (TrustRegion.step_unfailing o t).ensures fun _ => trivial) fun _ _ => trivial
  | newton =>
    exact run_ensures (Newton.start_ensures o x)
      (fun t same => Newton.step_ensures cubes admitted same) fun _ _ => trivial

end Method

variable {s : SquareSystem Float} {o : Options Float}

theorem solveFrom_ends (cubes : Backtracking.CubesFinite) (suits : ∀ d ∈ s.dimension, n = d)
    (admitted : o.lineSearch.Admitted) (m : Method) (x : Vec Float n) :
    match (solveFrom s o m x).result with
    | .ok _ => ∀ c ∈ (solveFrom s o m x).calls, s.Fits n c
    | .error failure => s.Explains n (solveFrom s o m x).calls.reverse failure ∨
      m.Fails o failure ∧ ∀ c ∈ (solveFrom s o m x).calls, s.Fits n c := by
  have answers (q : Request Float n) (ledger : Ledger Float n) (r : q.Answer)
      (after : Ledger Float n) (fits : ledger.Fits s)
      (answered : Ledger.answer s q ledger = (.ok r, after)) : after.Fits s := by
    have explained := Ledger.answer_explained suits q ledger fits
    rw [answered] at explained
    exact explained
  have refuses (q : Request Float n) (ledger : Ledger Float n) (failure : Failure Float)
      (after : Ledger Float n) (fits : ledger.Fits s)
      (answered : Ledger.answer s q ledger = (.error failure, after)) :
      s.Explains n after.session.desk.calls failure := by
    have explained := Ledger.answer_explained suits q ledger fits
    rw [answered] at explained
    exact explained
  have begun : (Ledger.begun s m : Ledger Float n).Fits s := fun c none => by cases none
  have ran := (Method.run_fails cubes admitted m x).run answers refuses begun
  rw [solveFrom_result, solveFrom_calls]
  simp only [List.mem_reverse, List.reverse_reverse]
  generalize (m.run o x).run (Ledger.answer s) (.begun s m) = outcome at ran ⊢
  obtain ⟨_ | _, after⟩ := outcome
  · exact ran
  · exact ran.2

/-- A solve with a result has made no call whose values did not fit. One without fails as its last
call or the values at its last point, which is a failure of shape or of evaluation except where a
returned value is no array or a callable raises another of the solver's own faults; or else it is
Newton's method that lacks a direction or a step length. -/
theorem solve_ends (cubes : Backtracking.CubesFinite) {e : Equations Float}
    {jacobian : Option (Callable Float)} (system : e.toSystem jacobian = .ok s)
    {given : GivenPoint Float} {entries : List Float}
    (prepared : preparePoint s.dimension given = .ok entries) (admitted : o.lineSearch.Admitted)
    (m : Method) {outcome : Outcome Float}
    (ended : solve e jacobian (.ok given) m.option o = outcome) :
    match outcome.result with
    | .ok _ => ∀ c ∈ outcome.calls, s.Fits entries.length c
    | .error failure =>
      s.Explains entries.length outcome.calls.reverse failure ∧
          (failure.className ∈ ["ShapeError", "EvaluationError"] ∨
            ∃ c ∈ outcome.calls, ∃ f, (s.ReturnsMalformed c f ∨ s.RaisesForeign c f) ∧
              failure = .fault f) ∨
        m = .newton ∧ (∀ c ∈ outcome.calls, s.Fits entries.length c) ∧
          (failure.className = "SingularJacobianError" ∨ o.lineSearch.Escapes failure) := by
  have known : Method.ofOption? m.option = some m := by
    cases m <;> decide +kernel
  have begins : ((Except.ok given : Except Fault _).mapError Failure.fault).bind
      (preparePoint s.dimension) = .ok entries := prepared
  have same : solveFrom s o m (Vec.ofList entries) = outcome := by
    simpa only [solve, known, system, begins] using ended
  have ends := solveFrom_ends cubes (preparePoint_ok prepared) admitted m (Vec.ofList entries)
  rw [same] at ends
  cases result : outcome.result with
  | ok r =>
    rw [result] at ends
    exact ends
  | error failure =>
    rw [result] at ends
    rcases ends with explains | ⟨fails, fits⟩
    · have named := explains.className
      simp only [List.mem_reverse] at named
      exact .inl ⟨explains, named⟩
    · cases m with
      | trustRegion => exact fails.elim
      | newton => exact .inr ⟨rfl, fits, fails⟩

end Powers

def raising : Callable Float := fun _ => .error (.raised .value "no value")

theorem solve_ends_raising :
    letI := repeatedProducts
    ∃ failure, (solve (.callable (some raising)) none (.ok ([1], [1])) Method.trustRegion.option
        .standard).result = .error failure ∧
      failure.className ∈ ["ShapeError", "EvaluationError"] := by
  let _ := repeatedProducts
  have system : (Equations.callable (some raising)).toSystem none =
      .ok ⟨.outOfPlace, .residualOnly (some raising), none⟩ := rfl
  have prepared : preparePoint none (([1], [1]) : GivenPoint Float) = .ok [1] :=
    preparePoint_of_finite (List.cons_ne_nil _ _) (by decide +kernel)
  have valid : (Backtracking.standard : Backtracking Float).invalid? = none :=
    Option.isNone_iff_eq_none.mp (by decide +kernel)
  have admitted : (Options.standard : Options Float).lineSearch.Admitted := valid
  have computed : (solve (.callable (some raising)) none (.ok ([1], [1]))
      Method.trustRegion.option (.standard : Options Float)).result.toOption.isNone := by
    decide +kernel
  have ends := solve_ends repeatedProducts_cubes system prepared admitted .trustRegion rfl
  cases result : (solve (.callable (some raising)) none (.ok ([1], [1]))
      Method.trustRegion.option (.standard : Options Float)).result with
  | ok r =>
    rw [result] at computed
    cases computed
  | error failure =>
    rw [result] at ends
    obtain ⟨_, usual | ⟨⟨name, x⟩, _, f, ⟨_, malformed⟩ | ⟨yields, foreign⟩, _⟩⟩ | ⟨other, _⟩ :=
      ends
    · exact ⟨failure, rfl, usual⟩
    · -- Nothing is returned, malformed or not.
      obtain ⟨v, yields, _⟩ | ⟨_, ⟨v, yields, _⟩, _⟩ := malformed
      · cases name <;> cases yields
      · cases name <;> cases yields
    · cases name <;> cases yields <;> exact absurd foreign (by decide)
    · cases other

def nestedSecond : Callable Float :=
  Formula.callable (.list [.leaf (.coordinate 0), .list [.leaf (.coordinate 1)]])

theorem solve_nestedSecond :
    (Options.standard : Options Float).invalid? = none ∧
      preparePoint none (([2], [1, 2]) : GivenPoint Float) = .ok [1, 2] ∧
      ∃ failure, (solve (.callable (some nestedSecond)) none (.ok ([2], [1, 2]))
          Method.trustRegion.option .standard).result = .error failure ∧
        failure.className ∉ ["ShapeError", "EvaluationError", "SingularJacobianError"] := by
  refine ⟨Option.isNone_iff_eq_none.mp (by decide +kernel), ?_, .fault (.ragged [2]), ?_, by decide⟩
  · exact preparePoint_of_finite (List.cons_ne_nil _ _) (by decide +kernel)
  · have computed : (match (solve (.callable (some nestedSecond)) none (.ok ([2], [1, 2]))
        Method.trustRegion.option (.standard : Options Float)).result with
        | .error (.fault f) => f == .ragged [2]
        | _ => false) = true := by
      decide +kernel
    split at computed
    · rename_i f failed
      rw [failed, beq_iff_eq.mp computed]
    · cases computed

end RootFinding
