import RootFinding.Proofs.Exact.Correspondence
import RootFinding.Proofs.Exact.FullStep
import RootFinding.Proofs.Solver.Singular

namespace RootFinding

open Exact

variable {n : Nat}

def LineSearch.Lengthless {α : Type} : LineSearch α → Prop
  | fixed _ => True
  | backtracking b => b.maxstep = none
  | strongWolfe _ _ _ fallback => fallback.Lengthless
  | sequence _ => False

theorem LineSearch.Lengthless.builtIn {α : Type} {strategy : LineSearch α}
    (lengthless : strategy.Lengthless) : strategy.builtIn := by
  induction strategy with
  | fixed | backtracking => rfl
  | strongWolfe c1 c2 maxiter fallback ih => exact ih lengthless
  | sequence => exact lengthless.elim

theorem LineSearch.search_lengthless {α : Type} [Scalar α] {strategy : LineSearch α}
    (lengthless : strategy.Lengthless) (phi0 slope length length' : α) :
    strategy.search phi0 slope length' = strategy.search phi0 slope length := by
  induction strategy with
  | fixed alpha => rfl
  | backtracking b =>
    have initial : b.initialStep length' = b.initialStep length := by
      simp only [Backtracking.initialStep, show b.maxstep = none from lengthless]
    simp only [search, Backtracking.search, initial]
  | strongWolfe c1 c2 maxiter fallback ih => simp only [search, ih lengthless]
  | sequence => exact lengthless.elim

namespace Newton

variable {c : Coordinates n n} {s s' : SquareSystem ℝ} {o : Options ℝ} {t t' : State ℝ n}

/-- States of two solves; the line search cannot tell the coordinates apart. -/
structure State.Corresponds (c : Coordinates n n) (t t' : State ℝ n) : Prop where
  progress : t.progress.Corresponds c t'.progress
  lineSearch : t'.lineSearch = t.lineSearch
  lengths : c.Isometric ∨ t.lineSearch.Lengthless

theorem newtonDirection_corresponds (c : Coordinates n n) (jac : Mat ℝ n n) (fx : Vec ℝ n)
    (iteration : Int) :
    Alike (fun p p' => c.point p' = p) (newtonDirection jac fx iteration)
      (newtonDirection (c.jacobian jac) (c.residual fx) iteration) := by
  rw [newtonDirection, newtonDirection, ← c.residual_neg, c.solve_eq]
  cases Elimination.solve (c.jacobian jac) (c.residual (-fx)) with
  | none => exact .error _ _
  | some p =>
    simp only [Option.map_some, vec_allFinite, if_true]
    exact .ok rfl

section Direction

variable (corresponds : t.Corresponds c t')
include corresponds

theorem State.Corresponds.slope (direction : Vec ℝ n) :
    t'.slope direction = t.slope (c.point direction) := by
  rw [State.slope, corresponds.progress.gradient, c.dot_gradient]
  rfl

theorem State.Corresponds.phi0 (direction : Vec ℝ n) :
    (t'.merit direction).phi0 = (t.merit (c.point direction)).phi0 := by
  change Merit.halfSquare t'.progress.fx = Merit.halfSquare t.progress.fx
  rw [corresponds.progress.fx, Merit.halfSquare, c.dot_residual]
  rfl

theorem State.Corresponds.point (direction : Vec ℝ n) (alpha : ℝ) :
    c.point ((t'.merit direction).point alpha) = (t.merit (c.point direction)).point alpha := by
  rw [Merit.point, c.point_add, c.point_scale]
  change c.point t'.progress.x + _ = t.progress.x + _
  rw [corresponds.progress.x]
  rfl

theorem State.Corresponds.function (system : s.Corresponds c s') (direction : Vec ℝ n)
    (q : MeritRequest ℝ) :
    Alike (· = ·) (((t.merit (c.point direction)).function s).reply q)
      (((t'.merit direction).function s').reply q) := by
  have point (alpha : ℝ) := corresponds.point direction alpha
  cases q with
  | value alpha =>
    change Alike _ ((Merit.value _ alpha).value s.reply) ((Merit.value _ alpha).value s'.reply)
    have residual := system.residual ((t'.merit direction).point alpha)
    rw [point] at residual
    simp only [Merit.value, corresponds.phi0]
    -- At zero the value is the one that both states know.
    split
    · exact .ok rfl
    · simp only [Plan.value_bind, Solver.residual, Plan.value_request]
      refine residual.bind ?_
      rintro fx _ rfl
      refine .ok ?_
      simp only [Merit.halfSquare, c.dot_residual]
  | slope alpha =>
    change Alike _ ((Merit.slope _ alpha).value s.reply) ((Merit.slope _ alpha).value s'.reply)
    have both := system.both ((t'.merit direction).point alpha)
    rw [point] at both
    simp only [Merit.slope, Plan.value_bind, Solver.both, Plan.value_request]
    refine both.bind ?_
    rintro ⟨fx, jac⟩ _ rfl
    refine .ok ?_
    rw [c.tmulVec_residual, c.dot_gradient]
    rfl
  | note m => exact .ok rfl

theorem State.Corresponds.plan (direction : Vec ℝ n) :
    t'.lineSearch.search (t'.merit direction).phi0 (t'.slope direction) direction.norm =
      t.lineSearch.search (t.merit (c.point direction)).phi0 (t.slope (c.point direction))
        (c.point direction).norm := by
  rw [corresponds.lineSearch, corresponds.phi0, corresponds.slope]
  rcases corresponds.lengths with isometric | lengthless
  · rw [isometric]
  · exact LineSearch.search_lengthless lengthless _ _ _ _

theorem State.Corresponds.search (system : s.Corresponds c s') (direction : Vec ℝ n) :
    Alike (· = ·)
      (((t.merit (c.point direction)).search t.lineSearch
        (t.slope (c.point direction))).value s.reply)
      (((t'.merit direction).search t'.lineSearch (t'.slope direction)).value s'.reply) := by
  rw [Merit.search_value, Merit.search_value]
  change Alike _ _ (Plan.value _ (t'.lineSearch.search _ _ direction.norm))
  rw [corresponds.plan]
  exact Plan.value_alike (corresponds.function system direction) _

theorem State.Corresponds.direction :
    Alike (fun p p' => c.point p' = p)
      (newtonDirection t.progress.jac t.progress.fx (t.progress.iteration + 1 : Nat))
      (newtonDirection t'.progress.jac t'.progress.fx (t'.progress.iteration + 1 : Nat)) := by
  rw [corresponds.progress.jac, corresponds.progress.fx, corresponds.progress.iteration]
  exact newtonDirection_corresponds c _ _ _

theorem State.Corresponds.stepLength (system : s.Corresponds c s') :
    Alike (· = ·) (t.stepLength s) (t'.stepLength s') := by
  refine corresponds.direction.bind ?_
  rintro _ direction rfl
  refine (corresponds.search system direction).bind ?_
  rintro found _ rfl
  exact Alike.same _

theorem State.Corresponds.asked (system : s.Corresponds c s') : t'.asked s' = t.asked s := by
  have directed := corresponds.direction
  -- Without a direction neither search begins.
  unfold State.asked
  generalize newtonDirection t.progress.jac _ _ = direction at directed ⊢
  generalize newtonDirection t'.progress.jac _ _ = direction' at directed ⊢
  cases directed with
  | error e e' => rfl
  | @ok _ direction holds =>
    subst holds
    have plan := corresponds.plan direction
    change Plan.requests _ (t'.lineSearch.search (t'.merit direction).phi0 (t'.slope direction)
      direction.norm) = _
    rw [plan]
    exact Plan.requests_alike (corresponds.function system direction) _

theorem State.Corresponds.undirected :
    Undirected t'.progress.jac t'.progress.fx ↔ Undirected t.progress.jac t.progress.fx := by
  rw [undirected_iff (t'.progress.iteration + 1 : Nat),
    undirected_iff (t.progress.iteration + 1 : Nat)]
  exact corresponds.direction.fails_iff

theorem State.Corresponds.moved (never : c.Isometric ∨ o.xtol = 0) (y fx : Vec ℝ n)
    (jac : Mat ℝ n n) (alpha : ℝ) :
    ((t.moved o (c.point y) fx jac).entered (c.point y - t.progress.x).norm
      [("alpha", .float alpha)]).Corresponds c
      ((t'.moved o y (c.residual fx) (c.jacobian jac)).entered (y - t'.progress.x).norm
        [("alpha", .float alpha)]) := by
  obtain ⟨x, _, _, iteration, _, recorder⟩ := corresponds.progress
  have moved : (t.moved o (c.point y) fx jac).Corresponds c
      (t'.moved o y (c.residual fx) (c.jacobian jac)) := by
    refine ⟨rfl, rfl, rfl, congrArg (· + 1) iteration, ?_, recorder⟩
    simp only [State.moved, ← x]
    exact Convergence.assess_corresponds never _ _ _ _
  refine moved.entered (fun isometric => ?_) (by simp)
  rw [← x, ← c.point_sub, isometric]

end Direction

theorem step_corresponds (system : s.Corresponds c s') (never : c.Isometric ∨ o.xtol = 0)
    (corresponds : t.Corresponds c t') :
    Alike (State.Corresponds c) ((step o t).value s.reply) ((step o t').value s'.reply) := by
  rw [step_value, step_value]
  refine corresponds.direction.bind ?_
  rintro _ direction rfl
  refine (corresponds.search system direction).known.bind ?_
  rintro found _ ⟨searched, rfl⟩
  refine (Alike.same (checkStep found.1)).bind ?_
  rintro alpha _ rfl
  have both := system.both ((t'.merit direction).point alpha)
  rw [corresponds.point] at both
  refine both.bind ?_
  rintro ⟨fx, jac⟩ _ rfl
  have point := corresponds.point direction alpha
  refine .ok ⟨?_, rfl, ?_⟩
  · have moved := corresponds.moved never ((t'.merit direction).point alpha) fx jac alpha
    rw [point] at moved
    exact moved
  · refine corresponds.lengths.imp_right fun lengthless => ?_
    rw [search_keeps lengthless.builtIn searched]
    exact lengthless

theorem first_corresponds (system : s.Corresponds c s')
    (lengths : c.Isometric ∨ o.lineSearch.Lengthless) (y : Vec ℝ n) :
    Alike (State.Corresponds c) ((start o (c.point y)).value s.reply)
      ((start o y).value s'.reply) := by
  rw [start_value, start_value]
  refine (system.both y).bind ?_
  rintro ⟨fx, jac⟩ _ rfl
  refine .ok ⟨?_, rfl, lengths⟩
  exact (Progress.start_corresponds c o y fx jac).entered (fun _ => rfl) (by simp)

theorem reached_corresponds (system : s.Corresponds c s') (never : c.Isometric ∨ o.xtol = 0)
    (lengths : c.Isometric ∨ o.lineSearch.Lengthless) (y : Vec ℝ n) (k : Nat) :
    Alike (State.Corresponds c) (Method.newton.reached s o (c.point y) k).1
      (Method.newton.reached s' o y k).1 :=
  @Method.reached_alike _ _ _ _ _ _ s s' o o .newton .newton _ y _
    (first_corresponds system lengths y) (fun _ _ => step_corresponds system never) k

structure State.Abreast (c : Coordinates n n) (s s' : SquareSystem ℝ) (t t' : State ℝ n) :
    Prop where
  corresponds : t.Corresponds c t'
  asked : t'.asked s' = t.asked s
  stepLength : Alike (· = ·) (t.stepLength s) (t'.stepLength s')

theorem sameCounts (system : s.Corresponds c s') {x y : Vec ℝ n} {length : Nat}
    {states states' : Nat → State ℝ n} {ledgers ledgers' : Nat → Ledger ℝ n}
    (passes : Passes s o .newton x length states ledgers)
    (passes' : Passes s' o .newton y length states' ledgers')
    (holds : ∀ k ≤ length, (states k).Abreast c s s' (states' k)) :
    (ledgers length).session.SameCounts (ledgers' length).session :=
  passes_sameCounts system.analytic passes passes' (Nat.le_refl length) (Nat.le_refl length)
    fun i less => (holds i less.le).asked

theorem abreast (system : s.Corresponds c s') (never : c.Isometric ∨ o.xtol = 0)
    (lengths : c.Isometric ∨ o.lineSearch.Lengthless) (y : Vec ℝ n) :
    Method.newton.Abreast (State.Abreast c s s') c s s' o (c.point y) y := by
  refine Method.abreast (m := .newton) (fun k => ?_) ?_ ?_
  · refine (reached_corresponds system never lengths y k).weaken fun t t' corresponds => ?_
    exact ⟨corresponds, corresponds.asked system, corresponds.stepLength system⟩
  · exact fun t t' holds => holds.corresponds.progress
  · intro length states ledgers states' ledgers' passes passes' holds
    exact sameCounts system passes passes' holds

theorem undirected_alike {x x' : Vec ℝ n} {related : State ℝ n → State ℝ n → Prop}
    (alike : ∀ k, Alike related (Method.newton.reached s o x k).1
      (Method.newton.reached s' o x' k).1)
    (tests : ∀ t t', related t t' → t'.progress.tests = t.progress.tests)
    (undirected : ∀ t t', related t t' →
      (Undirected t'.progress.jac t'.progress.fx ↔ Undirected t.progress.jac t.progress.fx))
    {length : Nat} {states : Nat → State ℝ n} {ledgers : Nat → Ledger ℝ n}
    (passes : Passes s o .newton x length states ledgers)
    (going : ∀ k ≤ length, (states k).progress.tests.any = false)
    (stuck : Undirected (states length).progress.jac (states length).progress.fx) :
    ∃ (states' : Nat → State ℝ n) (ledgers' : Nat → Ledger ℝ n),
      Passes s' o .newton x' length states' ledgers' ∧
      (∀ k ≤ length, related (states k) (states' k)) ∧
      (∀ k ≤ length, (states' k).progress.tests.any = false) ∧
      Undirected (states' length).progress.jac (states' length).progress.fx := by
  obtain ⟨states', ledgers', passes', holds⟩ :=
    @Passes.alike _ _ _ _ _ _ s s' o o .newton .newton x x' _ _ _ _ alike passes
  refine ⟨states', ledgers', passes', holds, fun k within => ?_, ?_⟩
  · rw [tests _ _ (holds k within)]
    exact going k within
  · exact (undirected _ _ (holds length (Nat.le_refl length))).mpr stuck

/-- Solves that go abreast fail in the same iteration for want of a direction, if they do, at the
cost of the same evaluations. -/
theorem raisesSingular_abreast (system : s.Corresponds c s') (suits : ∀ d ∈ s.dimension, n = d)
    (suits' : ∀ d ∈ s'.dimension, n = d) {x y : Vec ℝ n}
    (abreast : Method.newton.Abreast (State.Abreast c s s') c s s' o x y) (k : Nat) :
    ((solveFrom s' o .newton y).RaisesSingular k ↔ (solveFrom s o .newton x).RaisesSingular k) ∧
      ((solveFrom s o .newton x).RaisesSingular k →
        (Method.newton.finalSession s o x).SameCounts (Method.newton.finalSession s' o y)) := by
  have tests (t t' : State ℝ n) (holds : t.Abreast c s s' t') :
      t'.progress.tests = t.progress.tests := holds.corresponds.progress.tests
  have undirected (t t' : State ℝ n) (holds : t.Abreast c s s' t') :=
    holds.corresponds.undirected
  rw [raisesSingular_passes suits, raisesSingular_passes suits']
  refine ⟨⟨?_, ?_⟩, ?_⟩
  · rintro ⟨length, less, states', ledgers', passes', going', stuck', same⟩
    obtain ⟨states, ledgers, passes, _, going, stuck⟩ := undirected_alike
      (fun k => (abreast.states k).flip) (fun t' t holds => (tests t t' holds).symm)
      (fun t' t holds => (undirected t t' holds).symm) passes' going' stuck'
    exact ⟨length, less, states, ledgers, passes, going, stuck, same⟩
  · rintro ⟨length, less, states, ledgers, passes, going, stuck, same⟩
    obtain ⟨states', ledgers', passes', _, going', stuck'⟩ :=
      undirected_alike abreast.states tests undirected passes going stuck
    exact ⟨length, less, states', ledgers', passes', going', stuck', same⟩
  · rintro ⟨length, less, states, ledgers, passes, going, stuck, _⟩
    obtain ⟨states', ledgers', passes', holds, going', stuck'⟩ :=
      undirected_alike abreast.states tests undirected passes going stuck
    rw [run_undirected passes going less stuck, run_undirected passes' going' less stuck']
    exact sameCounts system passes passes' holds

end Newton

/-- Newton's method is covariant under linear changes of the unknowns, with a line search that does
not look at the length of the direction and no test on the step: it takes the same steps, at the
cost of the same evaluations, to the same points, and returns or fails for want of a direction in
the same iteration. -/
theorem newton_covariant {T : Mat ℝ n n} (regular : Regular T) {s s' : SquareSystem ℝ}
    (system : s.Corresponds (.linear T regular) s') (suits : ∀ d ∈ s.dimension, n = d)
    (suits' : ∀ d ∈ s'.dimension, n = d) {o : Options ℝ} (never : o.xtol = 0)
    (lengthless : o.lineSearch.Lengthless) (y : Vec ℝ n) :
    Method.newton.Abreast (Newton.State.Abreast (.linear T regular) s s') (.linear T regular)
        s s' o (T.mulVec y) y ∧
      ∀ k, ((solveFrom s' o .newton y).RaisesSingular k ↔
          (solveFrom s o .newton (T.mulVec y)).RaisesSingular k) ∧
        ((solveFrom s o .newton (T.mulVec y)).RaisesSingular k →
          (Method.newton.finalSession s o (T.mulVec y)).SameCounts
            (Method.newton.finalSession s' o y)) := by
  have abreast := Newton.abreast (o := o) system (.inr never) (.inr lengthless) y
  exact ⟨abreast, Newton.raisesSingular_abreast system suits suits' abreast⟩

theorem newton_covariant_twice :
    ∃ (regular : Regular #v[#v[3]]) (s s' : SquareSystem ℝ),
      Presentation.system (.plain true) TrustRegion.twice = .ok s ∧
      Presentation.system (.plain true) (TrustRegion.twice.inCoordinates (.linear _ regular)) =
        .ok s' ∧
      ∃ r r', (solveFrom s .standard .newton #v[3 * 1]).result = .ok r ∧
        (solveFrom s' .standard .newton #v[1]).result = .ok r' ∧ r.iterations = 1 ∧
        r.Corresponds (.linear #v[#v[3]] regular) r' := by
  have regular : Regular #v[#v[(3 : ℝ)]] := regular_single three_ne_zero
  obtain ⟨s, system, presents, analytic⟩ :=
    Presentation.system_ok Nat.one_pos (.plain true) TrustRegion.twice
  obtain ⟨s', system', presents', analytic'⟩ := Presentation.system_ok Nat.one_pos (.plain true)
    (TrustRegion.twice.inCoordinates (.linear _ regular))
  have corresponds := Callables.corresponds presents presents' analytic analytic'
  have point : Mat.mulVec #v[#v[(3 : ℝ)]] #v[1] = #v[3 * 1] := mulVec_single 3 1
  have undeclared {k : Callables ℝ 1} {s : SquareSystem ℝ}
      (system : Presentation.system (.plain true) k = .ok s) : ∀ d ∈ s.dimension, 1 = d := by
    cases system
    exact fun d none => nomatch none
  obtain ⟨abreast, _⟩ := newton_covariant (o := .standard) regular corresponds (undeclared system)
    (undeclared system') rfl rfl #v[1]
  have far : Convergence.residualTest (Mat.mulVec #v[#v[(2 : ℝ)]] #v[3 * 1] - #v[1])
      (Options.standard : Options ℝ).ftol = false := by
    refine decide_eq_false (not_lt.mpr (le_trans ?_ (le_maxNorm _ 0)))
    rw [sub_get, mulVec_single]
    change (1e-8 : ℝ) ≤ |2 * (3 * 1) - 1|
    norm_num
  obtain ⟨_, _, _, r, returned, iterations, _⟩ := Newton.one_step (o := .standard)
    (presents.affine (a := #v[#v[2]]) (b := #v[1]) (fun _ => rfl) fun _ => rfl)
    (regular_single two_ne_zero) (by norm_num [Options.standard]) far (by decide)
    ⟨by norm_num [Backtracking.standard], rfl⟩
  rw [← point] at returned
  obtain ⟨r', returned', same⟩ := abreast.results.of_ok returned
  rw [point] at returned
  exact ⟨regular, s, s', system, system', r, r', returned, returned', iterations, same⟩

end RootFinding
