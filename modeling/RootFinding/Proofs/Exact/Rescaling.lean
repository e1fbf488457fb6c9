import RootFinding.Proofs.Exact.Units
import RootFinding.Proofs.Exact.Correspondence
import RootFinding.Proofs.Exact.Equations

namespace RootFinding

open Exact

variable {n : Nat} {units : Vec ℝ n}

/-- The second system is the first one with its unknowns in other units. -/
structure SquareSystem.Rescales (units : Vec ℝ n) (s s' : SquareSystem ℝ) : Prop where
  residual : ∀ y : Vec ℝ n, Alike (fun fx fx' : Vec ℝ n => fx' = fx)
    (s.reply (.residual (scaled units y))) (s'.reply (.residual y))
  jacobian : ∀ y : Vec ℝ n, Alike (fun jac jac' : Mat ℝ n n => jac' = rescaled units jac)
    (s.reply (.jacobian (scaled units y))) (s'.reply (.jacobian y))
  both : ∀ y : Vec ℝ n,
    Alike (fun pair pair' : Vec ℝ n × Mat ℝ n n => pair' = (pair.1, rescaled units pair.2))
      (s.reply (.both (scaled units y))) (s'.reply (.both y))

noncomputable def Callables.inUnits (units : Vec ℝ n) (c : Callables ℝ n) : Callables ℝ n :=
  .of (fun y => c.map (scaled units y)) fun y => rescaled units (c.derivative (scaled units y))

theorem Callables.rescales {c : Callables ℝ n} {s s' : SquareSystem ℝ} (presents : s.Presents c)
    (presents' : s'.Presents (c.inUnits units)) (analytic : s.analytic)
    (analytic' : s'.analytic) : s.Rescales units s' := by
  have known (y : Vec ℝ n) := presents.replies (scaled units y)
  have known' (y : Vec ℝ n) := presents'.replies y
  simp only [Callables.jacobian, analytic, analytic', if_true] at known known'
  refine ⟨fun y => ?_, fun y => ?_, fun y => ?_⟩
  · rw [(known y).1, (known' y).1]
    exact .ok rfl
  · rw [(known y).2.1, (known' y).2.1]
    exact .ok rfl
  · rw [(known y).2.2, (known' y).2.2]
    exact .ok rfl

/-- The extras that do not depend on the units: all but the iterate and the gradient. -/
def Extras.unitless {α : Type} (extras : Extras α) : Extras α :=
  extras.filter fun item => item.1 ≠ "x" && item.1 ≠ "g"

structure Entry.Rescales (e e' : Entry ℝ) : Prop where
  iteration : e'.iteration = e.iteration
  fnorm : e'.fnorm = e.fnorm
  extras : e'.extras.unitless = e.extras.unitless

structure Recorder.Rescales (r r' : Recorder ℝ) : Prop where
  store : r'.store = r.store
  shows : r'.shows = r.shows
  extended : r'.extended = r.extended
  entries : List.Forall₂ Entry.Rescales r.entries r'.entries

structure Progress.Rescales (units : Vec ℝ n) (p p' : Progress ℝ n) : Prop where
  x : scaled units p'.x = p.x
  fx : p'.fx = p.fx
  jac : p'.jac = rescaled units p.jac
  iteration : p'.iteration = p.iteration
  tests : p'.tests = p.tests
  recorder : p.recorder.Rescales p'.recorder

theorem Progress.Rescales.entered {p p' : Progress ℝ n} (rescales : p.Rescales units p')
    (stepnorm stepnorm' : ℝ) (more : Extras ℝ) :
    (p.entered stepnorm more).Rescales units (p'.entered stepnorm' more) := by
  obtain ⟨x, fx, jac, iteration, tests, store, shows, extended, entries⟩ := rescales
  refine ⟨x, fx, jac, iteration, tests, ?_⟩
  have unitless (q : Progress ℝ n) : Extras.unitless (q.extras ++ more) =
      ("fx", .array (.ofVec q.fx)) :: Extras.unitless more := by
    simp [Extras.unitless, Progress.extras]
  simp only [Progress.entered, Recorder.record, Recorder.enabled, store, shows, extended]
  split
  · split
    · refine ⟨rfl, rfl, rfl, .cons ⟨?_, ?_, ?_⟩ entries⟩
      · exact congrArg Int.ofNat iteration
      · exact congrArg Vec.maxNorm fx
      · dsimp only
        split
        · rw [unitless, unitless, fx]
        · rfl
    · exact ⟨store, shows, extended, entries⟩
  · exact ⟨store, shows, extended, entries⟩

/-- What a result says in other units: the zero is in them, and the rest is the same. -/
structure Results.Rescales (units : Vec ℝ n) (r r' : Results ℝ) : Prop where
  zero : r.zero = List.zipWith (· * ·) units.toList r'.zero
  residual : r'.residual = r.residual
  residualNorm : r'.residualNorm = r.residualNorm
  iterations : r'.iterations = r.iterations
  xConverged : r'.xConverged = r.xConverged
  fConverged : r'.fConverged = r.fConverged
  trace : List.Forall₂ Entry.Rescales r.trace r'.trace

namespace TrustRegion

variable {s s' : SquareSystem ℝ} {o : Options ℝ} {t t' : State ℝ n}

structure State.Rescales (units : Vec ℝ n) (t t' : State ℝ n) : Prop where
  progress : t.progress.Rescales units t'.progress
  scaling : t'.scaling = rescaledWeights units t.scaling
  delta : t'.delta = t.delta

namespace State.Rescales

section Step

variable (nonzero : ∀ j, units.get j ≠ 0) (rescales : t.Rescales units t')
include nonzero rescales

theorem beside : t.Beside (.inUnits nonzero) t' := by
  refine ⟨rescales.progress.x, rescales.progress.fx, rescales.progress.jac, ?_, rescales.delta⟩
  rw [rescales.scaling]
  exact weighs_rescaledWeights nonzero t.scaling

theorem kept (trial : Vec ℝ n) : (t.kept trial).Rescales units (t'.kept trial) := by
  have beside := rescales.beside nonzero
  have progress := rescales.progress
  have rejected : (reject t (t.nextRadius trial)).progress.Rescales units
      (reject t' (t'.nextRadius trial)).progress := by
    refine ⟨progress.x, progress.fx, progress.jac, ?_, ?_, progress.recorder⟩
    · exact congrArg (· + 1) progress.iteration
    · exact congrArg (fun tests => { tests with byStep := false }) progress.tests
  have account : t'.account trial = t.account trial := beside.account trial
  refine ⟨?_, rescales.scaling, beside.nextRadius trial⟩
  simp only [State.kept, account]
  exact rejected.entered 0 0 _

theorem taken (scales : o.autoscale) (never : o.xtol = 0) (trial : Vec ℝ n) (jac : Mat ℝ n n) :
    (t.taken o trial jac).Rescales units (t'.taken o trial (rescaled units jac)) := by
  have beside := rescales.beside nonzero
  have progress := rescales.progress
  have accepted : (accept o t t.trialPoint trial jac (t.nextRadius trial)).1.progress.Rescales units
      (accept o t' t'.trialPoint trial (rescaled units jac)
        (t'.nextRadius trial)).1.progress := by
    refine ⟨beside.trialPoint, rfl, rfl, ?_, ?_, progress.recorder⟩
    · exact congrArg (· + 1) progress.iteration
    · -- No step is short enough, in any units.
      simp [accept, Convergence.assess, Convergence.stepTest, never]
  have account : t'.account trial = t.account trial := beside.account trial
  refine ⟨?_, ?_, beside.nextRadius trial⟩
  · simp only [State.taken, account]
    exact accepted.entered _ _ _
  · simp only [State.taken, accept, scales, if_true, rescales.scaling]
    exact updateScaling_rescaled units jac t.scaling 0.1

end Step

end State.Rescales

theorem step_rescales (nonzero : ∀ j, units.get j ≠ 0) (system : s.Rescales units s')
    (scales : o.autoscale) (never : o.xtol = 0) (rescales : t.Rescales units t') :
    Alike (State.Rescales units) ((step o t).value s.reply) ((step o t').value s'.reply) := by
  have beside := rescales.beside nonzero
  have trials := system.residual t'.trialPoint
  have matrices := system.jacobian t'.trialPoint
  have trialPoint : scaled units t'.trialPoint = t.trialPoint := beside.trialPoint
  rw [trialPoint] at trials matrices
  rw [step_value, step_value]
  refine trials.bind ?_
  rintro _ trial rfl
  have ratio : t'.ratio trial = t.ratio trial := beside.ratio trial
  rw [ratio]
  split
  · refine matrices.bind ?_
    rintro jac _ rfl
    exact .ok (rescales.taken nonzero scales never trial jac)
  · exact .ok (rescales.kept nonzero trial)

theorem first_rescales (nonzero : ∀ j, units.get j ≠ 0) (scales : o.autoscale) (y fx : Vec ℝ n)
    {jac : Mat ℝ n n} (columns : ∀ j, jac.column j ≠ 0) :
    (State.first o (scaled units y) fx jac).Rescales units
      (State.first o y fx (rescaled units jac)) := by
  have scaling : startScaling o.autoscale (rescaled units jac) =
      rescaledWeights units (startScaling o.autoscale jac) := by
    rw [startScaling, if_pos scales, startScaling, if_pos scales,
      initialScaling_rescaled jac nonzero columns]
  have delta : startRadius o.factor (startScaling o.autoscale (rescaled units jac)) y =
      startRadius o.factor (startScaling o.autoscale jac) (scaled units y) := by
    rw [scaling, startRadius, (weighs_rescaledWeights (m := n) nonzero _).norm]
    rfl
  have started : (Progress.start o (scaled units y) fx jac).Rescales units
      (Progress.start o y fx (rescaled units jac)) :=
    ⟨rfl, rfl, rfl, rfl, rfl, rfl, rfl, rfl, .nil⟩
  refine ⟨?_, scaling, delta⟩
  simp only [State.first, delta]
  exact started.entered _ _ _

theorem State.Rescales.results (rescales : t.Rescales units t') (x x' : Vec ℝ n)
    (fCalls jCalls fCalls' jCalls' : Nat) :
    (t.progress.results o name x fCalls jCalls).Rescales units
      (t'.progress.results o name x' fCalls' jCalls') := by
  obtain ⟨x, fx, _, iteration, tests, recorder⟩ := rescales.progress
  refine ⟨?_, ?_, ?_, ?_, ?_, ?_, ?_⟩
  · change t.progress.x.toList = List.zipWith (· * ·) units.toList t'.progress.x.toList
    rw [← x, scaled, Vector.toList_zipWith]
  · exact congrArg Vector.toList fx
  · exact congrArg Vec.maxNorm fx
  · exact congrArg Int.ofNat iteration
  · exact congrArg Convergence.byStep tests
  · exact congrArg Convergence.byResidual tests
  · exact List.forall₂_reverse_iff.mpr recorder.entries

/-- With automatic scaling and no test on the step the units do not matter: after each iteration
the points are the same, and so are residual, tests and radius, ratio and kind of the next step. -/
theorem units_irrelevant (nonzero : ∀ j, units.get j ≠ 0) (system : s.Rescales units s')
    (scales : o.autoscale) (never : o.xtol = 0) {y : Vec ℝ n}
    (columns : ∀ fx jac, s.Yields (.both (scaled units y)) (fx, jac) → ∀ j, jac.column j ≠ 0) :
    (∀ k, Alike (fun t t' => t.Rescales units t' ∧ scaled units t'.move.p = t.move.p ∧
        (∀ trial, t'.account trial = t.account trial) ∧ (t'.Takes s' ↔ t.Takes s))
      (Method.trustRegion.reached s o (scaled units y) k).1
      (Method.trustRegion.reached s' o y k).1) ∧
    Alike (Results.Rescales units) (solveFrom s o .trustRegion (scaled units y)).result
      (solveFrom s' o .trustRegion y).result := by
  have begun : Alike (State.Rescales units)
      ((Method.trustRegion.start o (scaled units y)).value s.reply)
      ((Method.trustRegion.start o y).value s'.reply) := by
    simp only [Method.start, start_value]
    refine (system.both y).known.bind ?_
    rintro ⟨fx, jac⟩ _ ⟨replied, rfl⟩
    exact .ok (first_rescales nonzero scales y fx
      (columns fx jac (SquareSystem.yields_iff.mpr replied)))
  have alike (k : Nat) : Alike (State.Rescales units)
      (Method.trustRegion.reached s o (scaled units y) k).1
      (Method.trustRegion.reached s' o y k).1 := by
    refine @Method.reached_alike _ _ _ _ _ _ s s' o o .trustRegion .trustRegion _ y _ begun ?_ k
    exact fun t t' => step_rescales nonzero system scales never
  refine ⟨fun k => (alike k).weaken fun t t' rescales => ?_, solveFrom_alike alike ?_ rfl ?_⟩
  · have beside := rescales.beside nonzero
    exact ⟨rescales, beside.p, beside.account, beside.takes system.residual⟩
  · intro t t' rescales
    exact congrArg Convergence.any rescales.progress.tests
  · intro t t' rescales f j f' j'
    exact rescales.results _ _ f j f' j'

theorem units_irrelevant_parabola :
    ∃ s s', Presentation.system (.plain true) exactParabola = .ok s ∧
      Presentation.system (.plain true) (exactParabola.inUnits #v[2, -3]) = .ok s' ∧
      ∃ r r', (solveFrom s .standard .trustRegion (scaled #v[2, -3] #v[1, 1])).result = .ok r ∧
        (solveFrom s' .standard .trustRegion #v[1, 1]).result = .ok r' ∧
        r.Rescales #v[2, -3] r' := by
  obtain ⟨s, system, presents, analytic⟩ :=
    Presentation.system_ok (by decide) (.plain true) exactParabola
  obtain ⟨s', system', presents', analytic'⟩ :=
    Presentation.system_ok (by decide) (.plain true) (exactParabola.inUnits #v[2, -3])
  have nonzero (j : Fin 2) : (#v[2, -3] : Vec ℝ 2).get j ≠ 0 := by
    fin_cases j
    · exact two_ne_zero
    · exact neg_ne_zero.mpr three_ne_zero
  -- The second row of the Jacobian has no zero.
  have columns (fx : Vec ℝ 2) (jac : Mat ℝ 2 2)
      (yields : s.Yields (.both (scaled #v[2, -3] #v[1, 1])) (fx, jac)) (j : Fin 2) :
      jac.column j ≠ 0 := by
    have known := (presents.replies _).2.2.symm.trans (SquareSystem.yields_iff.mp yields)
    obtain rfl := congrArg Prod.snd (Except.ok.inj known)
    intro zero
    change (exactParabola.jacobian s.analytic _).column j = 0 at zero
    rw [analytic] at zero
    have entry := congrArg (·.get 1) zero
    rw [column_get, zero_get] at entry
    fin_cases j
    · exact neg_ne_zero.mpr one_ne_zero entry
    · exact one_ne_zero entry
  obtain ⟨_, alike⟩ := units_irrelevant (o := .standard) (y := #v[1, 1]) nonzero
    (Callables.rescales presents presents' analytic analytic') rfl rfl columns
  obtain ⟨r, returned⟩ := solveFrom_ok (s := s) (o := .standard)
    (x := scaled #v[2, -3] #v[1, 1]) presents.replies_isOk
  obtain ⟨r', returned', rescales⟩ := alike.of_ok returned
  exact ⟨s, s', system, system', r, r', returned, returned', rescales⟩

end TrustRegion

end RootFinding
