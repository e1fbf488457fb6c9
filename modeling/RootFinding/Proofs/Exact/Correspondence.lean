import RootFinding.Proofs.Exact.Coordinates
import RootFinding.Proofs.Exact.Replies
import RootFinding.Proofs.Solver.Entries

namespace RootFinding

open Exact

variable {n : Nat}

/-- The second system is the first one in other coordinates. -/
structure SquareSystem.Corresponds (c : Coordinates n n) (s s' : SquareSystem ℝ) : Prop where
  analytic : s'.analytic = s.analytic
  residual : ∀ y : Vec ℝ n, Alike (fun fx fx' : Vec ℝ n => fx' = c.residual fx)
    (s.reply (.residual (c.point y))) (s'.reply (.residual y))
  jacobian : ∀ y : Vec ℝ n, Alike (fun jac jac' : Mat ℝ n n => jac' = c.jacobian jac)
    (s.reply (.jacobian (c.point y))) (s'.reply (.jacobian y))
  both : ∀ y : Vec ℝ n, Alike (fun pair pair' : Vec ℝ n × Mat ℝ n n =>
      pair' = (c.residual pair.1, c.jacobian pair.2))
    (s.reply (.both (c.point y))) (s'.reply (.both y))

noncomputable def Callables.inCoordinates (c : Coordinates n n) (k : Callables ℝ n) :
    Callables ℝ n :=
  .of (fun y => c.residual (k.map (c.point y))) fun y => c.jacobian (k.derivative (c.point y))

theorem Callables.corresponds {c : Coordinates n n} {k : Callables ℝ n} {s s' : SquareSystem ℝ}
    (presents : s.Presents k) (presents' : s'.Presents (k.inCoordinates c)) (analytic : s.analytic)
    (analytic' : s'.analytic) : s.Corresponds c s' := by
  have known (y : Vec ℝ n) := presents.replies (c.point y)
  have known' (y : Vec ℝ n) := presents'.replies y
  simp only [Callables.jacobian, analytic, analytic', if_true] at known known'
  refine ⟨analytic'.trans analytic.symm, fun y => ?_, fun y => ?_, fun y => ?_⟩
  · rw [(known y).1, (known' y).1]
    exact .ok rfl
  · rw [(known y).2.1, (known' y).2.1]
    exact .ok rfl
  · rw [(known y).2.2, (known' y).2.2]
    exact .ok rfl

/-- An extra beside that of a solve in other coordinates. Only those of the iterate, of the residual
and of the gradient depend on the coordinates. -/
inductive Exact.Coordinates.Extra (c : Coordinates n n) :
    String × Datum ℝ → String × Datum ℝ → Prop where
  | point (x : Vec ℝ n) : Extra c ("x", .array (.ofVec (c.point x))) ("x", .array (.ofVec x))
  | residual (fx : Vec ℝ n) :
    Extra c ("fx", .array (.ofVec fx)) ("fx", .array (.ofVec (c.residual fx)))
  | gradient (g : Vec ℝ n) :
    Extra c ("g", .array (.ofVec g)) ("g", .array (.ofVec (c.gradient g)))
  | same {key : String} (value : Datum ℝ) (other : key ∉ ["x", "fx", "g"]) :
    Extra c (key, value) (key, value)

structure Entry.Corresponds (c : Coordinates n n) (e e' : Entry ℝ) : Prop where
  iteration : e'.iteration = e.iteration
  fnorm : e'.fnorm = e.fnorm
  stepnorm : c.Isometric → e'.stepnorm = e.stepnorm
  extras : List.Forall₂ c.Extra e.extras e'.extras

structure Recorder.Corresponds (c : Coordinates n n) (r r' : Recorder ℝ) : Prop where
  store : r'.store = r.store
  shows : r'.shows = r.shows
  extended : r'.extended = r.extended
  entries : List.Forall₂ (Entry.Corresponds c) r.entries r'.entries

structure Progress.Corresponds (c : Coordinates n n) (p p' : Progress ℝ n) : Prop where
  x : c.point p'.x = p.x
  fx : p'.fx = c.residual p.fx
  jac : p'.jac = c.jacobian p.jac
  iteration : p'.iteration = p.iteration
  tests : p'.tests = p.tests
  recorder : p.recorder.Corresponds c p'.recorder

/-- What a result says in other coordinates. The vectors are those of the same points, and the rest
is the same. -/
structure Results.Corresponds (c : Coordinates n n) (r r' : Results ℝ) : Prop where
  method : r'.method = r.method
  initialX : ∃ y, r.initialX = (c.point y).toList ∧ r'.initialX = y.toList
  zero : ∃ y, r.zero = (c.point y).toList ∧ r'.zero = y.toList
  residual : ∃ fx, r.residual = fx.toList ∧ r'.residual = (c.residual fx).toList
  residualNorm : r'.residualNorm = r.residualNorm
  iterations : r'.iterations = r.iterations
  xConverged : r'.xConverged = r.xConverged
  fConverged : r'.fConverged = r.fConverged
  trace : List.Forall₂ (Entry.Corresponds c) r.trace r'.trace
  fCalls : r'.fCalls = r.fCalls
  jCalls : r'.jCalls = r.jCalls

namespace Progress.Corresponds

variable {c : Coordinates n n} {p p' : Progress ℝ n}

theorem gradient (corresponds : p.Corresponds c p') : p'.gradient = c.gradient p.gradient := by
  rw [Progress.gradient, corresponds.fx, corresponds.jac, c.tmulVec_residual]
  rfl

theorem extras (corresponds : p.Corresponds c p') {more : Extras ℝ}
    (other : ∀ item ∈ more, item.1 ∉ ["x", "fx", "g"]) :
    List.Forall₂ c.Extra (p.extras ++ more) (p'.extras ++ more) := by
  have own : List.Forall₂ c.Extra p.extras p'.extras := by
    rw [Progress.extras, Progress.extras, ← corresponds.x, corresponds.fx, corresponds.gradient]
    exact .cons (.point _) (.cons (.residual _) (.cons (.gradient _) .nil))
  refine List.rel_append own ?_
  exact List.forall₂_same.mpr fun item member => .same item.2 (other item member)

theorem entered (corresponds : p.Corresponds c p') {stepnorm stepnorm' : ℝ}
    (lengths : c.Isometric → stepnorm' = stepnorm) {more : Extras ℝ}
    (other : ∀ item ∈ more, item.1 ∉ ["x", "fx", "g"]) :
    (p.entered stepnorm more).Corresponds c (p'.entered stepnorm' more) := by
  have extras := corresponds.extras other
  obtain ⟨x, fx, jac, iteration, tests, store, shows, extended, entries⟩ := corresponds
  refine ⟨x, fx, jac, iteration, tests, ?_⟩
  rw [entered_recorder, entered_recorder]
  refine ⟨store, shows, extended, ?_⟩
  have entry : (p.entry p.recorder.extended stepnorm more).Corresponds c
      (p'.entry p'.recorder.extended stepnorm' more) := by
    refine ⟨congrArg Int.ofNat iteration, ?_, lengths, ?_⟩
    · change p'.fx.maxNorm = p.fx.maxNorm
      rw [fx, c.maxNorm_residual]
    · simp only [Progress.entry, extended]
      split
      · exact extras
      · exact .nil
  simp only [Recorder.holding, store]
  split
  · exact .cons entry entries
  · exact entries

theorem results (corresponds : p.Corresponds c p') (o : Options ℝ) (method : String)
    (y : Vec ℝ n) (fCalls jCalls : Nat) :
    (p.results o method (c.point y) fCalls jCalls).Corresponds c
      (p'.results o method y fCalls jCalls) := by
  obtain ⟨x, fx, _, iteration, tests, recorder⟩ := corresponds
  refine ⟨rfl, ⟨y, rfl, rfl⟩, ⟨p'.x, ?_, rfl⟩, ⟨p.fx, rfl, congrArg Vector.toList fx⟩, ?_, ?_,
    ?_, ?_, List.forall₂_reverse_iff.mpr recorder.entries, rfl, rfl⟩
  · rw [x]
    rfl
  · change p'.fx.maxNorm = p.fx.maxNorm
    rw [fx, c.maxNorm_residual]
  · exact congrArg Int.ofNat iteration
  · exact congrArg Convergence.byStep tests
  · exact congrArg Convergence.byResidual tests

end Progress.Corresponds

theorem Progress.start_corresponds (c : Coordinates n n) (o : Options ℝ) (y fx : Vec ℝ n)
    (jac : Mat ℝ n n) : (Progress.start o (c.point y) fx jac).Corresponds c
      (Progress.start o y (c.residual fx) (c.jacobian jac)) := by
  refine ⟨rfl, rfl, rfl, rfl, ?_, rfl, rfl, rfl, .nil⟩
  simp only [Progress.start, Convergence.assess, Convergence.residualTest, c.maxNorm_residual]
  rfl

theorem Convergence.assess_corresponds {c : Coordinates n n} {xtol : ℝ}
    (lengths : c.Isometric ∨ xtol = 0) (y previous fx : Vec ℝ n) (ftol : ℝ) :
    assess y (some previous) (c.residual fx) xtol ftol =
      assess (c.point y) (some (c.point previous)) fx xtol ftol := by
  have defined (v : Vec ℝ n) : v.anyNaN = false :=
    Vector.any_eq_false.mpr fun _ _ => Bool.false_ne_true
  have step : stepTest y previous xtol = stepTest (c.point y) (c.point previous) xtol := by
    rcases lengths with isometric | rfl
    · rw [stepTest, stepTest, defined, defined, ← c.point_sub, isometric]
    · simp [stepTest]
  simp only [assess, Option.any_some, step, residualTest, c.maxNorm_residual]

/-- Two solves whose states are related after every iteration, at the cost of the same evaluations,
and that end alike. -/
structure Method.Abreast (m : Method) (related : m.State ℝ n → m.State ℝ n → Prop)
    (c : Coordinates n n) (s s' : SquareSystem ℝ) (o : Options ℝ) (x y : Vec ℝ n) : Prop where
  states : ∀ k, Alike related (m.reached s o x k).1 (m.reached s' o y k).1
  counters : ∀ k, (m.reached s o x k).1.isOk →
    (m.reached s o x k).2.session.SameCounts (m.reached s' o y k).2.session
  results : Alike (Results.Corresponds c) (solveFrom s o m x).result (solveFrom s' o m y).result

theorem Method.abreast {m : Method} {related : m.State ℝ n → m.State ℝ n → Prop}
    {c : Coordinates n n} {s s' : SquareSystem ℝ} {o : Options ℝ} {y : Vec ℝ n}
    (alike : ∀ k, Alike related (m.reached s o (c.point y) k).1 (m.reached s' o y k).1)
    (progress : ∀ t t', related t t' → (m.progress t).Corresponds c (m.progress t'))
    (counts : ∀ length states ledgers states' ledgers',
      Passes s o m (c.point y) length states ledgers → Passes s' o m y length states' ledgers' →
        (∀ k ≤ length, related (states k) (states' k)) →
          (ledgers length).session.SameCounts (ledgers' length).session) :
    m.Abreast related c s s' o (c.point y) y := by
  refine ⟨alike, fun k fine => ?_, solveFrom_abreast alike ?_ rfl ?_⟩
  · obtain ⟨states, ledgers, passes, known⟩ := passes_of_reached fine
    obtain ⟨states', ledgers', passes', holds⟩ := passes.alike alike
    rw [known k (Nat.le_refl k), passes'.reached k (Nat.le_refl k)]
    exact counts k states ledgers states' ledgers' passes passes' holds
  · exact fun t t' holds => congrArg Convergence.any (progress t t' holds).tests
  · intro length states ledgers states' ledgers' passes passes' holds
    obtain ⟨residuals, jacobians⟩ :=
      counts length states ledgers states' ledgers' passes passes' holds
    rw [residuals, jacobians]
    exact (progress _ _ (holds length (Nat.le_refl length))).results o m.name y _ _

namespace TrustRegion

variable {c : Coordinates n n} {s s' : SquareSystem ℝ} {t t' : State ℝ n}

/-- The states stand at the same point, with a region of the same points around it. -/
structure State.Beside (c : Coordinates n n) (t t' : State ℝ n) : Prop where
  x : c.point t'.progress.x = t.progress.x
  fx : t'.progress.fx = c.residual t.progress.fx
  jac : t'.progress.jac = c.jacobian t.progress.jac
  weighs : c.Weighs t.scaling t'.scaling
  delta : t'.delta = t.delta

namespace State.Beside

variable (beside : t.Beside c t')
include beside

theorem move : t.move = ⟨c.point t'.move.p, t'.move.kind, t'.move.singular⟩ := by
  have same := beside.weighs.step t.progress.jac t.progress.fx t.delta
  simp only [State.move, beside.jac, beside.fx, beside.delta]
  exact same

theorem p : c.point t'.move.p = t.move.p := by
  rw [beside.move]

theorem trialPoint : c.point t'.trialPoint = t.trialPoint := by
  rw [State.trialPoint, c.point_add, beside.x, beside.p]
  rfl

theorem model : t'.model = c.residual t.model := by
  rw [State.model, beside.fx, beside.jac, c.model, beside.p]
  rfl

theorem ratio (trial : Vec ℝ n) : t'.ratio (c.residual trial) = t.ratio trial := by
  simp only [State.ratio, reductionRatio, beside.fx, beside.model, c.dot_residual]

theorem nextRadius (trial : Vec ℝ n) : t'.nextRadius (c.residual trial) = t.nextRadius trial := by
  rw [State.nextRadius, beside.ratio, beside.delta, beside.weighs.norm, beside.p]
  rfl

theorem account (trial : Vec ℝ n) : t'.account (c.residual trial) = t.account trial := by
  rw [State.account, State.account, beside.ratio, beside.delta, beside.move]

theorem takes (trials : ∀ y : Vec ℝ n, Alike (fun fx fx' : Vec ℝ n => fx' = c.residual fx)
    (s.reply (.residual (c.point y))) (s'.reply (.residual y))) : t'.Takes s' ↔ t.Takes s := by
  have tried := trials t'.trialPoint
  rw [beside.trialPoint] at tried
  constructor
  · rintro ⟨trial, yields, good⟩
    obtain ⟨_, replied, rfl⟩ := tried.flip.of_ok (SquareSystem.yields_iff.mp yields)
    rw [beside.ratio] at good
    exact ⟨_, SquareSystem.yields_iff.mpr replied, good⟩
  · rintro ⟨trial, yields, good⟩
    obtain ⟨_, replied, rfl⟩ := tried.of_ok (SquareSystem.yields_iff.mp yields)
    rw [← beside.ratio] at good
    exact ⟨_, SquareSystem.yields_iff.mpr replied, good⟩

end State.Beside

end TrustRegion

end RootFinding
