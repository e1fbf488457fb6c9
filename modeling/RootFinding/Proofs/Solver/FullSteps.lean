import RootFinding.Proofs.Binary64.Bits
import RootFinding.Proofs.Binary64.Scientific
import RootFinding.Proofs.Solver.Failures
import RootFinding.Proofs.Solver.Finiteness
import RootFinding.Proofs.Solver.Stopping

namespace RootFinding

open Scalar

namespace Binary64

open Float.Model Float.Model.UnpackedFloat

theorem one_mul_of_isFinite {a : Float} (finite : a.isFinite) : 1.0 * a = a := by
  have one : decoded 1.0 = .finite .positive (2 ^ 52) (-52) (by decide) := by rfl
  have storable := storable_decoded finite
  apply decoded_injective
  show stored (UnpackedFloat.mul Format.binary64 (decoded 1.0) (decoded a)) = decoded a
  rw [one]
  generalize decoded a = u at storable ⊢
  cases u with
  | notANumber | infinity s => cases storable
  | zero s => cases s <;> rfl
  | finite s m e pos =>
    have canonical : Canonical m e := storable
    have unit : Canonical (2 ^ 52) (-52) := decoded_canonical one
    have product : UnpackedFloat.mul Format.binary64
        (.finite .positive (2 ^ 52) (-52) (by decide)) (.finite s m e pos) = .finite s m e pos := by
      have within : Within m e ((2 ^ 52 : Nat) * 2 ^ (-52 : ℤ) * (m * 2 ^ e)) := by
        have cancels : ((2 ^ 52 : Nat) : ℚ) * 2 ^ (-52 : ℤ) = 1 := by norm_num
        rw [cancels, one_mul]
        exact within_self pos e
      have sign : .positive * s = s := by cases s <;> rfl
      rw [mul_of_within canonical (by decide) pos pos within
        (lastPlace_mul unit canonical (by decide) pos), sign]
    rw [product]
    exact stored_of_canonical s pos canonical

end Binary64

variable {α : Type} [Scalar α] {n : Nat} {s : SquareSystem α}

theorem Except.ok_of_parts {ε β γ : Type} {e : Except ε (β × γ)} {b : β} {c : γ}
    (first : e.map Prod.fst = .ok b) (second : e.map Prod.snd = .ok c) : e = .ok (b, c) := by
  cases e with
  | error failure => cases first
  | ok pair =>
    cases first
    cases second
    rfl

namespace SquareSystem

/-- A combined callable yields values wherever the separate ones do, and the same values. -/
def AgreesBothWays (s : SquareSystem α) (n : Nat) : Prop :=
  s.Agrees n ∧
    match s.sources with
    | .withBoth f (some j) fj => ∀ (x : Vec α n) (fx : Vec α n) (jac : Mat α n n),
      s.ownResidualValue f x.toArray n = .ok fx → s.ownJacobianValue j x.toArray [n, n] = .ok jac →
        (s.ownPairValue (some fj) x.toArray n [n, n]).isOk
    | _ => True

theorem bothValue_of_separate (agree : s.AgreesBothWays n) {x fx : Vec α n} {jac : Mat α n n}
    (residual : s.residualValue x.toArray n = .ok fx) (jacobian : s.jacobianValue x = .ok jac) :
    s.bothValue x = .ok (fx, jac) := by
  obtain ⟨forth, back⟩ := agree
  obtain ⟨convention, sources, dimension⟩ := s
  cases sources with
  | residualOnly f =>
    obtain ⟨base, found, differences⟩ := Except.bind_ok.mp jacobian
    cases residual.symm.trans found
    exact Except.bind_ok.mpr ⟨fx, found, Except.bind_ok.mpr ⟨jac, differences, rfl⟩⟩
  | separate f j =>
    exact Except.bind_ok.mpr ⟨fx, residual, Except.bind_ok.mpr ⟨jac, jacobian, rfl⟩⟩
  | withBoth f j fj =>
    -- Without a callable of its own the Jacobian is read off the combined one.
    have combined : (ownPairValue ⟨convention, .withBoth f j fj, dimension⟩ (some fj) x.toArray n
        [n, n]).isOk := by
      cases j with
      | some j => exact back x fx jac residual jacobian
      | none =>
        obtain ⟨values, found, _⟩ := Except.map_ok.mp jacobian
        exact Except.isOk_iff.mpr ⟨values, found⟩
    obtain ⟨⟨fx', jac'⟩, value⟩ := Except.isOk_iff.mp combined
    obtain ⟨residual', jacobian'⟩ :=
      bothValue_agrees (s := ⟨convention, .withBoth f j fj, dimension⟩) forth value
    cases residual.symm.trans residual'
    cases jacobian.symm.trans jacobian'
    exact value
  | bothOnly fj =>
    obtain ⟨entries, rfl⟩ := x
    exact Except.ok_of_parts residual jacobian

theorem reply_both_of_separate (agree : s.AgreesBothWays n) {x fx : Vec α n} {jac : Mat α n n}
    (residual : s.reply (.residual x) = .ok fx) (jacobian : s.reply (.jacobian x) = .ok jac) :
    s.reply (.both x) = .ok (fx, jac) := by
  obtain ⟨value, finite⟩ := reply_residual_ok.mp residual
  obtain ⟨valueToo, finiteToo⟩ := reply_jacobian_ok.mp jacobian
  exact reply_both_ok.mpr ⟨bothValue_of_separate agree value valueToo, finite, finiteToo⟩

end SquareSystem

theorem newtonDirection_of_kind {jac : Mat α n n} {fx d : Vec α n} {delta : α}
    (full : (doglegStep jac fx d delta).kind = .newton) (iteration : Int) :
    newtonDirection jac fx iteration = .ok (doglegStep jac fx d delta).p ∧
      (doglegStep jac fx d delta).p.allFinite := by
  unfold doglegStep doglegPath at full ⊢
  cases kept : (gaussNewtonStep jac fx).filter fun p => weightedNorm d p ≤ delta with
  | none =>
    rw [kept] at full
    dsimp only at full
    split at full
    · cases full
    · split at full <;> cases full
  | some p =>
    obtain ⟨found, _⟩ := Option.filter_eq_some_iff.mp kept
    obtain ⟨solved, finite⟩ := Option.filter_eq_some_iff.mp found
    refine ⟨?_, finite⟩
    unfold newtonDirection
    rw [solved]
    exact if_pos finite

def Recorder.SamePlain (r r' : Recorder α) : Prop :=
  r'.store = r.store ∧ r'.entries.map Entry.plain = r.entries.map Entry.plain

omit [Scalar α] in
theorem Recorder.SamePlain.holding {r r' : Recorder α} (same : r.SamePlain r') {e e' : Entry α}
    (alike : e'.plain = e.plain) : (r.holding e).SamePlain (r'.holding e') := by
  obtain ⟨store, entries⟩ := same
  refine ⟨store, ?_⟩
  unfold Recorder.holding
  rw [store]
  by_cases stored : r.store = true
  · simp only [stored, if_true, List.map_cons, entries, alike]
  · simp only [stored, Bool.false_eq_true, if_false, entries]

omit [Scalar α] in
theorem Recorder.SamePlain.trace {r r' : Recorder α} (same : r.SamePlain r') :
    r'.trace.map Entry.plain = r.trace.map Entry.plain := by
  unfold Recorder.trace
  rw [List.map_reverse, List.map_reverse, same.2]

/-- Options that differ in what leads to a step, which is always the full one for the others. -/
structure Options.Undamped (o o' : Options α) : Prop where
  xtol : o'.xtol = o.xtol
  ftol : o'.ftol = o.ftol
  iterations : o'.iterations = o.iterations
  storeTrace : o'.storeTrace = o.storeTrace
  lineSearch : o'.lineSearch = .fixed 1

variable {o o' : Options α} {x : Vec α n}

theorem Passes.trace_plain {m : Method} {length : Nat} {states : Nat → m.State α n}
    {ledgers : Nat → Ledger α n} (passes : Passes s o m x length states ledgers)
    (short : o.extendedTrace = false) :
    ∀ k ≤ length, (m.trace (states k)).map Entry.plain = m.trace (states k) := by
  have held {r : Recorder α} {p : Progress α n} (before : r.entries.map Entry.plain = r.entries)
      (stepnorm : α) (more : Extras α) :
      (r.holding (p.entry false stepnorm more)).entries.map Entry.plain =
        (r.holding (p.entry false stepnorm more)).entries := by
    unfold Recorder.holding
    dsimp only
    split
    · rw [List.map_cons, before]
      rfl
    · exact before
  have plain : ∀ k ≤ length, (m.progress (states k)).recorder.entries.map Entry.plain =
      (m.progress (states k)).recorder.entries := by
    intro k
    induction k with
    | zero =>
      intro _
      rw [Method.start_recorder passes.start, short]
      exact held rfl _ _
    | succ k ih =>
      intro within
      obtain ⟨more, _, recorder⟩ := Method.step_recorder (passes.step k within)
      obtain ⟨entries, flags⟩ := passes.recorder k (Nat.le_of_lt within)
      have unextended : (m.progress (states k)).recorder.extended = false := by rw [flags, short]
      rw [recorder, unextended]
      exact held (ih (Nat.le_of_lt within)) _ _
  intro k within
  unfold Method.trace Recorder.trace
  rw [List.map_reverse, plain k within]

structure Progress.Abreast (p q : Progress α n) : Prop where
  same : q = { p with recorder := q.recorder }
  recorder : p.recorder.SamePlain q.recorder

theorem Progress.Abreast.entered {p q : Progress α n} (abreast : p.Abreast q) (stepnorm : α)
    (more more' : Extras α) : (p.entered stepnorm more).Abreast (q.entered stepnorm more') := by
  obtain ⟨same, recorder⟩ := abreast
  refine ⟨?_, ?_⟩
  · rw [same]
    rfl
  · rw [entered_recorder, entered_recorder]
    apply recorder.holding
    rw [same]
    rfl

/-- The states of both methods at one point, with all steps of Newton's method the full ones. -/
structure Abreast (t : TrustRegion.State α n) (u : Newton.State α n) : Prop where
  progress : t.progress.Abreast u.progress
  lineSearch : u.lineSearch = .fixed 1

theorem abreast_start (undamped : o.Undamped o') :
    Alike Abreast ((TrustRegion.start o x).value s.reply) ((Newton.start o' x).value s.reply) := by
  rw [TrustRegion.start_value, Newton.start_value]
  apply (Alike.same (s.reply (.both x))).bind
  rintro pair _ rfl
  refine .ok ⟨?_, undamped.lineSearch⟩
  apply Progress.Abreast.entered
  refine ⟨?_, undamped.storeTrace, rfl⟩
  unfold Progress.start
  rw [undamped.xtol, undamped.ftol]

def TrustRegion.State.TakesFullStep (s : SquareSystem α) (t : TrustRegion.State α n) : Prop :=
  t.move.kind = .newton ∧ t.Takes s

theorem Newton.step_fixed {u : Newton.State α n} {alpha : α} (fixed : u.lineSearch = .fixed alpha)
    (checked : checkStep alpha = .ok alpha) {direction : Vec α n} {known : Vec α n × Mat α n n}
    (directed : newtonDirection u.progress.jac u.progress.fx (u.progress.iteration + 1 : Nat) =
      .ok direction)
    (both : s.reply (.both ((u.merit direction).point alpha)) = .ok known) :
    (Newton.step o u).value s.reply = .ok (u.led o direction alpha known (.fixed alpha)) := by
  have searched : ((u.merit direction).search u.lineSearch (u.slope direction)).value s.reply =
      .ok (alpha, .fixed alpha) := by
    rw [Merit.search_value, fixed]
    rfl
  exact Newton.step_eq_ok.mpr ⟨_, _, _, _, ⟨directed, searched, checked, both⟩, rfl⟩

section Powers

variable [Binary64.Powers] {s : SquareSystem Float} {o o' : Options Float} {x : Vec Float n}

theorem Vec.scale_one {v : Vec Float n} (finite : v.allFinite) : Vec.scale 1 v = v := by
  ext i h
  rw [scale, Vector.getElem_map]
  exact Binary64.one_mul_of_isFinite (Vec.allFinite_iff.mp finite i h)

theorem Newton.checkStep_one : checkStep (1 : Float) = .ok 1 := by
  cases checked : checkStep (1 : Float) with
  | error failure => exact absurd checked (LineSearch.checkStep_inUnit Binary64.inUnit_one failure)
  | ok alpha => rw [Newton.checkStep_eq_ok checked]

theorem abreast_step (agree : s.AgreesBothWays n) (undamped : o.Undamped o')
    {t next : TrustRegion.State Float n} {u : Newton.State Float n} (abreast : Abreast t u)
    (full : t.TakesFullStep s) (stepped : (TrustRegion.step o t).value s.reply = .ok next) :
    ∃ v, (Newton.step o' u).value s.reply = .ok v ∧ Abreast next v := by
  obtain ⟨kind, trial, yields, good⟩ := full
  obtain ⟨⟨same, recorder⟩, lineSearch⟩ := abreast
  have residual := SquareSystem.yields_iff.mp yields
  rw [TrustRegion.step_value, residual] at stepped
  obtain ⟨jac, jacobian, taken⟩ := Except.bind_ok.mp ((if_pos good).symm.trans stepped)
  cases taken
  obtain ⟨q, search⟩ := u
  obtain ⟨r, rfl⟩ : ∃ r, q = { t.progress with recorder := r } := ⟨_, same⟩
  obtain ⟨directed, finite⟩ := newtonDirection_of_kind kind (t.progress.iteration + 1 : Nat)
  have both := SquareSystem.reply_both_of_separate agree residual jacobian
  -- Newton's method scales its direction by one, which changes no entry of it.
  have here : t.trialPoint = t.progress.x + Vec.scale 1 t.move.p :=
    congrArg (t.progress.x + ·) (Vec.scale_one finite).symm
  rw [here] at both
  refine ⟨_, Newton.step_fixed lineSearch Newton.checkStep_one directed both, ?_, rfl⟩
  show Progress.Abreast (Progress.entered _ _ _) (Progress.entered (Newton.State.moved _ _
    (t.progress.x + Vec.scale 1 t.move.p) _ _)
    (t.progress.x + Vec.scale 1 t.move.p - t.progress.x).norm _)
  rw [← here]
  apply Progress.Abreast.entered
  refine ⟨?_, recorder⟩
  unfold Newton.State.moved
  rw [undamped.xtol, undamped.ftol]
  rfl

theorem abreast_passes (agree : s.AgreesBothWays n) (undamped : o.Undamped o') {length : Nat}
    {states : Nat → TrustRegion.State Float n} {ledgers : Nat → Ledger Float n}
    (passes : Passes s o .trustRegion x length states ledgers)
    (full : ∀ k < length, (states k).TakesFullStep s) :
    ∃ (others : Nat → Newton.State Float n) (otherLedgers : Nat → Ledger Float n),
      Passes s o' .newton x length others otherLedgers ∧
        ∀ k ≤ length, Abreast (states k) (others k) := by
  have beside : ∀ k ≤ length, ∃ u, (Method.newton.reached s o' x k).1 = .ok u ∧
      Abreast (states k) u := by
    intro k
    induction k with
    | zero =>
      intro _
      have started := Ledger.value_of_run passes.start
      obtain ⟨u, found, abreast⟩ := (abreast_start undamped).of_ok started
      exact ⟨u, Method.reached_zero_fst.trans found, abreast⟩
    | succ k ih =>
      intro within
      obtain ⟨u, found, abreast⟩ := ih (Nat.le_of_lt within)
      have stepped := Ledger.value_of_run (passes.step k within)
      obtain ⟨v, next, abreast'⟩ := abreast_step agree undamped abreast (full k within) stepped
      refine ⟨v, ?_, abreast'⟩
      rw [Method.reached_succ_fst, found]
      exact next
  obtain ⟨last, reached, _⟩ := beside length (Nat.le_refl length)
  obtain ⟨others, otherLedgers, along, known⟩ :=
    passes_of_reached (Except.isOk_iff.mpr ⟨last, reached⟩)
  refine ⟨others, otherLedgers, along, fun k within => ?_⟩
  obtain ⟨u, found, abreast⟩ := beside k within
  rw [known k within] at found
  cases found
  exact abreast

theorem full_counts {length : Nat} {states : Nat → TrustRegion.State Float n}
    {ledgers : Nat → Ledger Float n} (passes : Passes s o .trustRegion x length states ledgers)
    (full : ∀ k < length, (states k).TakesFullStep s) (analytic : s.analytic)
    {others : Nat → Newton.State Float n} {otherLedgers : Nat → Ledger Float n}
    (along : Passes s o' .newton x length others otherLedgers)
    (fixed : ∀ k ≤ length, (others k).lineSearch = .fixed 1) :
    ((otherLedgers length).session.fCalls : Int) = (ledgers length).session.fCalls ∧
      ((otherLedgers length).session.jCalls : Int) = (ledgers length).session.jCalls := by
  obtain ⟨jacobians, residuals⟩ := passes.counts (Nat.le_refl length)
  obtain ⟨jacobians', residuals'⟩ := along.counts (Nat.le_refl length)
  have accepted : Nat.count (fun k => (states k).Takes s) length = length :=
    Nat.count_iff_forall.mpr fun k less => (full k less).2
  have nothing (k : Nat) (member : k ∈ Finset.range length) : (others k).asked s = [] :=
    Newton.State.asked_fixed (fixed k (Finset.mem_range.mp member).le)
  have trials : ∑ k ∈ Finset.range length, (others k).trials s = 0 :=
    Finset.sum_eq_zero fun k member => congrArg (List.countP _) (nothing k member)
  have slopes : ∑ k ∈ Finset.range length, (others k).slopes s = 0 :=
    Finset.sum_eq_zero fun k member => congrArg (List.countP _) (nothing k member)
  rw [residuals, residuals', jacobians, jacobians', trials, slopes, accepted, if_pos analytic,
    if_pos analytic]
  push_cast
  exact ⟨by ring, by ring⟩

def TrustRegion.TakesFullStepAt (s : SquareSystem Float) (o : Options Float) (x : Vec Float n)
    (k : Nat) : Prop :=
  ∃ t : TrustRegion.State Float n,
    (Method.trustRegion.reached s o x k).1 = .ok t ∧ t.TakesFullStep s

/-- The results of two solves that went the same way with the same evaluations. -/
structure Results.SameCourse (r r' : Results Float) : Prop where
  zero : r'.zero = r.zero
  residual : r'.residual = r.residual
  residualNorm : r'.residualNorm = r.residualNorm
  iterations : r'.iterations = r.iterations
  xConverged : r'.xConverged = r.xConverged
  fConverged : r'.fConverged = r.fConverged
  trace : r'.trace.map Entry.plain = r.trace.map Entry.plain
  fCalls : r'.fCalls = r.fCalls
  jCalls : r'.jCalls = r.jCalls

/-- If the trust-region method takes the full step in each iteration, Newton's method with steps
of length one comes to the same result by the same entries of the trace, at the same cost. -/
theorem full_steps_are_newton (agree : s.AgreesBothWays n) (analytic : s.analytic)
    (undamped : o.Undamped o') {r : Results Float}
    (returned : (solveFrom s o .trustRegion x).result = .ok r)
    (full : ∀ k : Nat, k < r.iterations → TrustRegion.TakesFullStepAt s o x k) :
    ∃ r', (solveFrom s o' .newton x).result = .ok r' ∧ r.SameCourse r' ∧
      (o.extendedTrace = false → o'.extendedTrace = false → r'.trace = r.trace) := by
  obtain ⟨length, states, ledgers, passes, going, bound, reason, rfl⟩ := solveFrom_passes returned
  have counted : (states length).progress.iteration = length :=
    passes.iteration length (Nat.le_refl length)
  have fullSteps : ∀ k < length, (states k).TakesFullStep s := by
    intro k less
    have within : (k : Int) < (states length).progress.iteration := by omega
    obtain ⟨t, found, takes⟩ := full k within
    rw [passes.reached k less.le] at found
    cases found
    exact takes
  obtain ⟨others, otherLedgers, along, abreast⟩ := abreast_passes agree undamped passes fullSteps
  have tests (k : Nat) (within : k ≤ length) :
      (others k).progress.tests = (states k).progress.tests := by
    rw [(abreast k within).progress.same]
  refine ⟨_, solveFrom_of_passes along ?_ ?_ ?_, ?_, ?_⟩
  · intro k less
    show (others k).progress.tests.any = false
    rw [tests k less.le]
    exact going k less
  · rw [undamped.iterations]
    exact bound
  · show (others length).progress.tests.any ∨ _
    rw [tests length (Nat.le_refl length), undamped.iterations]
    exact reason
  · have last := (abreast length (Nat.le_refl length)).progress
    obtain ⟨residuals, jacobians⟩ := full_counts passes fullSteps analytic along fun k within =>
      (abreast k within).lineSearch
    refine ⟨?_, ?_, ?_, ?_, ?_, ?_, last.recorder.trace, residuals, jacobians⟩
    · exact congrArg (fun p => p.x.toList) last.same
    · exact congrArg (fun p => p.fx.toList) last.same
    · exact congrArg (fun p => p.fx.maxNorm) last.same
    · exact congrArg (fun p => (p.iteration : Int)) last.same
    · exact congrArg (fun p => p.tests.byStep) last.same
    · exact congrArg (fun p => p.tests.byResidual) last.same
  · intro short short'
    have same := (abreast length (Nat.le_refl length)).progress.recorder.trace
    exact (along.trace_plain short' length (Nat.le_refl length)).symm.trans
      (same.trans (passes.trace_plain short length (Nat.le_refl length)))

end Powers

def squareRoot : SquareSystem Float where
  convention := .outOfPlace
  sources := .separate
    (some fun p => .ok (.list (p.entries.toList.map fun x => .leaf (x * x - 2.0))))
    fun p => .ok (.list [.list (p.entries.toList.map fun x => .leaf (x + x))])
  dimension := none

def undampedStoring : Options Float := { storing with lineSearch := .fixed 1 }

theorem full_steps_are_newton_squareRoot :
    ∃ r r', (solveFrom squareRoot storing .trustRegion #v[2]).result = .ok r ∧
      (solveFrom squareRoot undampedStoring .newton #v[2]).result = .ok r' ∧
      r.iterations = 4 ∧ r.SameCourse r' ∧ r'.trace = r.trace := by
  have computed : (solveFrom squareRoot storing .trustRegion #v[2]).result.toOption.map
      Results.iterations = some 4 := by
    decide +kernel
  have stepped : ∀ k < 4, ((Method.trustRegion.reached squareRoot storing #v[2] k).1.toOption.map
      fun t => ((TrustRegion.State.move t).kind, decide (TrustRegion.State.Takes squareRoot t))) =
        some (.newton, true) := by
    decide +kernel
  obtain ⟨r, returned, iterations⟩ := Plan.ok_of_toOption computed
  have full (k : Nat) (less : (k : Int) < r.iterations) :
      TrustRegion.TakesFullStepAt squareRoot storing #v[2] k := by
    obtain ⟨t, found, known⟩ := Plan.ok_of_toOption (stepped k (by omega))
    rw [Prod.mk.injEq] at known
    exact ⟨t, found, known.1, of_decide_eq_true known.2⟩
  have undamped : storing.Undamped undampedStoring := ⟨rfl, rfl, rfl, rfl, rfl⟩
  obtain ⟨r', returned', same, traces⟩ := full_steps_are_newton (n := 1) (s := squareRoot)
    ⟨trivial, trivial⟩ rfl undamped returned full
  exact ⟨r, r', returned, returned', iterations, same, traces rfl rfl⟩

end RootFinding
