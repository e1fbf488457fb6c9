import RootFinding.Proofs.Solver.Report
import RootFinding.Proofs.LineSearch.MeritFunction

namespace RootFinding

variable {α : Type} {n : Nat}

namespace MeritRequest

def evaluates [Scalar α] : MeritRequest α → Bool
  | value alpha => !(alpha == 0)
  | _ => false

def isSlope : MeritRequest α → Bool
  | slope _ => true
  | _ => false

end MeritRequest

/-- The counters after and before, which differ by so many residuals and Jacobians. -/
def Session.Gains (before after : Session α n) (f j : Nat) : Prop :=
  after.fCalls = before.fCalls + f ∧ after.jCalls = before.jCalls + j

theorem Session.Gains.trans {first second third : Session α n} {f f' j j' : Nat}
    (before : first.Gains second f j) (after : second.Gains third f' j') :
    first.Gains third (f + f') (j + j') := by
  simp only [Gains] at before after ⊢
  omega

theorem Session.gains_nothing (session : Session α n) : session.Gains session 0 0 := ⟨rfl, rfl⟩

def Session.SameCounts (session session' : Session α n) : Prop :=
  session'.fCalls = session.fCalls ∧ session'.jCalls = session.jCalls

theorem Session.Gains.sameCounts {before after after' : Session α n} {f j : Nat}
    (gains : before.Gains after f j) (gains' : before.Gains after' f j) :
    after.SameCounts after' :=
  ⟨gains'.1.trans gains.1.symm, gains'.2.trans gains.2.symm⟩

variable [Scalar α] {s : SquareSystem α} {o : Options α}

def SquareSystem.combined (s : SquareSystem α) (n : Nat) : Nat := if s.analytic then 1 else n + 1

def SquareSystem.alone (s : SquareSystem α) (n : Nat) : Nat := if s.analytic then 0 else n + 1

theorem Ledger.answer_gains {q : Request α n} {r : q.Answer} {ledger after : Ledger α n}
    (answered : answer s q ledger = (.ok r, after)) :
    ledger.session.Gains after.session (q.counts s.analytic).1 (q.counts s.analytic).2 :=
  (SquareSystem.yields_of_answer answered).2

namespace Merit

variable {merit : Merit α n} {β : Type}

theorem request_gains {q : MeritRequest α} {r : q.Answer} {ledger after : Ledger α n}
    (ran : (merit.serve q).run (Ledger.answer s) ledger = (.ok r, after)) :
    ledger.session.Gains after.session
      ((if q.evaluates then 1 else 0) + s.combined n * if q.isSlope then 1 else 0)
      (if q.isSlope then 1 else 0) := by
  cases q with
  | value alpha =>
    simp only [serve, value] at ran
    split at ran
    · rename_i zero
      cases ran
      simp only [MeritRequest.evaluates, zero, MeritRequest.isSlope]
      exact Session.gains_nothing _
    · rename_i other
      obtain ⟨fx, between, answered, rest⟩ := Plan.run_bind_ok.mp ran
      cases rest
      rw [Solver.residual, Plan.run_request] at answered
      simp only [MeritRequest.evaluates, Bool.eq_false_iff.mpr other, MeritRequest.isSlope]
      exact Ledger.answer_gains answered
  | slope alpha =>
    obtain ⟨pair, between, answered, rest⟩ := Plan.run_bind_ok.mp ran
    cases rest
    rw [Solver.both, Plan.run_request] at answered
    simp only [MeritRequest.evaluates, MeritRequest.isSlope, Bool.false_eq_true, if_false,
      if_true, Nat.zero_add, Nat.mul_one]
    exact Ledger.answer_gains answered
  | note m =>
    cases ran
    exact Session.gains_nothing _

theorem serve_gains {p : Search α β} {b : β} {ledger after : Ledger α n}
    (ran : (Plan.serve merit.serve p).run (Ledger.answer s) ledger = (.ok b, after)) :
    let asked := Plan.requests (merit.function s).reply p
    ledger.session.Gains after.session
      (asked.countP (·.evaluates) + s.combined n * asked.countP (·.isSlope))
      (asked.countP (·.isSlope)) := by
  induction p generalizing ledger with
  | done b =>
    cases ran
    exact Session.gains_nothing _
  | fail e => cases ran
  | ask q k ih =>
    obtain ⟨r, between, answered, rest⟩ := Plan.run_bind_ok.mp ran
    have known : (merit.function s).reply q = .ok r := by
      have value := Ledger.value_of_run answered
      cases q with
      | value alpha | slope alpha => exact value
      | note m => rfl
    have whole := (request_gains answered).trans (ih r rest)
    simp only [Plan.requests, known, List.countP_cons]
    simp only [Session.Gains, Nat.mul_add] at whole ⊢
    omega

end Merit

namespace Newton

def State.asked (s : SquareSystem α) (t : State α n) : List (MeritRequest α) :=
  match newtonDirection t.progress.jac t.progress.fx (t.progress.iteration + 1 : Nat) with
  | .error _ => []
  | .ok direction =>
    let merit : Merit α n := ⟨t.progress.x, direction, Merit.halfSquare t.progress.fx⟩
    Plan.requests (merit.function s).reply
      (t.lineSearch.search merit.phi0 (Vec.dot t.progress.gradient direction) direction.norm)

theorem State.asked_fixed {t : State α n} {alpha : α} (fixed : t.lineSearch = .fixed alpha) :
    t.asked s = [] := by
  unfold asked
  rw [fixed]
  split <;> rfl

def State.trials (s : SquareSystem α) (t : State α n) : Nat := (t.asked s).countP (·.evaluates)

def State.slopes (s : SquareSystem α) (t : State α n) : Nat := (t.asked s).countP (·.isSlope)

theorem recorded_session {p q : Progress α n} {stepnorm alpha : α} {ledger after : Ledger α n}
    (ran : (recorded p stepnorm alpha).run (Ledger.answer s) ledger = (.ok q, after)) :
    after.session = ledger.session := by
  simp only [recorded] at ran
  split at ran
  · obtain ⟨noted, between, told, rest⟩ := Plan.run_bind_ok.mp ran
    rw [Solver.note, Plan.run_request] at told
    cases told
    cases rest
    rfl
  · cases ran
    rfl

theorem start_gains {x : Vec α n} {t : State α n} {ledger after : Ledger α n}
    (ran : (start o x).run (Ledger.answer s) ledger = (.ok t, after)) :
    ledger.session.Gains after.session (s.combined n) 1 := by
  obtain ⟨pair, called, answered, rest⟩ := Plan.run_bind_ok.mp ran
  obtain ⟨p, final, written, ended⟩ := Plan.run_bind_ok.mp rest
  rw [Plan.run_pure] at ended
  cases ended
  rw [Solver.both, Plan.run_request] at answered
  rw [recorded_session written]
  exact Ledger.answer_gains answered

theorem step_gains {t next : State α n} {ledger after : Ledger α n}
    (ran : (step o t).run (Ledger.answer s) ledger = (.ok next, after)) :
    ledger.session.Gains after.session (t.trials s + s.combined n * t.slopes s + s.combined n)
      (t.slopes s + 1) := by
  simp only [step] at ran
  obtain ⟨direction, directed, found, rest⟩ := Plan.run_bind_ok.mp ran
  obtain ⟨⟨chosen, lineSearch⟩, searched, searching, rest⟩ := Plan.run_bind_ok.mp rest
  obtain ⟨alpha, checked, checking, rest⟩ := Plan.run_bind_ok.mp rest
  obtain ⟨pair, called, answered, rest⟩ := Plan.run_bind_ok.mp rest
  obtain ⟨p, final, written, ended⟩ := Plan.run_bind_ok.mp rest
  rw [Plan.run_pure] at ended
  cases ended
  rw [Solver.both, Plan.run_request] at answered
  rw [recorded_session written]
  obtain ⟨solution, rfl⟩ := ofExcept_run found
  obtain ⟨_, rfl⟩ := ofExcept_run checking
  have search := Merit.serve_gains searching
  rw [State.trials, State.slopes, State.asked, solution]
  exact search.trans (Ledger.answer_gains answered)

end Newton

namespace TrustRegion

theorem start_gains {x : Vec α n} {t : State α n} {ledger after : Ledger α n}
    (ran : (start o x).run (Ledger.answer s) ledger = (.ok t, after)) :
    ledger.session.Gains after.session (s.combined n) 1 := by
  obtain ⟨pair, called, answered, rest⟩ := Plan.run_bind_ok.mp ran
  obtain ⟨p, final, written, ended⟩ := Plan.run_bind_ok.mp rest
  rw [Plan.run_pure] at ended
  cases ended
  rw [Solver.both, Plan.run_request] at answered
  rw [(recorded_run written).2]
  exact Ledger.answer_gains answered

theorem settle_gains {t next : State α n} {trial : Vec α n} {ledger after : Ledger α n}
    (ran : (settle o t trial).run (Ledger.answer s) ledger = (.ok next, after)) :
    ledger.session.Gains after.session
      (if acceptRatio < t.ratio trial then s.alone n else 0)
      (if acceptRatio < t.ratio trial then 1 else 0) := by
  simp only [settle] at ran
  split at ran
  · rename_i good
    obtain ⟨jac, called, answered, rest⟩ := Plan.run_bind_ok.mp ran
    obtain ⟨reached, same, accepted, recording⟩ := Plan.run_bind_ok.mp rest
    obtain ⟨p, final, written, ended⟩ := Plan.run_bind_ok.mp recording
    rw [Plan.run_pure] at accepted ended
    cases accepted
    cases ended
    rw [Solver.jacobian, Plan.run_request] at answered
    rw [(recorded_run written).2, if_pos good, if_pos good]
    exact Ledger.answer_gains answered
  · rename_i poor
    obtain ⟨reached, same, rejected, recording⟩ := Plan.run_bind_ok.mp ran
    obtain ⟨p, final, written, ended⟩ := Plan.run_bind_ok.mp recording
    rw [Plan.run_pure] at rejected ended
    cases rejected
    cases ended
    rw [(recorded_run written).2, if_neg poor, if_neg poor]
    exact Session.gains_nothing _

theorem step_gains {t next : State α n} {ledger after : Ledger α n}
    (ran : (step o t).run (Ledger.answer s) ledger = (.ok next, after)) :
    ledger.session.Gains after.session (1 + if t.Takes s then s.alone n else 0)
      (if t.Takes s then 1 else 0) := by
  rw [step_eq] at ran
  obtain ⟨told, noted, noting, rest⟩ := Plan.run_bind_ok.mp ran
  obtain ⟨trial, tried, answered, rest⟩ := Plan.run_bind_ok.mp rest
  rw [Solver.residual, Plan.run_request] at answered
  have quiet := noted_session noting
  have takes : t.Takes s ↔ acceptRatio < t.ratio trial := by
    have yields := (SquareSystem.yields_of_answer answered).1
    constructor
    · rintro ⟨other, yieldsToo, good⟩
      rw [yieldsToo.unique yields] at good
      exact good
    · exact fun good => ⟨trial, yields, good⟩
  simp only [takes]
  rw [← quiet]
  refine Eq.mp ?_ ((Ledger.answer_gains answered).trans (settle_gains rest))
  simp only [Request.counts, Nat.zero_add]

end TrustRegion

theorem TrustRegion.passes_gains {x : Vec α n} {length : Nat} {states : Nat → State α n}
    {ledgers : Nat → Ledger α n} (passes : Passes s o .trustRegion x length states ledgers) {k : Nat}
    (within : k ≤ length) :
    let accepted := Nat.count (fun i => (states i).Takes s) k
    Session.fresh.Gains (ledgers k).session (s.combined n + k + s.alone n * accepted)
      (1 + accepted) := by
  induction k with
  | zero =>
    rw [Nat.count_zero]
    exact start_gains passes.start
  | succ k ih =>
    have gains := (ih (by omega)).trans (step_gains (passes.step k within))
    rw [Nat.count_succ]
    by_cases takes : (states k).Takes s
    · simp only [Session.Gains, takes, if_true, Nat.mul_add] at gains ⊢
      omega
    · simp only [Session.Gains, takes, if_false, Nat.add_zero] at gains ⊢
      omega

theorem Newton.passes_gains {x : Vec α n} {length : Nat} {states : Nat → State α n}
    {ledgers : Nat → Ledger α n} (passes : Passes s o .newton x length states ledgers) {k : Nat}
    (within : k ≤ length) :
    let trials := ∑ i ∈ Finset.range k, (states i).trials s
    let slopes := ∑ i ∈ Finset.range k, (states i).slopes s
    Session.fresh.Gains (ledgers k).session (s.combined n * (1 + k + slopes) + trials)
      (1 + k + slopes) := by
  induction k with
  | zero =>
    simp only [Finset.sum_range_zero, Nat.add_zero, Nat.mul_one]
    exact start_gains passes.start
  | succ k ih =>
    have gains := (ih (by omega)).trans (step_gains (passes.step k within))
    simp only [Session.Gains, Finset.sum_range_succ, Nat.mul_add, Nat.mul_one] at gains ⊢
    omega

theorem TrustRegion.passes_sameCounts {s' : SquareSystem α} {o' : Options α} {x x' : Vec α n}
    {length length' : Nat} {states states' : Nat → State α n} {ledgers ledgers' : Nat → Ledger α n}
    (analytic : s'.analytic = s.analytic) (passes : Passes s o .trustRegion x length states ledgers)
    (passes' : Passes s' o' .trustRegion x' length' states' ledgers') {k : Nat}
    (within : k ≤ length) (within' : k ≤ length')
    (takes : ∀ i < k, ((states' i).Takes s' ↔ (states i).Takes s)) :
    (ledgers k).session.SameCounts (ledgers' k).session := by
  have accepted : Nat.count (fun i => (states' i).Takes s') k =
      Nat.count (fun i => (states i).Takes s) k := by
    rw [Nat.count_eq_card_filter_range, Nat.count_eq_card_filter_range]
    exact congrArg Finset.card
      (Finset.filter_congr fun i member => takes i (Finset.mem_range.mp member))
  have gains := passes_gains passes within
  have gains' := passes_gains passes' within'
  simp only [accepted, SquareSystem.combined, SquareSystem.alone, analytic] at gains'
  exact gains.sameCounts gains'

theorem Newton.passes_sameCounts {s' : SquareSystem α} {o' : Options α} {x x' : Vec α n}
    {length length' : Nat} {states states' : Nat → State α n} {ledgers ledgers' : Nat → Ledger α n}
    (analytic : s'.analytic = s.analytic) (passes : Passes s o .newton x length states ledgers)
    (passes' : Passes s' o' .newton x' length' states' ledgers') {k : Nat}
    (within : k ≤ length) (within' : k ≤ length')
    (asked : ∀ i < k, (states' i).asked s' = (states i).asked s) :
    (ledgers k).session.SameCounts (ledgers' k).session := by
  have trials : ∑ i ∈ Finset.range k, (states' i).trials s' =
      ∑ i ∈ Finset.range k, (states i).trials s :=
    Finset.sum_congr rfl fun i member =>
      congrArg (List.countP MeritRequest.evaluates) (asked i (Finset.mem_range.mp member))
  have slopes : ∑ i ∈ Finset.range k, (states' i).slopes s' =
      ∑ i ∈ Finset.range k, (states i).slopes s :=
    Finset.sum_congr rfl fun i member =>
      congrArg (List.countP MeritRequest.isSlope) (asked i (Finset.mem_range.mp member))
  have gains := passes_gains passes within
  have gains' := passes_gains passes' within'
  simp only [trials, slopes, SquareSystem.combined, analytic] at gains'
  exact gains.sameCounts gains'

/-- What the counters are after so many iterations. -/
def Method.Counts (s : SquareSystem α) : (m : Method) → (Nat → m.State α n) → (k : Nat) →
    (f j : Int) → Prop
  | trustRegion, states, k, f, j =>
    let accepted : Nat := Nat.count (fun i => TrustRegion.State.Takes s (states i)) k
    j = 1 + accepted ∧ f = if s.analytic then 1 + k else (n + 1) * (1 + accepted) + k
  | newton, states, k, f, j =>
    let trials : Nat := ∑ i ∈ Finset.range k, Newton.State.trials s (states i)
    let slopes : Nat := ∑ i ∈ Finset.range k, Newton.State.slopes s (states i)
    let c : Nat := if s.analytic then 1 else n + 1
    j = 1 + k + slopes ∧ f = c * (1 + k + slopes) + trials

variable {m : Method} {x : Vec α n} {length : Nat} {states : Nat → m.State α n}
  {ledgers : Nat → Ledger α n}

theorem Passes.counts (passes : Passes s o m x length states ledgers) {k : Nat}
    (within : k ≤ length) :
    m.Counts s states k (ledgers k).session.fCalls (ledgers k).session.jCalls := by
  cases m with
  | trustRegion =>
    obtain ⟨residuals, jacobians⟩ := TrustRegion.passes_gains passes within
    simp only [Session.fresh, Nat.zero_add] at residuals jacobians
    refine ⟨by rw [jacobians]; push_cast; rfl, ?_⟩
    rw [residuals, SquareSystem.combined, SquareSystem.alone]
    split
    · push_cast
      ring
    · push_cast
      ring
  | newton =>
    obtain ⟨residuals, jacobians⟩ := Newton.passes_gains passes within
    simp only [Session.fresh, Nat.zero_add] at residuals jacobians
    refine ⟨by rw [jacobians]; push_cast; rfl, ?_⟩
    rw [residuals, SquareSystem.combined]
    push_cast
    rfl

theorem Passes.iteration (passes : Passes s o m x length states ledgers) :
    ∀ k ≤ length, (m.progress (states k)).iteration = k := by
  refine passes.induct (motive := fun k state => (m.progress state).iteration = k) (fun ran => ?_)
    fun k _ ran before => ?_
  · cases m with
    | trustRegion => exact (TrustRegion.start_cases ran).2.2.1
    | newton => exact (Newton.start_cases ran).2.2.1
  · cases m with
    | trustRegion =>
      obtain ⟨_, _, _, iteration, _⟩ := TrustRegion.step_cases ran
      exact iteration.trans (congrArg (· + 1) before)
    | newton => exact (Newton.step_cases ran).2.1.trans (congrArg (· + 1) before)

def SquareSystem.calls (s : SquareSystem α) : Request α n → List (Call α)
  | .residual x => s.residualCalls x.toArray
  | .jacobian x => s.jacobianCalls x
  | .both x => s.bothCalls x
  | .note _ => []

omit [Scalar α] in
theorem Ledger.evaluated_calls {γ δ : Type} {e : Evaluation α n [n, n] Unit}
    {v : Except (Failure α) γ} {put : γ → Desk α n [n, n] → Desk α n [n, n]}
    {made : List (Call α)} (puts : e.Puts v put made)
    (kept : ∀ c desk, (put c desk).calls = desk.calls) (f j : Nat) {check : SessionM α n Unit}
    (looks : ∀ session, (check.run session).2 = session) (look : Desk α n [n, n] → δ)
    (ledger : Ledger α n) :
    let answered := ledger.evaluated (do
      Session.count f j
      Session.evaluate e
      check) look
    answered.1.isOk → answered.2.session.desk.calls = made ++ ledger.session.desk.calls := by
  simp only [evaluated, Session.counted_run]
  obtain ⟨c, rfl, ended⟩ | ⟨failure, after, rfl, ended⟩ := puts.ends ledger.session.desk
  · rw [ended]
    exact fun _ => (congrArg (·.desk.calls) (looks _)).trans (kept _ _)
  · rw [ended]
    intro fine
    cases fine

theorem Session.checkBoth_run (x : Vec α n) (session : Session α n) :
    ((do
      checkResidual x.toArray
      checkJacobian x.toArray : SessionM α n Unit).run session).2 = session := by
  simp only [Evaluation.run_bind, checkResidual_run, checkJacobian_run]
  cases Vec.required x session.desk.residual <;> rfl

theorem Ledger.answer_calls {q : Request α n} {r : q.Answer} {ledger after : Ledger α n}
    (answered : answer s q ledger = (.ok r, after)) :
    after.session.desk.calls = s.calls q ++ ledger.session.desk.calls := by
  have fine : (answer s q ledger).1.isOk := by
    rw [answered]
    rfl
  have made : (answer s q ledger).2.session.desk.calls =
      s.calls q ++ ledger.session.desk.calls := by
    cases q with
    | residual x =>
      exact evaluated_calls (s.residual_puts x.toArray) (fun _ _ => rfl) 1 0
        (fun session => by rw [Session.checkResidual_run]) _ ledger fine
    | jacobian x =>
      exact evaluated_calls (s.jacobian_puts x) (fun _ _ => rfl) (if s.analytic then 0 else n + 1) 1
        (fun session => by rw [Session.checkJacobian_run]) _ ledger fine
    | both x =>
      exact evaluated_calls (s.both_puts x) (fun _ _ => rfl) (if s.analytic then 1 else n + 1) 1
        (Session.checkBoth_run x) (fun desk => (desk.residual, desk.jacobian)) ledger fine
    | note m => rfl
  rw [answered] at made
  exact made

theorem TrustRegion.step_calls {t next : TrustRegion.State α n} {ledger after : Ledger α n}
    (ran : (TrustRegion.step o t).run (Ledger.answer s) ledger = (.ok next, after))
    (rejects : ¬ t.Takes s) : after.session.desk.calls =
      s.residualCalls t.trialPoint.toArray ++ ledger.session.desk.calls := by
  rw [step_eq] at ran
  obtain ⟨told, noted, noting, rest⟩ := Plan.run_bind_ok.mp ran
  obtain ⟨trial, tried, answered, rest⟩ := Plan.run_bind_ok.mp rest
  rw [Solver.residual, Plan.run_request] at answered
  have quiet := noted_session noting
  have made : tried.session.desk.calls =
      s.residualCalls t.trialPoint.toArray ++ noted.session.desk.calls :=
    Ledger.answer_calls answered
  obtain ⟨_, _, taken | ⟨_, same⟩⟩ := settle_cases rest
  · exact absurd ⟨trial, (SquareSystem.yields_of_answer answered).1, taken.ratio⟩ rejects
  · rw [same, made, quiet]

def Sources.complete : Sources α → Bool
  | residualOnly _ | separate .. | withBoth _ (some _) _ => true
  | _ => false

/-- The counters are those of the calls, except for Jacobians without a callable. -/
def Sources.Tallies (sources : Sources α) (calls : List (Call α)) (f j : Int) : Prop :=
  sources.complete → f = callCount calls .f + callCount calls .fj ∧
    (sources.analytic → j = callCount calls .j + callCount calls .fj)

omit [Scalar α] in
theorem callCount_reverse (calls : List (Call α)) (name : CallableName) :
    callCount calls.reverse name = callCount calls name :=
  List.countP_reverse

omit [Scalar α] in
theorem callCount_append (calls later : List (Call α)) (name : CallableName) :
    callCount (calls ++ later) name = callCount calls name + callCount later name :=
  List.countP_append

theorem callCount_differenceCalls (x : Vec α n) (name : CallableName) :
    callCount (SquareSystem.differenceCalls x n) name = if name = .f then n else 0 := by
  rw [callCount, SquareSystem.differenceCalls, List.countP_reverse, List.countP_map, Nat.sub_self,
    List.drop_zero]
  cases name <;> simp [Function.comp_def]

theorem SquareSystem.callCount_calls (complete : s.sources.complete) (q : Request α n) :
    callCount (s.calls q) .f + callCount (s.calls q) .fj = (q.counts s.analytic).1 ∧
      (s.analytic →
        callCount (s.calls q) .j + callCount (s.calls q) .fj = (q.counts s.analytic).2) := by
  obtain ⟨convention, sources, dimension⟩ := s
  rcases sources with f | ⟨f, j⟩ | ⟨f, _ | j, fj⟩ | fj
  · have quotients (x : Vec α n) (calls : List (Call α)) :
        callCount (differenceCalls x n ++ calls) .f + callCount (differenceCalls x n ++ calls) .fj =
          n + (callCount calls .f + callCount calls .fj) := by
      simp only [callCount_append, callCount_differenceCalls, if_true, reduceCtorEq, if_false]
      omega
    cases q with
    | residual x | note m => exact ⟨rfl, fun none => nomatch none⟩
    | jacobian x | both x => exact ⟨quotients x _, fun none => nomatch none⟩
  · cases q <;> exact ⟨rfl, fun _ => rfl⟩
  · cases complete
  · cases q <;> exact ⟨rfl, fun _ => rfl⟩
  · cases complete

theorem Ledger.answer_tallies (q : Request α n) (ledger : Ledger α n) (r : q.Answer)
    (after : Ledger α n)
    (before : s.sources.Tallies ledger.session.desk.calls ledger.session.fCalls
      ledger.session.jCalls) (answered : answer s q ledger = (.ok r, after)) :
    s.sources.Tallies after.session.desk.calls after.session.fCalls after.session.jCalls := by
  intro complete
  obtain ⟨residuals, jacobians⟩ := before complete
  obtain ⟨same, sameToo⟩ := SquareSystem.callCount_calls complete q
  obtain ⟨fCalls, jCalls⟩ := answer_gains answered
  simp only [answer_calls answered, callCount_append]
  refine ⟨by omega, fun analytic => ?_⟩
  have known := jacobians analytic
  have added := sameToo analytic
  omega

omit [Scalar α] in
theorem Sources.tallies_reverse {sources : Sources α} {calls : List (Call α)} {f j : Int} :
    sources.Tallies calls.reverse f j ↔ sources.Tallies calls f j := by
  simp only [Tallies, callCount_reverse]

omit [Scalar α] in
theorem Sources.tallies_nothing (sources : Sources α) : sources.Tallies [] 0 0 :=
  fun _ => ⟨rfl, fun _ => rfl⟩

theorem Passes.tallies (passes : Passes s o m x length states ledgers) {k : Nat}
    (within : k ≤ length) :
    s.sources.Tallies (ledgers k).session.desk.calls (ledgers k).session.fCalls
      (ledgers k).session.jCalls := by
  induction k with
  | zero =>
    exact Plan.run_kept Ledger.answer_tallies passes.start (Sources.tallies_nothing _)
  | succ k ih =>
    exact Plan.run_kept Ledger.answer_tallies (passes.step k within) (ih (by omega))

theorem solveFrom_tallies {r : Results α} (returned : (solveFrom s o m x).result = .ok r) :
    s.sources.Tallies (solveFrom s o m x).calls r.fCalls r.jCalls := by
  rw [solveFrom_calls, Sources.tallies_reverse]
  rw [solveFrom_result] at returned
  rcases ran : (m.run o x).run (Ledger.answer s) (.begun s m) with ⟨failure | p, after⟩
  · rw [ran] at returned
    cases returned
  · rw [ran] at returned
    cases returned
    exact Plan.run_kept Ledger.answer_tallies ran (Sources.tallies_nothing _)

/-- After every iteration, and so in every result, the counters say how much work was done: one
residual and Jacobian at the start, and then by the trust-region method a residual for each
iteration and a Jacobian for each that takes its step, by Newton's method both for each iteration
and for each slope of its line searches, and a residual for each trial. -/
theorem counters_count_work (s : SquareSystem α) (o : Options α) (m : Method) (x : Vec α n) :
    (∀ length (states : Nat → m.State α n) ledgers, Passes s o m x length states ledgers →
      ∀ k ≤ length, m.Counts s states k (ledgers k).session.fCalls (ledgers k).session.jCalls ∧
        s.sources.Tallies (ledgers k).session.desk.calls (ledgers k).session.fCalls
          (ledgers k).session.jCalls) ∧
    ∀ r, (solveFrom s o m x).result = .ok r →
      (∃ length states ledgers, Passes s o m x length states ledgers ∧ r.iterations = length ∧
        m.Counts s states length r.fCalls r.jCalls) ∧
      s.sources.Tallies (solveFrom s o m x).calls r.fCalls r.jCalls := by
  refine ⟨fun length states ledgers passes k within => ⟨passes.counts within,
    passes.tallies within⟩, fun r returned => ⟨?_, solveFrom_tallies returned⟩⟩
  obtain ⟨length, states, ledgers, passes, _, _, _, rfl⟩ := solveFrom_passes returned
  refine ⟨length, states, ledgers, passes, ?_, passes.counts (Nat.le_refl length)⟩
  exact congrArg Int.ofNat (passes.iteration length (Nat.le_refl length))

def sigmoid : SquareSystem Float where
  convention := .outOfPlace
  sources := .residualOnly (some fun p =>
    .ok (.list (p.entries.toList.map fun x => .leaf (x / Float.sqrt (1 + x * x)))))
  dimension := none

def quadraticSearch : Options Float :=
  { Options.standard with
    lineSearch := .backtracking { Backtracking.standard with order := .whole 2 } }

theorem counters_count_work_sigmoid :
    ∃ r, (solveFrom sigmoid quadraticSearch .newton #v[2]).result = .ok r ∧ r.fCalls = 13 ∧
      r.jCalls = 4 ∧ callCount (solveFrom sigmoid quadraticSearch .newton #v[2]).calls .f = 13 ∧
      ∃ length states ledgers,
        Passes sigmoid quadraticSearch .newton #v[2] length states ledgers ∧ length = 3 ∧
          Method.Counts sigmoid .newton states length 13 4 := by
  have computed : (solveFrom sigmoid quadraticSearch .newton #v[2]).result.toOption.map
      (fun r => (r.iterations, r.fCalls, r.jCalls)) = some (3, 13, 4) := by
    decide +kernel
  have called : callCount (solveFrom sigmoid quadraticSearch .newton #v[2]).calls .f = 13 := by
    decide +kernel
  obtain ⟨r, returned, counted⟩ := Plan.ok_of_toOption computed
  simp only [Prod.mk.injEq] at counted
  obtain ⟨iterations, residuals, jacobians⟩ := counted
  obtain ⟨⟨length, states, ledgers, passes, same, counts⟩, _⟩ :=
    (counters_count_work sigmoid quadraticSearch .newton #v[2]).2 r returned
  rw [residuals, jacobians] at counts
  exact ⟨r, returned, residuals, jacobians, called, length, states, ledgers, passes, by omega,
    counts⟩

end RootFinding
