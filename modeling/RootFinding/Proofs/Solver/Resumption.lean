import RootFinding.Proofs.Solver.Entries
import RootFinding.Proofs.Solver.Presentations

namespace RootFinding

open Scalar

variable {α : Type}

def Entry.renumbered (k : Int) (e : Entry α) : Entry α := { e with iteration := k + e.iteration }

/-- The recorder of a solve that goes on from one with these entries, latest first; its own entry
for the start is not kept. -/
def Recorder.resumed (k : Int) (earlier : List (Entry α)) (r : Recorder α) : Recorder α :=
  { r with entries := r.entries.dropLast.map (·.renumbered k) ++ earlier }

theorem Recorder.resumed_trace (k : Int) (earlier : List (Entry α)) (r : Recorder α) :
    (r.resumed k earlier).trace = earlier.reverse ++ r.trace.tail.map (·.renumbered k) := by
  simp only [trace, resumed, List.reverse_append, List.tail_reverse, List.map_reverse]

theorem Recorder.resumed_holding {k : Int} {earlier : List (Entry α)} {r : Recorder α}
    (begun : r.store → r.entries ≠ []) (e : Entry α) :
    (r.resumed k earlier).holding (e.renumbered k) = (r.holding e).resumed k earlier := by
  obtain ⟨store, shows, extended, entries⟩ := r
  cases store with
  | true =>
    unfold holding resumed
    simp only [if_true, List.dropLast_cons_of_ne_nil (begun rfl)]
    rfl
  | false => rfl

theorem Recorder.holding_begun {r : Recorder α} {e : Entry α} (stored : (r.holding e).store) :
    (r.holding e).entries ≠ [] := by
  have some' : (r.holding e).entries = e :: r.entries := if_pos stored
  rw [some']
  exact List.cons_ne_nil _ _

theorem Recorder.resumed_first (k : Int) (earlier : List (Entry α)) (store shows extended : Bool)
    (e : Entry α) :
    (holding ⟨store, shows, extended, []⟩ e).resumed k earlier =
      ⟨store, shows, extended, earlier⟩ := by
  cases store <;> rfl

variable [Scalar α] {n : Nat} {s : SquareSystem α} {o : Options α} {x : Vec α n}

def LineSearch.builtIn : LineSearch α → Bool
  | fixed _ | backtracking _ => true
  | strongWolfe _ _ _ fallback => fallback.builtIn
  | sequence _ => false

theorem LineSearch.search_keeps {strategy : LineSearch α} (builtIn : strategy.builtIn)
    (phi0 slope length : α) :
    (strategy.search phi0 slope length).Ensures (fun found => found.2 = strategy)
      fun _ => True := by
  induction strategy with
  | fixed alpha => exact Plan.ensures_pure rfl
  | backtracking b => exact (Plan.ensures_nothing _).bind fun alpha _ => Plan.ensures_pure rfl
  | strongWolfe c1 c2 maxiter fallback ih =>
    apply (Plan.ensures_nothing _).bind
    intro found _
    cases found with
    | some alpha => exact Plan.ensures_pure rfl
    | none =>
      apply (Plan.ensures_nothing _).bind
      intro _ _
      apply (ih builtIn).bind
      intro found kept
      exact Plan.ensures_pure (congrArg (strongWolfe c1 c2 maxiter) kept)
  | sequence upcoming => cases builtIn

theorem newtonDirection_alike (jac : Mat α n n) (fx : Vec α n) (i j : Int) :
    Alike (· = ·) (newtonDirection jac fx i) (newtonDirection jac fx j) := by
  unfold newtonDirection
  cases Elimination.solve jac (-fx) with
  | none => exact .error _ _
  | some p =>
    dsimp only
    split
    · exact .ok rfl
    · exact .error _ _

namespace Progress

def resumed (k : Nat) (earlier : List (Entry α)) (p : Progress α n) : Progress α n :=
  { p with iteration := k + p.iteration, recorder := p.recorder.resumed k earlier }

theorem entered_resumed (k : Nat) (earlier : List (Entry α)) {p : Progress α n}
    (begun : p.recorder.store → p.recorder.entries ≠ []) (stepnorm : α) (more : Extras α) :
    (p.resumed k earlier).entered stepnorm more = (p.entered stepnorm more).resumed k earlier := by
  have entry : (p.resumed k earlier).entry p.recorder.extended stepnorm more =
      (p.entry p.recorder.extended stepnorm more).renumbered k := by
    show Entry.mk _ _ _ _ = Entry.mk _ _ _ _
    rw [resumed, Nat.cast_add]
    rfl
  have held : ((p.resumed k earlier).entered stepnorm more).recorder =
      (p.entered stepnorm more).recorder.resumed k earlier := by
    rw [entered_recorder, entered_recorder]
    show Recorder.holding _ (Progress.entry _ p.recorder.extended stepnorm more) = _
    rw [entry]
    exact Recorder.resumed_holding begun _
  exact congrArg (fun recorder : Recorder α =>
    ({ p with iteration := k + p.iteration, recorder := recorder } : Progress α n)) held

end Progress

namespace Newton

/-- The state of a solve that went on after `k` iterations, beside that of one that began there. -/
structure State.Resumes (o : Options α) (k : Nat) (earlier : List (Entry α)) (t t' : State α n) :
    Prop where
  progress : t.progress = t'.progress.resumed k earlier
  lineSearch : t.lineSearch = o.lineSearch
  lineSearch' : t'.lineSearch = o.lineSearch
  begun : t'.progress.recorder.store → t'.progress.recorder.entries ≠ []

theorem search_keeps {strategy : LineSearch α} (builtIn : strategy.builtIn) {merit : Merit α n}
    {slope : α} {found : α × LineSearch α}
    (searched : (merit.search strategy slope).value s.reply = .ok found) :
    found.2 = strategy := by
  rw [Merit.search_value] at searched
  exact (LineSearch.search_keeps builtIn _ _ _).of_value searched

theorem step_resumes (builtIn : o.lineSearch.builtIn) {k : Nat} {earlier : List (Entry α)}
    {t t' : State α n} (resumes : t.Resumes o k earlier t') :
    Alike (State.Resumes o k earlier) ((step o t).value s.reply) ((step o t').value s.reply) := by
  obtain ⟨p, search⟩ := t
  obtain ⟨p', search'⟩ := t'
  obtain ⟨progress, lineSearch, lineSearch', begun⟩ := resumes
  dsimp only at progress lineSearch lineSearch' begun
  subst progress lineSearch lineSearch'
  rw [step_value, step_value]
  refine (newtonDirection_alike p'.jac p'.fx _ _).bind ?_
  rintro direction _ rfl
  refine (Alike.same _).known.bind ?_
  rintro found _ ⟨searched, rfl⟩
  refine (Alike.same (checkStep found.1)).bind ?_
  rintro alpha _ rfl
  refine (Alike.same (s.reply (.both _))).bind ?_
  rintro pair _ rfl
  have keeps := search_keeps builtIn searched
  refine .ok ⟨?_, keeps, keeps, ?_⟩
  · exact Progress.entered_resumed k earlier
      (p := (State.mk p' o.lineSearch).moved o _ pair.1 pair.2) begun _ _
  · rw [Progress.entered_recorder]
    exact Recorder.holding_begun

theorem State.Resumes.asked {k : Nat} {earlier : List (Entry α)} {t t' : State α n}
    (resumes : t.Resumes o k earlier t') : t.asked s = t'.asked s := by
  obtain ⟨p, search⟩ := t
  obtain ⟨p', search'⟩ := t'
  obtain ⟨progress, lineSearch, lineSearch', _⟩ := resumes
  dsimp only at progress lineSearch lineSearch'
  subst progress lineSearch lineSearch'
  have alike := newtonDirection_alike p'.jac p'.fx (k + p'.iteration + 1 : Nat)
    (p'.iteration + 1 : Nat)
  unfold State.asked
  dsimp only [Progress.resumed, Progress.gradient] at alike ⊢
  generalize newtonDirection p'.jac p'.fx (k + p'.iteration + 1 : Nat) = direction at alike ⊢
  generalize newtonDirection p'.jac p'.fx (p'.iteration + 1 : Nat) = direction' at alike ⊢
  cases alike with
  | ok same => rw [same]
  | error e e' => rfl

section Passes

variable {k : Nat} {states : Nat → State α n} {ledgers : Nat → Ledger α n}

theorem passes_both (passes : Passes s o .newton x k states ledgers) :
    ∀ i ≤ k, s.Yields (.both (states i).progress.x)
      ((states i).progress.fx, (states i).progress.jac) := by
  apply passes.induct (motive := fun _ t => s.Yields (.both t.progress.x)
    (t.progress.fx, t.progress.jac))
  · intro ran
    obtain ⟨yields, here, _⟩ := start_cases ran
    rw [here]
    exact yields
  · intro i _ ran _
    exact (step_cases ran).1

theorem passes_lineSearch (builtIn : o.lineSearch.builtIn)
    (passes : Passes s o .newton x k states ledgers) :
    ∀ i ≤ k, (states i).lineSearch = o.lineSearch := by
  apply passes.induct (motive := fun _ t => t.lineSearch = o.lineSearch)
  · intro ran
    have started := Ledger.value_of_run ran
    rw [Method.start, start_value] at started
    obtain ⟨pair, _, same⟩ := Except.bind_ok.mp started
    rw [← Except.ok.inj same]
    rfl
  · intro i _ ran before
    have stepped := Ledger.value_of_run ran
    rw [Method.step] at stepped
    obtain ⟨direction, alpha, known, left, leads, same⟩ := step_eq_ok.mp stepped
    have searched := leads.searched
    rw [before] at searched
    rw [← same]
    exact search_keeps builtIn searched

theorem first_resumes (builtIn : o.lineSearch.builtIn)
    (passes : Passes s o .newton x k states ledgers)
    (going : (states k).progress.tests.any = false) :
    (states k).Resumes o k (states k).progress.recorder.entries
      (.first o (states k).progress.x (states k).progress.fx (states k).progress.jac) := by
  have iteration := passes.iteration k (Nat.le_refl k)
  have byResidual := passes.byResidual k (Nat.le_refl k)
  obtain ⟨entries, recorder⟩ := passes.recorder k (Nat.le_refl k)
  have lineSearch := passes_lineSearch builtIn passes k (Nat.le_refl k)
  dsimp only [Method.progress] at iteration byResidual recorder
  generalize states k = t at *
  obtain ⟨⟨x, fx, jac, i, ⟨byStep, small⟩, recorder'⟩, search⟩ := t
  dsimp only at *
  subst iteration byResidual recorder lineSearch
  -- As no test holds, that of the step is as it is at the start, where there is none.
  obtain ⟨rfl, _⟩ := Bool.or_eq_false_iff.mp going
  refine ⟨?_, rfl, rfl, ?_⟩
  · have held := Progress.entered_recorder (Progress.start o x fx jac) undefined
      [("alpha", .float undefined)]
    unfold Progress.resumed State.first
    dsimp only
    rw [held, Progress.start, Recorder.resumed_first]
    rfl
  · rw [State.first, Progress.entered_recorder]
    exact Recorder.holding_begun

/-- How a solve goes on after `k` iterations is how one goes on that begins there, as long as no
test holds. -/
theorem reached_resumes (builtIn : o.lineSearch.builtIn)
    (passes : Passes s o .newton x k states ledgers)
    (going : (states k).progress.tests.any = false) (j : Nat) :
    Alike (State.Resumes o k (states k).progress.recorder.entries)
      (Method.newton.reached s o x (k + j)).1
      (Method.newton.reached s o (states k).progress.x j).1 := by
  induction j with
  | zero =>
    have both := SquareSystem.yields_iff.mp (passes_both passes k (Nat.le_refl k))
    rw [Nat.add_zero, passes.reached k (Nat.le_refl k), Method.reached_zero_fst, Method.start,
      start_value, both]
    exact .ok (first_resumes builtIn passes going)
  | succ j ih =>
    rw [← Nat.add_assoc, Method.reached_succ_fst, Method.reached_succ_fst]
    apply ih.bind
    intro t t' resumes
    exact step_resumes builtIn resumes

theorem passes_resumes (builtIn : o.lineSearch.builtIn)
    (passes : Passes s o .newton x k states ledgers)
    (going : (states k).progress.tests.any = false) {j : Nat} {whole rest : Nat → State α n}
    {wholeLedgers restLedgers : Nat → Ledger α n}
    (long : Passes s o .newton x (k + j) whole wholeLedgers)
    (short : Passes s o .newton (states k).progress.x j rest restLedgers) :
    ∀ i ≤ j, (whole (k + i)).Resumes o k (states k).progress.recorder.entries (rest i) := by
  intro i within
  have alike := reached_resumes builtIn passes going i
  rw [long.reached (k + i) (by omega), short.reached i within] at alike
  cases alike with
  | ok resumes => exact resumes

end Passes

end Newton

def Options.capped (o : Options α) (cap : Nat) : Options α := { o with iterations := .whole cap }

/-- The result of a solve beside the results of its first iterations and of the rest, which began
with an evaluation of its own. -/
structure Results.Joins (first : Results α) (residuals : Nat) (rest whole : Results α) : Prop where
  zero : whole.zero = rest.zero
  residual : whole.residual = rest.residual
  residualNorm : whole.residualNorm = rest.residualNorm
  xConverged : whole.xConverged = rest.xConverged
  fConverged : whole.fConverged = rest.fConverged
  iterations : whole.iterations = first.iterations + rest.iterations
  fCalls : whole.fCalls = first.fCalls + rest.fCalls - residuals
  jCalls : whole.jCalls = first.jCalls + rest.jCalls - 1
  trace : whole.trace = first.trace ++ rest.trace.tail.map (·.renumbered first.iterations)

namespace Newton

variable {k j : Nat} {states whole rest : Nat → State α n}
  {ledgers wholeLedgers restLedgers : Nat → Ledger α n}

theorem sum_resumes {f : State α n → Nat} (passes : Passes s o .newton x k states ledgers)
    (long : Passes s o .newton x (k + j) whole wholeLedgers)
    (same : ∀ i ≤ j, f (whole (k + i)) = f (rest i)) :
    ∑ i ∈ Finset.range (k + j), f (whole i) =
      ∑ i ∈ Finset.range k, f (states i) + ∑ i ∈ Finset.range j, f (rest i) := by
  rw [Finset.sum_range_add]
  congr 1
  · apply Finset.sum_congr rfl
    intro i member
    have less := Finset.mem_range.mp member
    rw [long.unique passes (by omega) (by omega)]
  · apply Finset.sum_congr rfl
    intro i member
    exact same i (Finset.mem_range.mp member).le

theorem calls_join (passes : Passes s o .newton x k states ledgers)
    (long : Passes s o .newton x (k + j) whole wholeLedgers)
    (short : Passes s o .newton (states k).progress.x j rest restLedgers)
    (resumes : ∀ i ≤ j,
      (whole (k + i)).Resumes o k (states k).progress.recorder.entries (rest i)) :
    ((wholeLedgers (k + j)).session.fCalls : Int) =
        (ledgers k).session.fCalls + (restLedgers j).session.fCalls - s.combined n ∧
      ((wholeLedgers (k + j)).session.jCalls : Int) =
        (ledgers k).session.jCalls + (restLedgers j).session.jCalls - 1 := by
  obtain ⟨jacobians, residuals⟩ := passes.counts (Nat.le_refl k)
  obtain ⟨jacobians', residuals'⟩ := short.counts (Nat.le_refl j)
  obtain ⟨jacobians'', residuals''⟩ := long.counts (Nat.le_refl (k + j))
  have trials := sum_resumes passes long (f := State.trials s) fun i within =>
    congrArg (List.countP _) (resumes i within).asked
  have slopes := sum_resumes passes long (f := State.slopes s) fun i within =>
    congrArg (List.countP _) (resumes i within).asked
  constructor
  · rw [residuals, residuals', residuals'', trials, slopes, SquareSystem.combined]
    push_cast
    ring
  · rw [jacobians, jacobians', jacobians'', slopes]
    push_cast
    ring

theorem results_join (passes : Passes s o .newton x k states ledgers)
    (long : Passes s o .newton x (k + j) whole wholeLedgers)
    (short : Passes s o .newton (states k).progress.x j rest restLedgers)
    (resumes : ∀ i ≤ j,
      (whole (k + i)).Resumes o k (states k).progress.recorder.entries (rest i))
    (cap cap' cap'' : Nat) :
    let session := (ledgers k).session
    let wholeSession := (wholeLedgers (k + j)).session
    let restSession := (restLedgers j).session
    ((states k).progress.results (o.capped cap) name x session.fCalls session.jCalls).Joins
      (s.combined n)
      ((rest j).progress.results (o.capped cap') name (states k).progress.x restSession.fCalls
        restSession.jCalls)
      ((whole (k + j)).progress.results (o.capped cap'') name x wholeSession.fCalls
        wholeSession.jCalls) := by
  have last := (resumes j (Nat.le_refl j)).progress
  have iteration : (states k).progress.iteration = k := passes.iteration k (Nat.le_refl k)
  obtain ⟨fCalls, jCalls⟩ := calls_join passes long short resumes
  intro session wholeSession restSession
  refine ⟨?_, ?_, ?_, ?_, ?_, ?_, fCalls, jCalls, ?_⟩
  · exact congrArg (fun p => p.x.toList) last
  · exact congrArg (fun p => p.fx.toList) last
  · exact congrArg (fun p => p.fx.maxNorm) last
  · exact congrArg (fun p => p.tests.byStep) last
  · exact congrArg (fun p => p.tests.byResidual) last
  · show ((whole (k + j)).progress.iteration : Int) =
      (states k).progress.iteration + (rest j).progress.iteration
    rw [last, ← Nat.cast_add]
    exact congrArg (fun i => ((i + (rest j).progress.iteration : Nat) : Int)) iteration.symm
  · show (whole (k + j)).progress.recorder.trace = (states k).progress.recorder.trace ++
      (rest j).progress.recorder.trace.tail.map (·.renumbered (states k).progress.iteration)
    rw [last, iteration]
    exact Recorder.resumed_trace _ _ _

theorem going_resumes (passes : Passes s o .newton x k states ledgers)
    (going : ∀ i < k, (states i).progress.tests.any = false)
    (long : Passes s o .newton x (k + j) whole wholeLedgers)
    (tests : ∀ i ≤ j, (whole (k + i)).progress.tests = (rest i).progress.tests) :
    (∀ i < k + j, (whole i).progress.tests.any = false) ↔
      ∀ i < j, (rest i).progress.tests.any = false := by
  constructor
  · intro all i less
    rw [← tests i less.le]
    exact all (k + i) (by omega)
  · intro later i less
    by_cases early : i < k
    · rw [long.unique passes (by omega) (by omega)]
      exact going i early
    · obtain ⟨i, rfl⟩ := Nat.exists_eq_add_of_le (Nat.le_of_not_lt early)
      rw [tests i (by omega)]
      exact later i (by omega)

def EndsAt (o : Options α) (states : Nat → State α n) (length : Nat) : Prop :=
  (∀ i < length, (states i).progress.tests.any = false) ∧ length ≤ o.iterations.below ∧
    ((states length).progress.tests.any ∨ length = o.iterations.below)

theorem endsAt_resumes (passes : Passes s o .newton x k states ledgers)
    (going : ∀ i < k, (states i).progress.tests.any = false)
    (long : Passes s o .newton x (k + j) whole wholeLedgers)
    (resumes : ∀ i ≤ j,
      (whole (k + i)).Resumes o k (states k).progress.recorder.entries (rest i)) (more : Nat) :
    EndsAt (o.capped (k + more)) whole (k + j) ↔ EndsAt (o.capped more) rest j := by
  have tests (i : Nat) (within : i ≤ j) :
      (whole (k + i)).progress.tests = (rest i).progress.tests :=
    congrArg (·.tests) (resumes i within).progress
  have limit (cap : Nat) : (o.capped cap).iterations.below = cap := rfl
  unfold EndsAt
  rw [going_resumes passes going long tests, tests j (Nat.le_refl j), limit, limit,
    Nat.add_le_add_iff_left, Nat.add_left_cancel_iff]

theorem EndsAt.le (passes : Passes s o .newton x k states ledgers)
    (going : ∀ i < k, (states i).progress.tests.any = false) {far more : Nat}
    (long : Passes s o .newton x far whole wholeLedgers)
    (ends : EndsAt (o.capped (k + more)) whole far) : k ≤ far := by
  by_contra short
  have less : far < k := Nat.lt_of_not_le short
  rcases ends.2.2 with holds | full
  · rw [← passes.unique long less.le (Nat.le_refl far), going far less] at holds
    cases holds
  · have limit : far = k + more := full
    omega

theorem solveFrom_endsAt {cap : Nat} {r : Results α}
    (returned : (solveFrom s (o.capped cap) .newton x).result = .ok r) :
    ∃ (length : Nat) (states : Nat → State α n) (ledgers : Nat → Ledger α n),
      Passes s o .newton x length states ledgers ∧ EndsAt (o.capped cap) states length ∧
        r = (states length).progress.results (o.capped cap) Method.newton.name x
          (ledgers length).session.fCalls (ledgers length).session.jCalls := by
  obtain ⟨length, states, ledgers, passes, going, bound, reason, same⟩ := solveFrom_passes returned
  exact ⟨length, states, ledgers, ⟨passes.start, passes.step⟩, ⟨going, bound, reason⟩, same⟩

theorem solveFrom_of_endsAt {cap length : Nat}
    (passes : Passes s o .newton x length states ledgers)
    (ends : EndsAt (o.capped cap) states length) :
    (solveFrom s (o.capped cap) .newton x).result =
      .ok ((states length).progress.results (o.capped cap) Method.newton.name x
        (ledgers length).session.fCalls (ledgers length).session.jCalls) :=
  solveFrom_of_passes (o := o.capped cap) ⟨passes.start, passes.step⟩ ends.1 ends.2.1 ends.2.2

theorem solveFrom_resumes (builtIn : o.lineSearch.builtIn) {first : Results α}
    (returned : (solveFrom s (o.capped k) .newton x).result = .ok first)
    (unconverged : first.converged = false) (more : Nat) :
    ∃ y : Vec α n, first.zero = y.toList ∧
      Alike (first.Joins (s.combined n)) (solveFrom s (o.capped more) .newton y).result
        (solveFrom s (o.capped (k + more)) .newton x).result := by
  obtain ⟨length, states, ledgers, passes, ⟨going, _, reason⟩, rfl⟩ := solveFrom_endsAt returned
  have stopped : (states length).progress.tests.any = false := unconverged
  obtain rfl : length = k := by
    rcases reason with holds | full
    · exact absurd (stopped.symm.trans holds) Bool.false_ne_true
    · exact full
  have alike := reached_resumes builtIn passes stopped
  refine ⟨(states length).progress.x, rfl, alike_iff.mpr ⟨?_, ?_⟩⟩
  · intro r returned
    obtain ⟨j, rest, restLedgers, short, ends, rfl⟩ := solveFrom_endsAt returned
    obtain ⟨whole, wholeLedgers, long, _⟩ :=
      passes_of_reached ((alike j).flip.isOk (short.reached_isOk (Nat.le_refl j)))
    have resumes := passes_resumes builtIn passes stopped long short
    have endsToo := (endsAt_resumes passes going long resumes more).mpr ends
    exact ⟨_, solveFrom_of_endsAt long endsToo, results_join passes long short resumes _ _ _⟩
  · intro r returned
    obtain ⟨far, whole, wholeLedgers, long, ends, rfl⟩ := solveFrom_endsAt returned
    obtain ⟨j, rfl⟩ := Nat.exists_eq_add_of_le (EndsAt.le passes going long ends)
    obtain ⟨rest, restLedgers, short, _⟩ :=
      passes_of_reached ((alike j).isOk (long.reached_isOk (Nat.le_refl _)))
    have resumes := passes_resumes builtIn passes stopped long short
    have endsToo := (endsAt_resumes passes going long resumes more).mp ends
    exact ⟨_, solveFrom_of_endsAt short endsToo, results_join passes long short resumes _ _ _⟩

end Newton

/-- A solve by Newton's method that ended unconverged after `k` iterations can be gone on with from
its zero, if that is finite: the rest returns if and only if the solve with that many iterations
more does, and its result completes the first one to that of the whole. -/
theorem newton_resumes {e : Equations α} {jacobian : Option (Callable α)}
    (system : e.toSystem jacobian = .ok s) {given : Except Fault (GivenPoint α)}
    (builtIn : o.lineSearch.builtIn) {k : Nat} {first : Results α}
    (returned : (solve e jacobian given "newton" (o.capped k)).result = .ok first)
    (unconverged : first.converged = false) (finite : first.zero.all isFinite) (more : Nat) :
    let point : GivenPoint α := ([first.zero.length], first.zero)
    Alike (first.Joins (s.combined first.zero.length))
      (solve e jacobian (.ok point) "newton" (o.capped more)).result
      (solve e jacobian given "newton" (o.capped (k + more))).result := by
  have named : Method.ofOption? "newton" = some .newton := by decide
  obtain ⟨_, _, entries, _, same, prepared⟩ := solve_ok returned
  cases system.symm.trans same
  rw [solve_prepared named system prepared] at returned ⊢
  obtain ⟨y, zero, alike⟩ := Newton.solveFrom_resumes builtIn returned unconverged more
  obtain ⟨pair, _, accepted⟩ := Except.bind_ok.mp prepared
  have length : first.zero.length = entries.length := by rw [zero, Vector.length_toList]
  have some' : first.zero ≠ [] := by
    apply List.ne_nil_of_length_pos
    rw [length]
    exact List.length_pos_of_ne_nil (preparePoint_ne_nil accepted)
  -- Its zero is a point that a solve may begin from.
  have begins := preparePoint_of_finite some' finite
  intro point
  have rest : (solve e jacobian (.ok point) "newton" (o.capped more)).result =
      (solveFrom s (o.capped more) .newton y).result := by
    have here : point = ([entries.length], y.toList) := Prod.ext (congrArg ([·]) length) zero
    rw [length, zero] at begins
    rw [here, solve_result system (preparePoint_ok accepted), named, begins]
    rfl
  rw [rest, length]
  exact alike

def storingSearch : Options Float := { quadraticSearch with storeTrace := true }

theorem newton_resumes_sigmoid :
    ∃ first rest whole, (solve (.system sigmoid) none (.ok ([1], [2])) "newton"
        (storingSearch.capped 1)).result = .ok first ∧
      (solve (.system sigmoid) none (.ok ([1], first.zero)) "newton"
        (storingSearch.capped 4)).result = .ok rest ∧
      (solve (.system sigmoid) none (.ok ([1], [2])) "newton"
        (storingSearch.capped 5)).result = .ok whole ∧
      whole.iterations = 3 ∧ whole.fConverged ∧ first.Joins 2 rest whole := by
  have computed : (solve (.system sigmoid) none (.ok ([1], [2])) "newton"
      (storingSearch.capped 1)).result.toOption.map
      (fun r => (r.converged, r.zero.length, r.zero.all isFinite)) = some (false, 1, true) := by
    decide +kernel
  have computed' : (solve (.system sigmoid) none (.ok ([1], [2])) "newton"
      (storingSearch.capped 5)).result.toOption.map
      (fun r => (r.iterations, r.fConverged)) = some (3, true) := by
    decide +kernel
  obtain ⟨first, returned, known⟩ := Plan.ok_of_toOption computed
  obtain ⟨whole, returned', known'⟩ := Plan.ok_of_toOption computed'
  simp only [Prod.mk.injEq] at known known'
  obtain ⟨unconverged, length, finite⟩ := known
  have system : (Equations.system sigmoid).toSystem none = .ok sigmoid := rfl
  have alike := newton_resumes system rfl returned unconverged finite 4
  dsimp only at alike
  rw [length] at alike
  obtain ⟨rest, continued, joins⟩ := alike.flip.of_ok returned'
  exact ⟨first, rest, whole, returned, continued, returned', known'.1, known'.2, joins⟩

end RootFinding
