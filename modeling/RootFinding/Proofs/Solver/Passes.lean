import RootFinding.Proofs.Solver.Replies
import RootFinding.Solver.Solve

namespace RootFinding

variable {α : Type} {n : Nat}

namespace Method

abbrev State (α : Type) (n : Nat) : Method → Type
  | trustRegion => TrustRegion.State α n
  | newton => Newton.State α n

def progress : (m : Method) → m.State α n → Progress α n
  | trustRegion, state => TrustRegion.State.progress state
  | newton, state => Newton.State.progress state

variable [Scalar α]

def start : (m : Method) → Options α → Vec α n → Solver α n (m.State α n)
  | trustRegion => TrustRegion.start
  | newton => Newton.start

def step : (m : Method) → Options α → m.State α n → Solver α n (m.State α n)
  | trustRegion => TrustRegion.step
  | newton => Newton.step

def iterate : (m : Method) → Options α → (passes : Nat) → m.State α n → Solver α n (m.State α n)
  | trustRegion => TrustRegion.iterate
  | newton => Newton.iterate

def stopped : Method → Nat → Notice α
  | trustRegion => .trustRegionStopped
  | newton => .newtonStopped

theorem run_eq (m : Method) (o : Options α) (x : Vec α n) :
    m.run o x = (do
      let state ← m.iterate o o.iterations.below (← m.start o x)
      if !(m.progress state).tests.any then
        Solver.note (m.stopped (m.progress state).iteration)
      return m.progress state) := by
  cases m <;> rfl

theorem iterate_zero (m : Method) (o : Options α) (state : m.State α n) :
    m.iterate o 0 state = pure state := by
  cases m <;> rfl

theorem iterate_succ (m : Method) (o : Options α) (passes : Nat) (state : m.State α n) :
    m.iterate o (passes + 1) state =
      if (m.progress state).tests.any then pure state
      else m.step o state >>= m.iterate o passes := by
  cases m <;> rfl

end Method

namespace Method

variable [Scalar α] {m : Method} {o : Options α} {holds : m.State α n → Prop}
  {own : Failure α → Prop}

theorem iterate_ensures (step : ∀ t, holds t → (m.step o t).Ensures holds own) (passes : Nat)
    {t : m.State α n} (first : holds t) : (m.iterate o passes t).Ensures holds own := by
  induction passes generalizing t with
  | zero =>
    rw [iterate_zero]
    exact Plan.ensures_pure first
  | succ passes ih =>
    rw [iterate_succ]
    split
    · exact Plan.ensures_pure first
    · exact (step t first).bind fun next kept => ih kept

theorem run_ensures {x : Vec α n} {post : Progress α n → Prop}
    (start : (m.start o x).Ensures holds own)
    (step : ∀ t, holds t → (m.step o t).Ensures holds own)
    (last : ∀ t, holds t → post (m.progress t)) : (m.run o x).Ensures post own := by
  rw [run_eq]
  refine start.bind fun t first => (iterate_ensures step _ first).bind fun final kept => ?_
  split
  · refine Plan.Ensures.bind (Plan.ensures_request fun _ => trivial) fun _ _ => ?_
    exact Plan.ensures_pure (last final kept)
  · exact Plan.ensures_pure (last final kept)

def finish (m : Method) (o : Options α) (state : m.State α n) : Solver α n (Progress α n) := do
  let state ← m.iterate o o.iterations.below state
  if !(m.progress state).tests.any then
    Solver.note (m.stopped (m.progress state).iteration)
  return m.progress state

theorem run_finish (m : Method) (o : Options α) (x : Vec α n) :
    m.run o x = m.start o x >>= m.finish o := run_eq m o x

section Asks

variable {among : Request α n → Prop}

theorem iterate_asks (step : ∀ t, (m.step o t).AsksOnly among) (passes : Nat) (t : m.State α n) :
    (m.iterate o passes t).AsksOnly among := by
  induction passes generalizing t with
  | zero =>
    rw [iterate_zero]
    exact Plan.asksOnly_pure _
  | succ passes ih =>
    rw [iterate_succ]
    split
    · exact Plan.asksOnly_pure _
    · exact (step t).bind ih

theorem finish_asks (step : ∀ t, (m.step o t).AsksOnly among)
    (last : ∀ k, among (.note (m.stopped k))) (t : m.State α n) :
    (m.finish o t).AsksOnly among := by
  apply (iterate_asks step _ t).bind
  intro final
  dsimp only
  split
  · exact (Plan.asksOnly_request (last _)).bind fun _ => Plan.asksOnly_pure _
  · exact Plan.asksOnly_pure _

end Asks

end Method

variable [Scalar α]

def Ledger.begun (s : SquareSystem α) (m : Method) : Ledger α n :=
  ⟨Session.fresh, [.solveStart m.option s.convention s.analytic]⟩

/-- The states of a solve and its ledgers, up to so many iterations. -/
structure Passes (s : SquareSystem α) (o : Options α) (m : Method) (x : Vec α n) (length : Nat)
    (states : Nat → m.State α n) (ledgers : Nat → Ledger α n) : Prop where
  start : (m.start o x).run (Ledger.answer s) (.begun s m) = (.ok (states 0), ledgers 0)
  step : ∀ k < length, (m.step o (states k)).run (Ledger.answer s) (ledgers k) =
    (.ok (states (k + 1)), ledgers (k + 1))

theorem Passes.induct {s : SquareSystem α} {o : Options α} {m : Method} {x : Vec α n}
    {length : Nat} {states : Nat → m.State α n} {ledgers : Nat → Ledger α n}
    (passes : Passes s o m x length states ledgers) {motive : Nat → m.State α n → Prop}
    (first : (m.start o x).run (Ledger.answer s) (.begun s m) = (.ok (states 0), ledgers 0) →
      motive 0 (states 0))
    (next : ∀ k < length, (m.step o (states k)).run (Ledger.answer s) (ledgers k) =
      (.ok (states (k + 1)), ledgers (k + 1)) → motive k (states k) →
        motive (k + 1) (states (k + 1))) :
    ∀ k ≤ length, motive k (states k) := by
  intro k
  induction k with
  | zero => exact fun _ => first passes.start
  | succ k ih => exact fun bound => next k bound (passes.step k bound) (ih (by omega))

/-- The state after so many iterations, and the ledger then, whatever the tests say. -/
def Method.reached (m : Method) (s : SquareSystem α) (o : Options α) (x : Vec α n) :
    Nat → Except (Failure α) (m.State α n) × Ledger α n
  | 0 => (m.start o x).run (Ledger.answer s) (.begun s m)
  | k + 1 =>
    match m.reached s o x k with
    | (.ok state, ledger) => (m.step o state).run (Ledger.answer s) ledger
    | (.error e, ledger) => (.error e, ledger)

theorem Method.reached_of_le {s : SquareSystem α} {o : Options α} {m : Method} {x : Vec α n}
    {length k : Nat} (fine : (m.reached s o x length).1.isOk) (le : k ≤ length) :
    ∃ state, m.reached s o x k = (.ok state, (m.reached s o x k).2) := by
  induction length with
  | zero =>
    obtain rfl : k = 0 := by omega
    exact Plan.exists_ok fine
  | succ length ih =>
    rcases Nat.lt_or_eq_of_le le with less | rfl
    · refine ih ?_ (by omega)
      -- A failure stays, so there was none one iteration earlier.
      rcases before : m.reached s o x length with ⟨failure | _, _⟩
      · rw [reached, before] at fine
        cases fine
      · rfl
    · exact Plan.exists_ok fine

theorem passes_of_reached {s : SquareSystem α} {o : Options α} {m : Method} {x : Vec α n}
    {length : Nat} (fine : (m.reached s o x length).1.isOk) :
    ∃ (states : Nat → m.State α n) (ledgers : Nat → Ledger α n),
      Passes s o m x length states ledgers ∧
        ∀ k ≤ length, m.reached s o x k = (.ok (states k), ledgers k) := by
  obtain ⟨last, _⟩ := Method.reached_of_le fine (Nat.le_refl length)
  let states k := (m.reached s o x k).1.toOption.getD last
  let ledgers k := (m.reached s o x k).2
  have found : ∀ k ≤ length, m.reached s o x k = (.ok (states k), ledgers k) := by
    intro k le
    obtain ⟨state, known⟩ := Method.reached_of_le fine le
    have same : states k = state := by
      simp only [states]
      rw [known]
      rfl
    rw [known, same]
  refine ⟨states, ledgers, ⟨found 0 (Nat.zero_le _), fun k less => ?_⟩, found⟩
  have step := found (k + 1) less
  rw [Method.reached, found k (by omega)] at step
  exact step

theorem Method.iterate_run {s : SquareSystem α} {o : Options α} {m : Method} {passes : Nat}
    {state final : m.State α n} {ledger after : Ledger α n}
    (ran : (m.iterate o passes state).run (Ledger.answer s) ledger = (.ok final, after)) :
    ∃ length, ∃ (states : Nat → m.State α n) (ledgers : Nat → Ledger α n),
      states 0 = state ∧ ledgers 0 = ledger ∧ states length = final ∧ ledgers length = after ∧
      (∀ k < length, (m.step o (states k)).run (Ledger.answer s) (ledgers k) =
        (.ok (states (k + 1)), ledgers (k + 1))) ∧
      (∀ k < length, (m.progress (states k)).tests.any = false) ∧
      length ≤ passes ∧ ((m.progress final).tests.any ∨ length = passes) := by
  induction passes generalizing state ledger with
  | zero =>
    rw [iterate_zero, Plan.run_pure] at ran
    cases ran
    exact ⟨0, fun _ => final, fun _ => after, rfl, rfl, rfl, rfl, fun k h => by omega,
      fun k h => by omega, Nat.le_refl 0, .inr rfl⟩
  | succ passes ih =>
    rw [iterate_succ] at ran
    split at ran
    · rename_i holds
      rw [Plan.run_pure] at ran
      cases ran
      exact ⟨0, fun _ => final, fun _ => after, rfl, rfl, rfl, rfl, fun k h => by omega,
        fun k h => by omega, Nat.zero_le _, .inl holds⟩
    · rename_i open'
      obtain ⟨next, between, first, rest⟩ := Plan.run_bind_ok.mp ran
      obtain ⟨length, states, ledgers, rfl, rfl, ends, endsToo, steps, going, bound, reason⟩ :=
        ih rest
      -- This state, and after it those of the rest.
      refine ⟨length + 1, fun k => k.casesOn state states, fun k => k.casesOn ledger ledgers, rfl,
        rfl, ends, endsToo, fun k h => ?_, fun k h => ?_, by omega, ?_⟩
      · cases k with
        | zero => exact first
        | succ k => exact steps k (by omega)
      · cases k with
        | zero => exact Bool.eq_false_iff.mpr open'
        | succ k => exact going k (by omega)
      · cases reason with
        | inl holds => exact .inl holds
        | inr full => exact .inr (by omega)

theorem solveFrom_result (s : SquareSystem α) (o : Options α) (m : Method) (x : Vec α n) :
    (solveFrom s o m x).result = match (m.run o x).run (Ledger.answer s) (.begun s m) with
      | (.ok p, ledger) => .ok (p.results o m.name x ledger.session.fCalls ledger.session.jCalls)
      | (.error e, _) => .error e := by
  change (solveFrom s o m x).result = match (m.run o x).run (Ledger.answer s)
    ⟨Session.fresh, [.solveStart m.option s.convention s.analytic]⟩ with
      | (.ok p, ledger) => .ok (p.results o m.name x ledger.session.fCalls ledger.session.jCalls)
      | (.error e, _) => .error e
  simp only [solveFrom]
  rcases (m.run o x).run (Ledger.answer s) _ with ⟨_ | _, _⟩ <;> rfl

theorem solveFrom_calls (s : SquareSystem α) (o : Options α) (m : Method) (x : Vec α n) :
    (solveFrom s o m x).calls =
      ((m.run o x).run (Ledger.answer s) (.begun s m)).2.session.desk.calls.reverse := by
  change (solveFrom s o m x).calls = ((m.run o x).run (Ledger.answer s)
    ⟨Session.fresh, [.solveStart m.option s.convention s.analytic]⟩).2.session.desk.calls.reverse
  simp only [solveFrom]
  rcases (m.run o x).run (Ledger.answer s) _ with ⟨_ | _, _⟩ <;> rfl

/-- A solve that returns has passed through states until a test held or the limit was reached. -/
theorem solveFrom_passes {s : SquareSystem α} {o : Options α} {m : Method} {x : Vec α n}
    {r : Results α} (returned : (solveFrom s o m x).result = .ok r) :
    ∃ length, ∃ (states : Nat → m.State α n) (ledgers : Nat → Ledger α n),
      Passes s o m x length states ledgers ∧
      (∀ k < length, (m.progress (states k)).tests.any = false) ∧
      length ≤ o.iterations.below ∧
      ((m.progress (states length)).tests.any ∨ length = o.iterations.below) ∧
      r = (m.progress (states length)).results o m.name x (ledgers length).session.fCalls
        (ledgers length).session.jCalls := by
  rw [solveFrom_result] at returned
  rcases ran : (m.run o x).run (Ledger.answer s) (.begun s m) with ⟨failure | p, ledger⟩
  · rw [ran] at returned
    cases returned
  · rw [ran] at returned
    cases returned
    rw [Method.run_eq] at ran
    obtain ⟨first, begun, started, rest⟩ := Plan.run_bind_ok.mp ran
    obtain ⟨final, after, iterated, rest⟩ := Plan.run_bind_ok.mp rest
    obtain ⟨length, states, ledgers, rfl, rfl, rfl, rfl, steps, going, bound, reason⟩ :=
      Method.iterate_run iterated
    refine ⟨length, states, ledgers, ⟨started, steps⟩, going, bound, reason, ?_⟩
    dsimp only at rest
    split at rest
    · obtain ⟨noted, final, told, rest⟩ := Plan.run_bind_ok.mp rest
      rw [Plan.run_pure] at rest
      cases rest
      rw [Solver.note, Plan.run_request] at told
      cases told
      rfl
    · rw [Plan.run_pure] at rest
      cases rest
      rfl

end RootFinding
