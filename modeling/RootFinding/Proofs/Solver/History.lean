import RootFinding.Proofs.Solver.Entries

namespace RootFinding

open Scalar

variable {α : Type} [Scalar α] {n : Nat} {s : SquareSystem α} {o : Options α} {m : Method}
  {x : Vec α n} {length : Nat} {states : Nat → m.State α n} {ledgers : Nat → Ledger α n}

def Method.stepnormAt (s : SquareSystem α) (m : Method) (states : Nat → m.State α n) : Nat → α
  | 0 => undefined
  | k + 1 => m.stepnorm s (states k) (states (k + 1))

theorem Passes.trace_eq (stored : o.storeTrace) (passes : Passes s o m x length states ledgers) :
    ∃ more : Nat → Extras α, more 0 = m.firstParticulars (states 0) ∧
      (∀ k < length, m.Particulars s (states k) (states (k + 1)) (more (k + 1))) ∧
      ∀ k ≤ length, m.trace (states k) = (List.range (k + 1)).map fun j =>
        (m.progress (states j)).entry o.extendedTrace (m.stepnormAt s states j) (more j) := by
  have started := Method.start_recorder passes.start
  have stepped (k : Nat) (less : k < length) := Method.step_recorder (passes.step k less)
  choose! later particulars held using stepped
  let more (k : Nat) : Extras α := k.casesOn (m.firstParticulars (states 0)) later
  refine ⟨more, rfl, particulars, fun k => ?_⟩
  induction k with
  | zero =>
    intro _
    rw [Method.trace, started]
    exact Recorder.holding_trace stored _
  | succ k ih =>
    intro within
    obtain ⟨entries, recorder⟩ := passes.recorder k (Nat.le_of_lt within)
    rw [List.range_succ, List.map_append, ← ih (Nat.le_of_lt within), Method.trace, Method.trace,
      held k within, recorder]
    exact Recorder.holding_trace stored _

structure Entry.Records (s : SquareSystem α) (o : Options α) (m : Method)
    (states : Nat → m.State α n) (k : Nat) (e : Entry α) : Prop where
  iteration : e.iteration = k
  fnorm : ∃ fx, s.Yields (.residual (m.progress (states k)).x) fx ∧ e.fnorm = fx.maxNorm
  start : k = 0 → e.stepnorm = undefined
  taken : ∀ j, k = j + 1 → m.Takes s (states j) →
    e.stepnorm = ((m.progress (states k)).x - (m.progress (states j)).x).norm
  rejected : ∀ j, k = j + 1 → ¬ m.Takes s (states j) → e.stepnorm = 0
  extras : o.extendedTrace → ∃ fx jac, s.Yields (.residual (m.progress (states k)).x) fx ∧
    s.Yields (.jacobian (m.progress (states k)).x) jac ∧
    e.extras.lookup "x" = some (.array (.ofVec (m.progress (states k)).x)) ∧
    e.extras.lookup "fx" = some (.array (.ofVec fx)) ∧
    e.extras.lookup "g" = some (.array (.ofVec (jac.tmulVec fx)))

theorem Entry.records_entry (agree : s.Agrees n) (passes : Passes s o m x length states ledgers)
    {k : Nat} (within : k ≤ length) (more : Extras α) :
    ((m.progress (states k)).entry o.extendedTrace (m.stepnormAt s states k) more).Records s o m
      states k := by
  have here := passes.consistent agree k within
  have iteration : ((m.progress (states k)).iteration : Int) = k :=
    congrArg Int.ofNat here.iteration
  refine ⟨iteration, ⟨_, here.residual, rfl⟩, ?_, ?_, ?_, fun extended => ?_⟩
  · rintro rfl
    rfl
  · rintro j rfl takes
    cases m with
    | trustRegion => exact if_pos takes
    | newton => rfl
  · rintro j rfl rejected
    cases m with
    | trustRegion => exact if_neg rejected
    | newton => exact absurd trivial rejected
  · refine ⟨_, _, here.residual, here.jacobian, ?_⟩
    simp only [Progress.entry, extended, if_true]
    exact ⟨rfl, rfl, rfl⟩

/-- The radii and ratios that the entries of the trust-region method give: those of each step, and
each radius follows from the step before. -/
structure TrustRegion.RecordsRadii (s : SquareSystem α) (states : Nat → State α n) (length : Nat)
    (entries : List (Entry α)) (delta rho : Nat → α) : Prop where
  told : ∀ k ≤ length, ∃ e, entries[k]? = some e ∧
    e.extras.lookup "delta" = some (.float (delta k)) ∧
    e.extras.lookup "rho" = some (.float (rho k))
  used : ∀ k < length, delta (k + 1) = (states k).delta
  ratio : ∀ k < length, ∃ trial, s.Yields (.residual (states k).trialPoint) trial ∧
    rho (k + 1) = (states k).ratio trial
  first : 0 < length → delta 1 = delta 0
  updated : ∀ k, k + 1 < length → delta (k + 2) =
    updateRadius (delta (k + 1)) (rho (k + 1)) (weightedNorm (states k).scaling (states k).move.p)

/-- What the entries say of the steps themselves: by Newton's method it is the step length. -/
def Method.RecordsSteps (s : SquareSystem α) :
    (m : Method) → (Nat → m.State α n) → Nat → List (Entry α) → Prop
  | trustRegion, states, length, entries =>
    ∃ delta rho, TrustRegion.RecordsRadii s states length entries delta rho
  | newton, states, length, entries => ∀ k < length, ∃ e alpha, entries[k + 1]? = some e ∧
    e.extras.lookup "alpha" = some (.float alpha) ∧
    newton.Particulars s (states k) (states (k + 1)) [("alpha", .float alpha)]

theorem TrustRegion.recordsRadii {states : Nat → State α n}
    (passes : Passes s o .trustRegion x length states ledgers) {entries : List (Entry α)}
    {more : Nat → Extras α} (start : more 0 = Method.trustRegion.firstParticulars (states 0))
    (steps : ∀ k < length,
      Method.trustRegion.Particulars s (states k) (states (k + 1)) (more (k + 1)))
    (extras : ∀ k ≤ length, ∃ e, entries[k]? = some e ∧
      e.extras = (states k).progress.extras ++ more k) :
    ∃ delta rho, RecordsRadii s states length entries delta rho := by
  have : Nonempty (Vec α n) := ⟨x⟩
  choose! trial yields account using steps
  refine ⟨fun k => k.casesOn (states 0).delta fun j => (states j).delta,
    fun k => k.casesOn undefined fun j => (states j).ratio (trial j),
    fun k within => ?_, fun k _ => rfl, fun k less => ⟨trial k, yields k less, rfl⟩, fun _ => rfl,
    fun k less => ?_⟩
  · obtain ⟨e, found, told⟩ := extras k within
    refine ⟨e, found, ?_⟩
    cases k with
    | zero =>
      rw [told, start]
      exact ⟨rfl, rfl⟩
    | succ k =>
      rw [told, account k within]
      exact ⟨rfl, rfl⟩
  · obtain ⟨other, yieldsToo, delta, _⟩ := step_cases (passes.step k (Nat.lt_of_succ_lt less))
    rw [yieldsToo.unique (yields k (Nat.lt_of_succ_lt less))] at delta
    exact delta

theorem Method.recordsSteps (passes : Passes s o m x length states ledgers)
    {entries : List (Entry α)} {more : Nat → Extras α}
    (start : more 0 = m.firstParticulars (states 0))
    (steps : ∀ k < length, m.Particulars s (states k) (states (k + 1)) (more (k + 1)))
    (extras : ∀ k ≤ length, ∃ e, entries[k]? = some e ∧
      e.extras = (m.progress (states k)).extras ++ more k) :
    m.RecordsSteps s states length entries := by
  cases m with
  | trustRegion => exact TrustRegion.recordsRadii passes start steps extras
  | newton =>
    intro k less
    obtain ⟨e, found, told⟩ := extras (k + 1) less
    obtain ⟨direction, alpha, directed, reached, same⟩ := steps k less
    refine ⟨e, alpha, found, ?_, direction, alpha, directed, reached, rfl⟩
    rw [told, same]
    rfl

/-- A stored trace has an entry for the start and for each iteration, which tells of the state
after it, the last one of the result; extended, it also tells of the steps. -/
theorem trace_records_path (agree : s.Agrees n) (stored : o.storeTrace) {r : Results α}
    (returned : (solveFrom s o m x).result = .ok r) :
    ∃ length states ledgers, Passes s o m x length states ledgers ∧ r.iterations = length ∧
      r.trace.length = length + 1 ∧
      (∀ k ≤ length, ∃ e, r.trace[k]? = some e ∧ e.Records s o m states k) ∧
      (o.extendedTrace →
        (∃ e, r.trace.getLast? = some e ∧ e.extras.lookup "x" = some (.array (.row r.zero)) ∧
          e.extras.lookup "fx" = some (.array (.row r.residual))) ∧
        m.RecordsSteps s states length r.trace) := by
  obtain ⟨length, states, ledgers, passes, _, _, _, rfl⟩ := solveFrom_passes returned
  obtain ⟨more, start, steps, traces⟩ := passes.trace_eq stored
  have trace := traces length (Nat.le_refl length)
  have entry (k : Nat) (within : k ≤ length) : (m.trace (states length))[k]? =
      some ((m.progress (states k)).entry o.extendedTrace (m.stepnormAt s states k) (more k)) := by
    rw [trace, List.getElem?_map, List.getElem?_range (Nat.lt_succ_of_le within)]
    rfl
  refine ⟨length, states, ledgers, passes, ?_, ?_, fun k within => ?_, fun extended => ⟨?_, ?_⟩⟩
  · exact congrArg Int.ofNat (passes.iteration length (Nat.le_refl length))
  · exact (congrArg List.length trace).trans (by rw [List.length_map, List.length_range])
  · exact ⟨_, entry k within, Entry.records_entry agree passes within (more k)⟩
  · have last : (m.trace (states length)).getLast? = some ((m.progress (states length)).entry
        o.extendedTrace (m.stepnormAt s states length) (more length)) := by
      rw [trace, List.range_succ, List.map_append]
      exact List.getLast?_concat
    refine ⟨_, last, ?_⟩
    simp only [Progress.entry, extended, if_true]
    exact ⟨rfl, rfl⟩
  · refine Method.recordsSteps passes start steps fun k within => ⟨_, entry k within, ?_⟩
    simp only [Progress.entry, extended, if_true]

def tracing : Options Float :=
  { Options.standard with storeTrace := true, extendedTrace := true, factor := 0.25 }

theorem trace_records_path_line :
    ∃ r, (solveFrom (line Float) tracing .trustRegion #v[4]).result = .ok r ∧ r.iterations = 3 ∧
      ∃ states ledgers, Passes (line Float) tracing .trustRegion #v[4] 3 states ledgers ∧
        r.trace.length = 4 ∧
        (∃ e, r.trace[3]? = some e ∧ e.Records (line Float) tracing .trustRegion states 3) ∧
        ∃ delta rho, TrustRegion.RecordsRadii (line Float) states 3 r.trace delta rho := by
  have computed : (solveFrom (line Float) tracing .trustRegion #v[4]).result.toOption.map
      Results.iterations = some 3 := by
    decide +kernel
  obtain ⟨r, returned, iterations⟩ := Plan.ok_of_toOption computed
  obtain ⟨length, states, ledgers, passes, same, count, entries, extended⟩ :=
    trace_records_path line_agrees rfl returned
  obtain rfl : length = 3 := by omega
  exact ⟨r, returned, iterations, states, ledgers, passes, count, entries 3 (Nat.le_refl 3),
    (extended rfl).2⟩

end RootFinding
