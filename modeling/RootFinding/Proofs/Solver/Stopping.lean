import RootFinding.Proofs.Solver.Entries

namespace RootFinding

variable {α : Type} [Scalar α] {n : Nat} {s : SquareSystem α} {o o' : Options α} {m : Method}
  {x : Vec α n}

def Options.SamePath (o o' : Options α) : Prop :=
  ∃ xtol ftol iterations, o' = { o with xtol := xtol, ftol := ftol, iterations := iterations }

omit [Scalar α] in
theorem Options.SamePath.symm (same : o.SamePath o') : o'.SamePath o := by
  obtain ⟨xtol, ftol, iterations, rfl⟩ := same
  exact ⟨o.xtol, o.ftol, o.iterations, rfl⟩

def Method.SamePlace : (m : Method) → m.State α n → m.State α n → Prop
  | trustRegion, (t : TrustRegion.State α n), t' =>
    ∃ tests, t' = { t with progress := { t.progress with tests := tests } }
  | newton, (t : Newton.State α n), t' =>
    ∃ tests, t' = { t with progress := { t.progress with tests := tests } }

theorem TrustRegion.step_samePlace (same : o.SamePath o') {t t' : TrustRegion.State α n}
    (place : Method.trustRegion.SamePlace t t') :
    Alike Method.trustRegion.SamePlace ((TrustRegion.step o t).value s.reply)
      ((TrustRegion.step o' t').value s.reply) := by
  obtain ⟨xtol, ftol, iterations, rfl⟩ := same
  obtain ⟨tests, rfl⟩ := place
  rw [TrustRegion.step_value, TrustRegion.step_value]
  refine (Alike.same (s.reply (.residual t.trialPoint))).bind ?_
  rintro trial _ rfl
  -- The ratio does not depend on the tests.
  change Alike _ (if acceptRatio < t.ratio trial then _ else _)
    (if acceptRatio < t.ratio trial then _ else _)
  split
  · refine (Alike.same (s.reply (.jacobian t.trialPoint))).bind ?_
    rintro jac _ rfl
    exact .ok ⟨_, rfl⟩
  · exact .ok ⟨_, rfl⟩

theorem Newton.step_samePlace (same : o.SamePath o') {t t' : Newton.State α n}
    (place : Method.newton.SamePlace t t') :
    Alike Method.newton.SamePlace ((Newton.step o t).value s.reply)
      ((Newton.step o' t').value s.reply) := by
  obtain ⟨xtol, ftol, iterations, rfl⟩ := same
  obtain ⟨tests, rfl⟩ := place
  rw [Newton.step_value, Newton.step_value]
  refine (Alike.same (newtonDirection t.progress.jac t.progress.fx _)).bind ?_
  rintro direction _ rfl
  refine (Alike.same (((t.merit direction).search t.lineSearch (t.slope direction)).value
    s.reply)).bind ?_
  rintro found _ rfl
  refine (Alike.same (checkStep found.1)).bind ?_
  rintro alpha _ rfl
  refine (Alike.same (s.reply (.both ((t.merit direction).point alpha)))).bind ?_
  rintro pair _ rfl
  exact .ok ⟨_, rfl⟩

theorem Options.SamePath.reached (same : o.SamePath o') (k : Nat) :
    Alike m.SamePlace (m.reached s o x k).1 (m.reached s o' x k).1 := by
  refine Method.reached_alike ?_ ?_ k
  · obtain ⟨xtol, ftol, iterations, rfl⟩ := same
    cases m with
    | trustRegion =>
      simp only [Method.start, TrustRegion.start_value]
      refine (Alike.same (s.reply (.both x))).bind ?_
      rintro pair _ rfl
      exact .ok ⟨_, rfl⟩
    | newton =>
      simp only [Method.start, Newton.start_value]
      refine (Alike.same (s.reply (.both x))).bind ?_
      rintro pair _ rfl
      exact .ok ⟨_, rfl⟩
  · intro t t' place
    cases m with
    | trustRegion => exact TrustRegion.step_samePlace same place
    | newton => exact Newton.step_samePlace same place

omit [Scalar α] in
theorem Method.SamePlace.trace {t t' : m.State α n} (place : m.SamePlace t t') :
    m.trace t' = m.trace t := by
  cases m <;>
  · obtain ⟨tests, rfl⟩ := place
    rfl

variable {length : Nat} {states : Nat → m.State α n} {ledgers : Nat → Ledger α n}

def Method.TakesAt (s : SquareSystem α) (o : Options α) (m : Method) (x : Vec α n) (k : Nat) :
    Prop :=
  ∃ t, (m.reached s o x k).1 = .ok t ∧ m.Takes s t

theorem Passes.takesAt (passes : Passes s o m x length states ledgers) {k : Nat}
    (within : k ≤ length) : m.TakesAt s o x k ↔ m.Takes s (states k) := by
  rw [Method.TakesAt, passes.reached k within]
  constructor
  · rintro ⟨t, same, takes⟩
    cases same
    exact takes
  · exact fun takes => ⟨states k, rfl, takes⟩

theorem Method.stepnorm_of_takes {t next : m.State α n} (takes : m.Takes s t) :
    m.stepnorm s t next = ((m.progress next).x - (m.progress t).x).norm := by
  cases m with
  | trustRegion => exact if_pos takes
  | newton => rfl

/-- What the entry of a trace after `k` iterations gives as a reason to stop: a small residual, a
short step that was taken, or the limit. -/
def Stops (s : SquareSystem α) (o : Options α) (m : Method) (x : Vec α n) (cap : Int)
    (entries : List (Entry α)) (k : Nat) : Prop :=
  ∃ e, entries[k]? = some e ∧
    (e.fnorm < o.ftol ∨
      (∃ j, k = j + 1 ∧ m.TakesAt s o x j ∧ 0 < o.xtol ∧ e.stepnorm < o.xtol) ∨ (k : Int) = cap)

theorem Passes.any_iff [LawfulScalar α] (passes : Passes s o m x length states ledgers)
    {k : Nat} (within : k ≤ length) {e : Entry α} (tells : e.Tells s m states k) :
    (m.progress (states k)).tests.any ↔ e.fnorm < o.ftol ∨
      ∃ j, k = j + 1 ∧ m.TakesAt s o x j ∧ 0 < o.xtol ∧ e.stepnorm < o.xtol := by
  rw [Convergence.any, Bool.or_eq_true, or_comm, passes.byResidual k within, tells.fnorm,
    Convergence.residualTest, decide_eq_true_eq]
  refine or_congr_right ?_
  cases k with
  | zero =>
    rw [passes.start_byStep]
    simp
  | succ j =>
    rw [Method.step_byStep (passes.step j within)]
    constructor
    · rintro ⟨takes, positive, near⟩
      refine ⟨j, rfl, (passes.takesAt (by omega)).mpr takes, positive, ?_⟩
      rw [tells.stepnorm j rfl, Method.stepnorm_of_takes takes]
      exact near
    · rintro ⟨i, same, takesAt, positive, near⟩
      obtain rfl : j = i := by omega
      have takes := (passes.takesAt (by omega)).mp takesAt
      rw [tells.stepnorm j rfl, Method.stepnorm_of_takes takes] at near
      exact ⟨takes, positive, near⟩

theorem Passes.stops_iff [LawfulScalar α] (passes : Passes s o m x length states ledgers)
    (admitted : o.invalid? = none) (stored : o.storeTrace) {cap : Int}
    (limit : o.iterations = .whole cap) {k : Nat} :
    Stops s o m x cap (m.trace (states length)) k ↔
      k ≤ length ∧ ((m.progress (states k)).tests.any ∨ k = o.iterations.below) := by
  obtain ⟨_, count, entries⟩ := passes.trace stored length (Nat.le_refl length)
  have nonneg := Options.cap_nonneg admitted limit
  have full : k = o.iterations.below ↔ (k : Int) = cap := by
    rw [limit, Count.below]
    omega
  constructor
  · rintro ⟨e, found, reason⟩
    have within : k ≤ length := by
      have bound := (List.getElem?_eq_some_iff.mp found).1
      omega
    obtain ⟨_, e', found', tells⟩ := entries k within
    cases found.symm.trans found'
    rw [passes.any_iff within tells, full]
    exact ⟨within, or_assoc.mpr reason⟩
  · rintro ⟨within, reason⟩
    obtain ⟨_, e, found, tells⟩ := entries k within
    rw [passes.any_iff within tells, full] at reason
    exact ⟨e, found, or_assoc.mp reason⟩

/-- The result of a solve that stopped as soon as there was a reason, with an entry for the start
and for each iteration. -/
def Results.StopsFirst (s : SquareSystem α) (o : Options α) (m : Method) (x : Vec α n) (cap : Int)
    (r : Results α) : Prop :=
  ∃ k : Nat, r.iterations = k ∧ r.trace.length = k + 1 ∧ Stops s o m x cap r.trace k ∧
    ∀ j < k, ¬ Stops s o m x cap r.trace j

theorem solveFrom_stopsFirst [LawfulScalar α] (admitted : o.invalid? = none)
    (stored : o.storeTrace) {cap : Int} (limit : o.iterations = .whole cap) {r : Results α}
    (returned : (solveFrom s o m x).result = .ok r) : r.StopsFirst s o m x cap := by
  obtain ⟨length, states, ledgers, passes, going, bound, reason, rfl⟩ := solveFrom_passes returned
  obtain ⟨_, count, _⟩ := passes.trace stored length (Nat.le_refl length)
  refine ⟨length, congrArg Nat.cast (passes.iteration length (Nat.le_refl length)), count, ?_,
    fun k less stops => ?_⟩
  · exact (passes.stops_iff admitted stored limit).mpr ⟨Nat.le_refl length, reason⟩
  · obtain ⟨_, holds | full⟩ := (passes.stops_iff admitted stored limit).mp stops
    · rw [going k less] at holds
      cases holds
    · omega

theorem Options.SamePath.trace_prefix (same : o.SamePath o') (stored : o'.storeTrace)
    {r r' : Results α} (returned : (solveFrom s o m x).result = .ok r)
    (returned' : (solveFrom s o' m x).result = .ok r') (le : r.iterations ≤ r'.iterations) :
    r.trace <+: r'.trace := by
  obtain ⟨length, states, ledgers, passes, _, _, _, rfl⟩ := solveFrom_passes returned
  obtain ⟨length', states', ledgers', passes', _, _, _, rfl⟩ := solveFrom_passes returned'
  have within : length ≤ length' := by
    have count := passes.iteration length (Nat.le_refl length)
    have count' := passes'.iteration length' (Nat.le_refl length')
    change ((m.progress (states length)).iteration : Int) ≤
      ((m.progress (states' length')).iteration : Int) at le
    omega
  obtain ⟨others, _, along, places⟩ := passes.alike same.reached
  have same' : m.trace (states' length) = m.trace (states length) := by
    rw [passes'.unique along within (Nat.le_refl length)]
    exact (places length (Nat.le_refl length)).trace
  change m.trace (states length) <+: m.trace (states' length')
  rw [← same']
  obtain ⟨_, _, entries⟩ := passes'.trace stored length' (Nat.le_refl length')
  exact (entries length within).1

/-- Options that differ only in the tolerances and the limit lead along one path. Each solve stops
on it at the first reason that its own options give; so one trace is a prefix of the other, and a
solve returns if another one has returned from no earlier on the path. -/
theorem tolerances_only_stop [LawfulScalar α] (same : o.SamePath o') (stored : o.storeTrace)
    (admitted : o.invalid? = none) (admitted' : o'.invalid? = none) {cap cap' : Int}
    (limit : o.iterations = .whole cap) (limit' : o'.iterations = .whole cap') :
    (∀ r, (solveFrom s o m x).result = .ok r → r.StopsFirst s o m x cap) ∧
      (∀ r', (solveFrom s o' m x).result = .ok r' → r'.StopsFirst s o' m x cap') ∧
      (∀ r r', (solveFrom s o m x).result = .ok r → (solveFrom s o' m x).result = .ok r' →
        r.iterations ≤ r'.iterations ∧ r.trace <+: r'.trace ∨
          r'.iterations ≤ r.iterations ∧ r'.trace <+: r.trace) ∧
      ∀ r, (solveFrom s o m x).result = .ok r → ∀ k, Stops s o' m x cap' r.trace k →
        ∃ r', (solveFrom s o' m x).result = .ok r' := by
  have stored' : o'.storeTrace := by
    obtain ⟨_, _, _, rfl⟩ := same
    exact stored
  refine ⟨fun r => solveFrom_stopsFirst admitted stored limit,
    fun r' => solveFrom_stopsFirst admitted' stored' limit', fun r r' returned returned' => ?_,
    fun r returned k stops => ?_⟩
  · rcases le_total r.iterations r'.iterations with le | ge
    · exact .inl ⟨le, same.trace_prefix stored' returned returned' le⟩
    · exact .inr ⟨ge, same.symm.trace_prefix stored returned' returned ge⟩
  · obtain ⟨length, states, ledgers, passes, _, _, _, rfl⟩ := solveFrom_passes returned
    obtain ⟨states', ledgers', passes', places⟩ := passes.alike same.reached
    have shared : m.trace (states' length) = m.trace (states length) :=
      (places length (Nat.le_refl length)).trace
    change Stops s o' m x cap' (m.trace (states length)) k at stops
    rw [← shared, passes'.stops_iff admitted' stored' limit'] at stops
    exact solveFrom_returns passes' stops.1 stops.2

def storing : Options Float := { Options.standard with storeTrace := true }

def storingStart : Options Float := { storing with xtol := 1, iterations := .whole 0 }

theorem tolerances_only_stop_line :
    ∃ r r', (solveFrom (line Float) storing .trustRegion #v[4]).result = .ok r ∧
      (solveFrom (line Float) storingStart .trustRegion #v[4]).result = .ok r' ∧
      r.iterations = 1 ∧ r'.iterations = 0 ∧ r'.trace <+: r.trace ∧
      r.StopsFirst (line Float) storing .trustRegion #v[4] 1000 := by
  have admitted : storing.invalid?.isNone := by decide +kernel
  have admitted' : storingStart.invalid?.isNone := by decide +kernel
  have computed : (solveFrom (line Float) storing .trustRegion #v[4]).result.toOption.map
      Results.iterations = some 1 := by
    decide +kernel
  have computed' : (solveFrom (line Float) storingStart .trustRegion #v[4]).result.toOption.map
      Results.iterations = some 0 := by
    decide +kernel
  obtain ⟨r, returned, iterations⟩ := Plan.ok_of_toOption computed
  obtain ⟨r', returned', iterations'⟩ := Plan.ok_of_toOption computed'
  obtain ⟨first, _, nested, _⟩ := tolerances_only_stop (s := line Float) (m := .trustRegion)
    (x := #v[4]) ⟨1, storing.ftol, .whole 0, rfl⟩ rfl (Option.isNone_iff_eq_none.mp admitted)
    (Option.isNone_iff_eq_none.mp admitted') rfl rfl
  refine ⟨r, r', returned, returned', iterations, iterations', ?_, first r returned⟩
  rcases nested r r' returned returned' with ⟨le, _⟩ | ⟨_, shorter⟩
  · omega
  · exact shorter

end RootFinding
