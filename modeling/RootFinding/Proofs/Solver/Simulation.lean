import RootFinding.Proofs.Solver.Passes

namespace RootFinding

section Alike

variable {ε ε' β β' γ γ' : Type} {related : β → γ → Prop} {r : Except ε β} {r' : Except ε' γ}

/-- Both succeed with related results, or both fail. -/
inductive Alike (related : β → γ → Prop) : Except ε β → Except ε' γ → Prop
  | ok {b : β} {c : γ} (holds : related b c) : Alike related (.ok b) (.ok c)
  | error (e : ε) (e' : ε') : Alike related (.error e) (.error e')

theorem Alike.same (r : Except ε β) : Alike (· = ·) r r := by
  cases r with
  | error e => exact .error e e
  | ok b => exact .ok rfl

theorem Alike.bind {last : β' → γ' → Prop} {f : β → Except ε β'} {f' : γ → Except ε' γ'}
    (first : Alike related r r') (rest : ∀ b c, related b c → Alike last (f b) (f' c)) :
    Alike last (r >>= f) (r' >>= f') := by
  cases first with
  | ok holds => exact rest _ _ holds
  | error e e' => exact .error e e'

theorem Alike.flip (alike : Alike related r r') : Alike (fun c b => related b c) r' r := by
  cases alike with
  | ok holds => exact .ok holds
  | error e e' => exact .error e' e

theorem Alike.known (alike : Alike related r r') :
    Alike (fun b c => r = .ok b ∧ related b c) r r' := by
  cases alike with
  | ok holds => exact .ok ⟨rfl, holds⟩
  | error e e' => exact .error e e'

theorem Alike.weaken {weaker : β → γ → Prop} (alike : Alike related r r')
    (implied : ∀ b c, related b c → weaker b c) : Alike weaker r r' := by
  cases alike with
  | ok holds => exact .ok (implied _ _ holds)
  | error e e' => exact .error e e'

theorem Alike.of_ok {b : β} (alike : Alike related r r') (found : r = .ok b) :
    ∃ c, r' = .ok c ∧ related b c := by
  cases alike with
  | ok holds =>
    cases found
    exact ⟨_, rfl, holds⟩
  | error e e' => cases found

theorem Alike.isOk (alike : Alike related r r') (fine : r.isOk) : r'.isOk := by
  cases alike with
  | ok holds => rfl
  | error e e' => cases fine

theorem Alike.fails_iff (alike : Alike related r r') :
    (∃ e', r' = .error e') ↔ ∃ e, r = .error e := by
  cases alike with
  | ok holds => simp only [reduceCtorEq, exists_false]
  | error e e' => exact iff_of_true ⟨e', rfl⟩ ⟨e, rfl⟩

theorem alike_iff : Alike related r r' ↔
    (∀ b, r = .ok b → ∃ c, r' = .ok c ∧ related b c) ∧
      ∀ c, r' = .ok c → ∃ b, r = .ok b ∧ related b c := by
  constructor
  · intro alike
    exact ⟨fun b => alike.of_ok, fun c => alike.flip.of_ok⟩
  · rintro ⟨forth, back⟩
    cases r with
    | ok b =>
      obtain ⟨c, rfl, holds⟩ := forth b rfl
      exact .ok holds
    | error e =>
      cases r' with
      | ok c =>
        obtain ⟨b, none, _⟩ := back c rfl
        cases none
      | error e' => exact .error e e'

end Alike

section Plans

variable {Q : Type} {R : Q → Type} {ε β : Type} {reply reply' : (q : Q) → Except ε (R q)}

theorem Plan.value_alike (alike : ∀ q, Alike (· = ·) (reply q) (reply' q)) (p : Plan Q R ε β) :
    Alike (· = ·) (p.value reply) (p.value reply') := by
  induction p with
  | done b => exact .ok rfl
  | fail e => exact .error e e
  | ask q k ih =>
    have here := alike q
    simp only [value]
    generalize reply q = r at here ⊢
    generalize reply' q = r' at here ⊢
    cases here with
    | ok same => exact same ▸ ih _
    | error e e' => exact .error e e'

theorem Plan.requests_alike (alike : ∀ q, Alike (· = ·) (reply q) (reply' q))
    (p : Plan Q R ε β) : p.requests reply' = p.requests reply := by
  induction p with
  | done b => rfl
  | fail e => rfl
  | ask q k ih =>
    have here := alike q
    simp only [requests]
    generalize reply q = r at here ⊢
    generalize reply' q = r' at here ⊢
    cases here with
    | ok same => exact same ▸ congrArg (q :: ·) (ih _)
    | error e e' => rfl

end Plans

variable {α α' : Type} [Scalar α] [Scalar α'] {n n' : Nat} {s : SquareSystem α}
  {s' : SquareSystem α'} {o : Options α} {o' : Options α'} {m m' : Method} {x : Vec α n}
  {x' : Vec α' n'}

namespace Method

theorem reached_zero_fst : (m.reached s o x 0).1 = (m.start o x).value s.reply :=
  Ledger.run_fst s _ _

theorem reached_succ_fst (k : Nat) : (m.reached s o x (k + 1)).1 =
    (m.reached s o x k).1 >>= fun state => (m.step o state).value s.reply := by
  rw [reached]
  rcases m.reached s o x k with ⟨failure | state, ledger⟩
  · rfl
  · exact Ledger.run_fst s _ _

theorem reached_alike {related : m.State α n → m'.State α' n' → Prop}
    (start : Alike related ((m.start o x).value s.reply) ((m'.start o' x').value s'.reply))
    (step : ∀ t t', related t t' →
      Alike related ((m.step o t).value s.reply) ((m'.step o' t').value s'.reply)) (k : Nat) :
    Alike related (m.reached s o x k).1 (m'.reached s' o' x' k).1 := by
  induction k with
  | zero =>
    rw [reached_zero_fst, reached_zero_fst]
    exact start
  | succ k ih =>
    rw [reached_succ_fst, reached_succ_fst]
    exact ih.bind step

end Method

variable {length : Nat} {states : Nat → m.State α n} {ledgers : Nat → Ledger α n}

theorem Passes.reached (passes : Passes s o m x length states ledgers) :
    ∀ k ≤ length, m.reached s o x k = (.ok (states k), ledgers k) := by
  intro k
  induction k with
  | zero => exact fun _ => passes.start
  | succ k ih =>
    intro within
    rw [Method.reached, ih (by omega)]
    exact passes.step k within

theorem Passes.take (passes : Passes s o m x length states ledgers) {k : Nat} (le : k ≤ length) :
    Passes s o m x k states ledgers :=
  ⟨passes.start, fun j less => passes.step j (by omega)⟩

theorem Passes.unique {length' : Nat} {states' : Nat → m.State α n} {ledgers' : Nat → Ledger α n}
    (passes : Passes s o m x length states ledgers)
    (passes' : Passes s o m x length' states' ledgers') {k : Nat} (within : k ≤ length)
    (within' : k ≤ length') : states k = states' k := by
  have same := (passes.reached k within).symm.trans (passes'.reached k within')
  exact Except.ok.inj (congrArg Prod.fst same)

theorem Passes.reached_isOk (passes : Passes s o m x length states ledgers) {k : Nat}
    (within : k ≤ length) : (m.reached s o x k).1.isOk := by
  rw [passes.reached k within]
  rfl

theorem passes_of_values (start : (m.start o x).value s.reply = .ok (states 0))
    (step : ∀ k < length, (m.step o (states k)).value s.reply = .ok (states (k + 1))) :
    ∃ ledgers, Passes s o m x length states ledgers := by
  have values : ∀ k ≤ length, (m.reached s o x k).1 = .ok (states k) := by
    intro k
    induction k with
    | zero => exact fun _ => Method.reached_zero_fst.trans start
    | succ k ih =>
      intro within
      rw [Method.reached_succ_fst, ih (Nat.le_of_lt within)]
      exact step k within
  obtain ⟨states', ledgers, passes, known⟩ :=
    passes_of_reached (Except.isOk_iff.mpr ⟨_, values length (Nat.le_refl length)⟩)
  have same (k : Nat) (within : k ≤ length) : states' k = states k := by
    have value := values k within
    rw [known k within] at value
    exact Except.ok.inj value
  refine ⟨ledgers, ?_, fun k less => ?_⟩
  · rw [← same 0 (Nat.zero_le length)]
    exact passes.start
  · rw [← same k (Nat.le_of_lt less), ← same (k + 1) less]
    exact passes.step k less

theorem Passes.extend {k count : Nat} {later : Nat → m.State α n}
    {laterLedgers : Nat → Ledger α n} (passes : Passes s o m x k states ledgers)
    (first : later 0 = states k) (firstLedger : laterLedgers 0 = ledgers k)
    (steps : ∀ i < count, (m.step o (later i)).run (Ledger.answer s) (laterLedgers i) =
      (.ok (later (i + 1)), laterLedgers (i + 1))) :
    ∃ (all : Nat → m.State α n) (allLedgers : Nat → Ledger α n),
      Passes s o m x (k + count) all allLedgers ∧
        (∀ j ≤ k, all j = states j ∧ allLedgers j = ledgers j) ∧
        ∀ i, all (k + i) = later i ∧ allLedgers (k + i) = laterLedgers i := by
  let all (j : Nat) := if j ≤ k then states j else later (j - k)
  let allLedgers (j : Nat) := if j ≤ k then ledgers j else laterLedgers (j - k)
  have early (j : Nat) (le : j ≤ k) : all j = states j ∧ allLedgers j = ledgers j :=
    ⟨if_pos le, if_pos le⟩
  have late (i : Nat) : all (k + i) = later i ∧ allLedgers (k + i) = laterLedgers i := by
    cases i with
    | zero =>
      rw [first, firstLedger]
      exact early k (Nat.le_refl k)
    | succ i =>
      have beyond : ¬ k + (i + 1) ≤ k := by omega
      simp only [all, allLedgers, if_neg beyond, Nat.add_sub_cancel_left, and_self]
  refine ⟨all, allLedgers, ⟨?_, fun j less => ?_⟩, early, late⟩
  · rw [(early 0 (Nat.zero_le k)).1, (early 0 (Nat.zero_le k)).2]
    exact passes.start
  · by_cases before : j < k
    · rw [(early j before.le).1, (early j before.le).2, (early (j + 1) before).1,
        (early (j + 1) before).2]
      exact passes.step j before
    · obtain ⟨i, rfl⟩ := Nat.exists_eq_add_of_le (not_lt.mp before)
      rw [(late i).1, (late i).2, Nat.add_assoc, (late (i + 1)).1, (late (i + 1)).2]
      exact steps i (by omega)

theorem Passes.alike {related : m.State α n → m'.State α' n' → Prop}
    (alike : ∀ k, Alike related (m.reached s o x k).1 (m'.reached s' o' x' k).1)
    (passes : Passes s o m x length states ledgers) :
    ∃ (states' : Nat → m'.State α' n') (ledgers' : Nat → Ledger α' n'),
      Passes s' o' m' x' length states' ledgers' ∧
        ∀ k ≤ length, related (states k) (states' k) := by
  obtain ⟨states', ledgers', passes', known⟩ :=
    passes_of_reached ((alike length).isOk (passes.reached_isOk (Nat.le_refl length)))
  refine ⟨states', ledgers', passes', fun k within => ?_⟩
  obtain ⟨state', found', holds⟩ :=
    (alike k).of_ok (congrArg Prod.fst (passes.reached k within))
  rw [known k within] at found'
  cases found'
  exact holds

theorem Method.iterate_of_steps {passes : Nat}
    (steps : ∀ k < length, (m.step o (states k)).run (Ledger.answer s) (ledgers k) =
      (.ok (states (k + 1)), ledgers (k + 1)))
    (going : ∀ k < length, (m.progress (states k)).tests.any = false) (bound : length ≤ passes)
    (reason : (m.progress (states length)).tests.any ∨ length = passes) :
    (m.iterate o passes (states 0)).run (Ledger.answer s) (ledgers 0) =
      (.ok (states length), ledgers length) := by
  induction passes generalizing states ledgers length with
  | zero =>
    obtain rfl : length = 0 := by omega
    rw [iterate_zero]
    rfl
  | succ passes ih =>
    rw [iterate_succ]
    cases length with
    | zero =>
      rw [if_pos (reason.resolve_right (by omega))]
      rfl
    | succ length =>
      rw [if_neg (Bool.eq_false_iff.mp (going 0 (by omega)))]
      refine Plan.run_bind_ok.mpr ⟨states 1, ledgers 1, steps 0 (by omega), ?_⟩
      exact @ih length (fun k => states (k + 1)) (fun k => ledgers (k + 1))
        (fun k less => steps (k + 1) (by omega)) (fun k less => going (k + 1) (by omega))
        (by omega) (reason.imp_right (by omega))

theorem solveFrom_of_passes (passes : Passes s o m x length states ledgers)
    (going : ∀ k < length, (m.progress (states k)).tests.any = false)
    (bound : length ≤ o.iterations.below)
    (reason : (m.progress (states length)).tests.any ∨ length = o.iterations.below) :
    (solveFrom s o m x).result = .ok ((m.progress (states length)).results o m.name x
      (ledgers length).session.fCalls (ledgers length).session.jCalls) := by
  have iterated := Method.iterate_of_steps passes.step going bound reason
  rw [solveFrom_result, Method.run_eq, Plan.run_bind, passes.start]
  dsimp only
  rw [Plan.run_bind, iterated]
  dsimp only
  -- Only a notice may follow.
  cases (m.progress (states length)).tests.any <;> rfl

theorem solveFrom_returns (passes : Passes s o m x length states ledgers) {k : Nat}
    (within : k ≤ length)
    (reason : (m.progress (states k)).tests.any ∨ k = o.iterations.below) :
    ∃ r, (solveFrom s o m x).result = .ok r := by
  classical
  -- The first such state is the one in which it stops.
  have some' : ∃ k, (m.progress (states k)).tests.any ∨ k = o.iterations.below := ⟨k, reason⟩
  have first := Nat.find_spec some'
  have before {j : Nat} (less : j < Nat.find some') := Nat.find_min some' less
  have least := Nat.find_min' some' reason
  generalize Nat.find some' = stop at first before least
  refine ⟨_, solveFrom_of_passes (passes.take (least.trans within)) (fun j less => ?_) ?_ first⟩
  · exact Bool.eq_false_iff.mpr fun holds => before less (.inl holds)
  · by_contra beyond
    exact before (not_le.mp beyond) (.inr rfl)

/-- Related paths on which the same tests hold end alike. -/
theorem solveFrom_related {related : m.State α n → m'.State α' n' → Prop}
    {last : Results α → Results α' → Prop}
    (alike : ∀ k, Alike related (m.reached s o x k).1 (m'.reached s' o' x' k).1)
    (tests : ∀ t t', related t t' → (m'.progress t').tests.any = (m.progress t).tests.any)
    (limit : o'.iterations.below = o.iterations.below)
    (results : ∀ length states ledgers states' ledgers', Passes s o m x length states ledgers →
      Passes s' o' m' x' length states' ledgers' → (∀ k ≤ length, related (states k) (states' k)) →
        last ((m.progress (states length)).results o m.name x (ledgers length).session.fCalls
            (ledgers length).session.jCalls)
          ((m'.progress (states' length)).results o' m'.name x' (ledgers' length).session.fCalls
            (ledgers' length).session.jCalls)) {r : Results α}
    (returned : (solveFrom s o m x).result = .ok r) :
    ∃ r', (solveFrom s' o' m' x').result = .ok r' ∧ last r r' := by
  obtain ⟨length, states, ledgers, passes, going, bound, reason, rfl⟩ := solveFrom_passes returned
  obtain ⟨states', ledgers', passes', holds⟩ := passes.alike alike
  refine ⟨_, solveFrom_of_passes passes' (fun k less => ?_) (bound.trans_eq limit.symm) ?_,
    results length states ledgers states' ledgers' passes passes' holds⟩
  · rw [tests _ _ (holds k less.le)]
    exact going k less
  · rw [tests _ _ (holds length (Nat.le_refl length)), limit]
    exact reason

theorem solveFrom_abreast {related : m.State α n → m'.State α' n' → Prop}
    {last : Results α → Results α' → Prop}
    (alike : ∀ k, Alike related (m.reached s o x k).1 (m'.reached s' o' x' k).1)
    (tests : ∀ t t', related t t' → (m'.progress t').tests.any = (m.progress t).tests.any)
    (limit : o'.iterations.below = o.iterations.below)
    (results : ∀ length states ledgers states' ledgers', Passes s o m x length states ledgers →
      Passes s' o' m' x' length states' ledgers' → (∀ k ≤ length, related (states k) (states' k)) →
        last ((m.progress (states length)).results o m.name x (ledgers length).session.fCalls
            (ledgers length).session.jCalls)
          ((m'.progress (states' length)).results o' m'.name x' (ledgers' length).session.fCalls
            (ledgers' length).session.jCalls)) :
    Alike last (solveFrom s o m x).result (solveFrom s' o' m' x').result := by
  refine alike_iff.mpr ⟨fun r => solveFrom_related alike tests limit results, fun r' => ?_⟩
  exact @solveFrom_related _ _ _ _ _ _ s' s o' o m' m x' x (fun t' t => related t t')
    (fun r' r => last r r') (fun k => (alike k).flip) (fun t' t holds => (tests t t' holds).symm)
    limit.symm (fun length states' ledgers' states ledgers passes' passes holds =>
      results length states ledgers states' ledgers' passes passes' holds) r'

theorem solveFrom_alike {related : m.State α n → m'.State α' n' → Prop}
    {last : Results α → Results α' → Prop}
    (alike : ∀ k, Alike related (m.reached s o x k).1 (m'.reached s' o' x' k).1)
    (tests : ∀ t t', related t t' → (m'.progress t').tests.any = (m.progress t).tests.any)
    (limit : o'.iterations.below = o.iterations.below)
    (results : ∀ t t', related t t' → ∀ f j f' j', last ((m.progress t).results o m.name x f j)
      ((m'.progress t').results o' m'.name x' f' j')) :
    Alike last (solveFrom s o m x).result (solveFrom s' o' m' x').result :=
  solveFrom_abreast alike tests limit fun length _ _ _ _ _ _ holds =>
    results _ _ (holds length (Nat.le_refl length)) _ _ _ _

end RootFinding
