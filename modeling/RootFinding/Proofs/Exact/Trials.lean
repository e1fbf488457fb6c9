import RootFinding.Proofs.Exact.Interpolation
import RootFinding.Proofs.Exact.Scaling
import RootFinding.Proofs.LineSearch.MeritFunction

namespace RootFinding

open Exact

namespace Backtracking

variable {b : Backtracking ℝ} {φ : MeritFunction ℝ} {phi0 slope : ℝ}

structure Admitted (b : Backtracking ℝ) : Prop where
  decrease : 0 < b.c1 ∧ b.c1 < 1
  lowest : 0 < b.rhoLo
  ordered : b.rhoLo ≤ b.rhoHi
  highest : b.rhoHi < 1
  limit : ∀ limit ∈ b.maxstep, 0 < limit

theorem admitted_of_invalid? (valid : b.invalid? = none) : b.Admitted := by
  simp only [invalid?] at valid
  split at valid
  · cases valid
  rename_i decrease
  split at valid
  · cases valid
  rename_i reduction
  split at valid
  · cases valid
  split at valid
  · cases valid
  split at valid
  · cases valid
  rename_i longest
  rw [not_not] at decrease reduction
  obtain ⟨lowest, ordered, highest⟩ := reduction
  refine ⟨decrease, lowest, ordered, highest, fun limit member => ?_⟩
  rw [Option.mem_def.mp member, Option.any_some, decide_eq_true_iff, not_not] at longest
  exact longest

theorem initialStep_eq (b : Backtracking ℝ) (length : ℝ) :
    (b.maxstep = none ∨ length = 0 → b.initialStep length = 1) ∧
      ∀ limit ∈ b.maxstep, length ≠ 0 → b.initialStep length = min 1 (limit / length) := by
  rw [initialStep, beq_eq]
  cases b.maxstep with
  | none => exact ⟨fun _ => rfl, fun _ none => nomatch none⟩
  | some limit =>
    simp only [decide_eq_true_eq, smaller_eq]
    constructor
    · rintro (none | zero)
      · cases none
      · exact if_pos zero
    · intro limit' known nonzero
      cases known
      exact if_neg nonzero

theorem initialStep_mem (admitted : b.Admitted) {length : ℝ} (nonneg : 0 ≤ length) :
    0 < b.initialStep length ∧ b.initialStep length ≤ 1 := by
  obtain ⟨free, limited⟩ := b.initialStep_eq length
  by_cases unlimited : b.maxstep = none ∨ length = 0
  · rw [free unlimited]
    exact ⟨one_pos, le_refl 1⟩
  · obtain ⟨bounded, nonzero⟩ := not_or.mp unlimited
    obtain ⟨limit, known⟩ := Option.ne_none_iff_exists'.mp bounded
    rw [limited limit known nonzero]
    have positive := lt_of_le_of_ne nonneg (Ne.symm nonzero)
    exact ⟨lt_min one_pos (div_pos (admitted.limit limit known) positive), min_le_left _ _⟩

theorem initialStep_mul_le (admitted : b.Admitted) {length : ℝ} (nonneg : 0 ≤ length) :
    ∀ limit ∈ b.maxstep, b.initialStep length * length ≤ limit := by
  intro limit known
  rcases nonneg.lt_or_eq with positive | zero
  · rw [(b.initialStep_eq length).2 limit known positive.ne', ← le_div_iff₀ positive]
    exact min_le_right _ _
  · rw [← zero, mul_zero]
    exact (admitted.limit limit known).le

theorem safeguard_eq (b : Backtracking ℝ) (last : ℝ) (step : Option ℝ) :
    b.safeguard last step =
      max (min (step.getD (b.rhoHi * last)) (b.rhoHi * last)) (b.rhoLo * last) := by
  have usable : step.filter Scalar.isFinite = step := by cases step <;> rfl
  rw [safeguard, larger_eq, smaller_eq, usable, mul_comm last, mul_comm last]

theorem safeguard_between (admitted : b.Admitted) {last : ℝ} (positive : 0 < last)
    (step : Option ℝ) :
    b.rhoLo * last ≤ b.safeguard last step ∧ b.safeguard last step ≤ b.rhoHi * last := by
  have ordered := mul_le_mul_of_nonneg_right admitted.ordered positive.le
  rw [safeguard_eq]
  exact ⟨le_max_right _ _, max_le (min_le_right _ _) ordered⟩

theorem safeguard_none (admitted : b.Admitted) {last : ℝ} (positive : 0 < last) :
    b.safeguard last none = b.rhoHi * last := by
  rw [safeguard_eq, Option.getD_none, min_self]
  exact max_eq_left (mul_le_mul_of_nonneg_right admitted.ordered positive.le)

theorem proposal_of_quadratic {first : Bool} (quadratic : b.order.equals 2 = true ∨ first = true)
    (older newer : Trial ℝ) :
    b.proposal phi0 slope first older newer = .ok (some (b.quadraticStep phi0 slope newer)) := by
  rw [proposal, if_pos (Bool.or_eq_true_iff.mpr quadratic)]

theorem proposal_of_cubic (cubic : b.order.equals 2 = false) (older newer : Trial ℝ) :
    b.proposal phi0 slope false older newer = cubicProposal phi0 slope older newer := by
  rw [proposal, cubic]
  rfl

theorem proposal_ok (b : Backtracking ℝ) (phi0 slope : ℝ) (first : Bool)
    (older newer : Trial ℝ) : ∃ step, b.proposal phi0 slope first older newer = .ok step := by
  rw [proposal]
  split
  · exact ⟨_, rfl⟩
  · exact cubicProposal_ok phi0 slope older newer

theorem tooHigh_eq_false {t : Trial ℝ} :
    b.tooHigh phi0 slope t = false ↔ t.phi ≤ phi0 + b.c1 * t.alpha * slope := by
  rw [tooHigh, decide_eq_false_iff_not, not_lt]

theorem reduce_of_low {left : Nat} {first : Bool} {older newer : Trial ℝ}
    (low : b.tooHigh phi0 slope newer = false) :
    b.reduce phi0 slope left first older newer = pure newer.alpha := by
  cases left <;> simp only [reduce, low, Bool.false_eq_true, if_false]

theorem requests_value_bind {next : ℝ → Search ℝ ℝ} {t phi : ℝ} (value : φ.value t = .ok phi) :
    Plan.requests φ.reply (Search.value t >>= next) =
      .value t :: Plan.requests φ.reply (next phi) := by
  rw [Plan.requests_bind, Search.value_value, value]
  exact congrArg (· ++ _) (Plan.requests_request _)

/-- A search from a step length on, with so many reductions left and the trial before, if any: the
step lengths that are tried, what is asked for them, and how the search ends. -/
inductive Reduces (b : Backtracking ℝ) (φ : MeritFunction ℝ) (phi0 slope : ℝ) :
    Nat → Option (Trial ℝ) → List ℝ → List (MeritRequest ℝ) → Except (Failure ℝ) ℝ → Prop where
  | failed {left : Nat} {older : Option (Trial ℝ)} {t : ℝ} {e : Failure ℝ}
    (value : φ.value t = .error e) : Reduces b φ phi0 slope left older [t] [.value t] (.error e)
  | low {left : Nat} {older : Option (Trial ℝ)} {t phi : ℝ} (value : φ.value t = .ok phi)
    (below : phi ≤ phi0 + b.c1 * t * slope) :
    Reduces b φ phi0 slope left older [t] [.value t] (.ok t)
  | spent {older : Option (Trial ℝ)} {t phi : ℝ} (value : φ.value t = .ok phi)
    (above : phi0 + b.c1 * t * slope < phi) :
    Reduces b φ phi0 slope 0 older [t] [.value t, .note (.reductionsSpent b.iterations t)] (.ok t)
  | reduced {left : Nat} {older : Option (Trial ℝ)} {t phi : ℝ} {step : Option ℝ}
    {trials : List ℝ} {asked : List (MeritRequest ℝ)} {out : Except (Failure ℝ) ℝ}
    (value : φ.value t = .ok phi) (above : phi0 + b.c1 * t * slope < phi)
    (proposed : b.proposal phi0 slope older.isNone (older.getD ⟨t, phi⟩) ⟨t, phi⟩ = .ok step)
    (rest : Reduces b φ phi0 slope left (some ⟨t, phi⟩) (b.safeguard t step :: trials) asked out) :
    Reduces b φ phi0 slope (left + 1) older (t :: b.safeguard t step :: trials)
      (.value t :: asked) out

theorem reduces_value {left : Nat} {older : Option (Trial ℝ)} {t : ℝ} {next : ℝ → Search ℝ ℝ}
    (low : ∀ phi, phi ≤ phi0 + b.c1 * t * slope → next phi = pure t)
    (high : ∀ phi, φ.value t = .ok phi → phi0 + b.c1 * t * slope < phi →
      ∃ trials, Reduces b φ phi0 slope left older (t :: trials)
        (.value t :: Plan.requests φ.reply (next phi)) (Plan.value φ.reply (next phi))) :
    ∃ trials, Reduces b φ phi0 slope left older (t :: trials)
      (Plan.requests φ.reply (Search.value t >>= next))
      (Plan.value φ.reply (Search.value t >>= next)) := by
  rw [Plan.value_bind, Search.value_value]
  cases value : φ.value t with
  | error e =>
    refine ⟨[], ?_⟩
    rw [Plan.requests_bind, Search.value_value, value, List.append_nil, Search.value,
      Plan.requests_request]
    exact .failed value
  | ok phi =>
    rw [requests_value_bind value]
    change ∃ trials, Reduces b φ phi0 slope left older (t :: trials) _
      (Plan.value φ.reply (next phi))
    rcases le_or_gt phi (phi0 + b.c1 * t * slope) with below | above
    · rw [low phi below]
      exact ⟨[], .low value below⟩
    · exact high phi value above

theorem reduce_reduces (b : Backtracking ℝ) (φ : MeritFunction ℝ) (phi0 slope : ℝ) (left : Nat)
    (older : Option (Trial ℝ)) (t : ℝ) :
    let p : Search ℝ ℝ := Search.value t >>= fun phi =>
      b.reduce phi0 slope left older.isNone (older.getD ⟨t, phi⟩) ⟨t, phi⟩
    ∃ trials, Reduces b φ phi0 slope left older (t :: trials) (Plan.requests φ.reply p)
      (Plan.value φ.reply p) := by
  induction left generalizing older t with
  | zero =>
    refine reduces_value (fun phi below => reduce_of_low (tooHigh_eq_false.mpr below))
      fun phi value above => ⟨[], ?_⟩
    have high : b.tooHigh phi0 slope ⟨t, phi⟩ = true := decide_eq_true above
    simp only [reduce, high, if_true]
    exact .spent value above
  | succ left ih =>
    refine reduces_value (fun phi below => reduce_of_low (tooHigh_eq_false.mpr below))
      fun phi value above => ?_
    have high : b.tooHigh phi0 slope ⟨t, phi⟩ = true := decide_eq_true above
    obtain ⟨step, proposed⟩ :=
      b.proposal_ok phi0 slope older.isNone (older.getD ⟨t, phi⟩) ⟨t, phi⟩
    obtain ⟨trials, rest⟩ := ih (some ⟨t, phi⟩) (b.safeguard t step)
    simp only [reduce, high, if_true, proposed]
    exact ⟨_, .reduced value above proposed rest⟩

theorem search_reduces (b : Backtracking ℝ) (φ : MeritFunction ℝ) (phi0 slope length : ℝ) :
    ∃ trials, Reduces b φ phi0 slope b.iterations.upTo none (b.initialStep length :: trials)
      (Plan.requests φ.reply (b.search phi0 slope length))
      (Plan.value φ.reply (b.search phi0 slope length)) :=
  reduce_reduces b φ phi0 slope b.iterations.upTo none (b.initialStep length)

theorem Reduces.reduction {left : Nat} {older : Option (Trial ℝ)} {trials : List ℝ}
    {asked : List (MeritRequest ℝ)} {out : Except (Failure ℝ) ℝ}
    (reduces : Reduces b φ phi0 slope left older trials asked out) {earlier later : List ℝ}
    {newer next : ℝ} (split : trials = earlier ++ newer :: next :: later) :
    ∃ before phi step, (earlier = [] → before = older) ∧
      (∀ t ∈ earlier.getLast?, ∃ phi', φ.value t = .ok phi' ∧ before = some ⟨t, phi'⟩) ∧
      φ.value newer = .ok phi ∧
      b.proposal phi0 slope before.isNone (before.getD ⟨newer, phi⟩) ⟨newer, phi⟩ = .ok step ∧
      next = b.safeguard newer step := by
  induction reduces generalizing earlier with
  | failed | low | spent =>
    have short := congrArg List.length split
    simp only [List.length_append, List.length_cons, List.length_nil] at short
    omega
  | @reduced _ older t phi step _ _ _ value above proposed _ ih =>
    cases earlier with
    | nil =>
      cases split
      exact ⟨older, phi, step, fun _ => rfl, by simp, value, proposed, rfl⟩
    | cons first earlier =>
      obtain ⟨rfl, rest⟩ := List.cons.inj split
      obtain ⟨before, phi', step', initial, preceded, found⟩ := ih rest
      refine ⟨before, phi', step', fun empty => absurd empty (List.cons_ne_nil _ _),
        fun t' last => ?_, found⟩
      cases earlier with
      | nil =>
        cases last
        exact ⟨phi, value, initial rfl⟩
      | cons second earlier => exact preceded t' last

/-- What the interpolation proposes after a trial and those before it, of which it reads the last:
a step, or none. -/
def Proposes (b : Backtracking ℝ) (φ : MeritFunction ℝ) (phi0 slope : ℝ) (earlier : List ℝ)
    (newer : ℝ) (step : Option ℝ) : Prop :=
  ∃ (before : Option (Trial ℝ)) (phi : ℝ), earlier.getLast? = before.map (·.alpha) ∧
    (∀ t ∈ before, φ.value t.alpha = .ok t.phi) ∧ φ.value newer = .ok phi ∧
    b.proposal phi0 slope before.isNone (before.getD ⟨newer, phi⟩) ⟨newer, phi⟩ = .ok step

theorem Reduces.proposes {left : Nat} {trials : List ℝ} {asked : List (MeritRequest ℝ)}
    {out : Except (Failure ℝ) ℝ} (reduces : Reduces b φ phi0 slope left none trials asked out)
    {earlier later : List ℝ} {newer next : ℝ} (split : trials = earlier ++ newer :: next :: later) :
    ∃ step, b.Proposes φ phi0 slope earlier newer step ∧ next = b.safeguard newer step := by
  obtain ⟨before, phi, step, initial, preceded, value, proposed, kept⟩ := reduces.reduction split
  refine ⟨step, ⟨before, phi, ?_⟩, kept⟩
  cases final : earlier.getLast? with
  | none =>
    cases initial (List.getLast?_eq_none_iff.mp final)
    exact ⟨rfl, (fun _ none => nomatch none), value, proposed⟩
  | some t =>
    obtain ⟨phi', value', rfl⟩ := preceded t final
    exact ⟨rfl, fun _ same => by cases same; exact value', value, proposed⟩

/-- No cubic has a minimum where a merit function runs along its tangent. -/
theorem Proposes.eq_none_of_line (cubic : b.order.equals 2 = false)
    (line : ∀ t, φ.value t = .ok (phi0 + slope * t)) {earlier : List ℝ} {last newer : ℝ}
    {step : Option ℝ} (final : earlier.getLast? = some last) (positive : 0 < newer)
    (shorter : newer < last) (proposes : b.Proposes φ phi0 slope earlier newer step) :
    step = none := by
  obtain ⟨before, phi, same, values, value, proposed⟩ := proposes
  rw [final] at same
  obtain ⟨older, rfl, rfl⟩ := Option.map_eq_some_iff.mp same.symm
  have past := (values older rfl).symm.trans (line older.alpha)
  have here := value.symm.trans (line newer)
  rw [Except.ok.injEq] at past here
  have tangent : cubicProposal phi0 slope older ⟨newer, phi⟩ = .ok none := by
    apply cubicProposal_of_tangent (positive.trans shorter).ne' positive.ne' shorter.ne'
    · rw [excess, past]
      ring
    · rw [excess, here]
      ring
  rw [Option.isNone_some, proposal_of_cubic cubic, Option.getD_some, tangent] at proposed
  exact (Except.ok.inj proposed).symm

/-- The step lengths that are tried with so many reductions left, what is asked for them, and how
the search ends. -/
inductive Tries (b : Backtracking ℝ) (φ : MeritFunction ℝ) (phi0 slope : ℝ) :
    Nat → List ℝ → List (MeritRequest ℝ) → Except (Failure ℝ) ℝ → Prop where
  | failed {left : Nat} {t : ℝ} {e : Failure ℝ} (value : φ.value t = .error e) :
    Tries b φ phi0 slope left [t] [.value t] (.error e)
  | low {left : Nat} {t phi : ℝ} (value : φ.value t = .ok phi)
    (below : phi ≤ phi0 + b.c1 * t * slope) : Tries b φ phi0 slope left [t] [.value t] (.ok t)
  | spent {t phi : ℝ} (value : φ.value t = .ok phi) (above : phi0 + b.c1 * t * slope < phi) :
    Tries b φ phi0 slope 0 [t] [.value t, .note (.reductionsSpent b.iterations t)] (.ok t)
  | reduced {left : Nat} {t phi next : ℝ} {trials : List ℝ} {asked : List (MeritRequest ℝ)}
    {out : Except (Failure ℝ) ℝ} (value : φ.value t = .ok phi)
    (above : phi0 + b.c1 * t * slope < phi)
    (within : b.rhoLo * t ≤ next ∧ next ≤ b.rhoHi * t)
    (rest : Tries b φ phi0 slope left (next :: trials) asked out) :
    Tries b φ phi0 slope (left + 1) (t :: next :: trials) (.value t :: asked) out

theorem Reduces.tries (admitted : b.Admitted) {left : Nat} {older : Option (Trial ℝ)} {t : ℝ}
    {trials : List ℝ} {asked : List (MeritRequest ℝ)} {out : Except (Failure ℝ) ℝ}
    (reduces : Reduces b φ phi0 slope left older (t :: trials) asked out) (positive : 0 < t) :
    Tries b φ phi0 slope left (t :: trials) asked out := by
  generalize known : t :: trials = tried at reduces
  induction reduces generalizing t trials with
  | failed value => exact .failed value
  | low value below => exact .low value below
  | spent value above => exact .spent value above
  | @reduced _ _ _ _ step _ _ _ value above _ _ ih =>
    cases known
    have within := safeguard_between admitted positive step
    have forward := (mul_pos admitted.lowest positive).trans_le within.1
    exact .reduced value above within (ih forward rfl)

theorem search_tries (φ : MeritFunction ℝ) (phi0 slope : ℝ) (admitted : b.Admitted) {length : ℝ}
    (nonneg : 0 ≤ length) :
    ∃ trials, Tries b φ phi0 slope b.iterations.upTo (b.initialStep length :: trials)
      (Plan.requests φ.reply (b.search phi0 slope length))
      (Plan.value φ.reply (b.search phi0 slope length)) := by
  obtain ⟨trials, reduces⟩ := search_reduces b φ phi0 slope length
  exact ⟨trials, reduces.tries admitted (initialStep_mem admitted nonneg).1⟩

def Above (b : Backtracking ℝ) (φ : MeritFunction ℝ) (phi0 slope t : ℝ) : Prop :=
  ∃ phi, φ.value t = .ok phi ∧ phi0 + b.c1 * t * slope < phi

namespace Tries

variable {left : Nat} {trials : List ℝ} {asked : List (MeritRequest ℝ)}
  {out : Except (Failure ℝ) ℝ}

theorem length_le (tries : Tries b φ phi0 slope left trials asked out) :
    trials.length ≤ left + 1 := by
  induction tries with
  | failed | low | spent => simp
  | reduced _ _ _ _ ih => exact Nat.succ_le_succ ih

theorem isChain (tries : Tries b φ phi0 slope left trials asked out) :
    trials.IsChain fun last next => b.rhoLo * last ≤ next ∧ next ≤ b.rhoHi * last := by
  induction tries with
  | failed | low | spent => exact List.isChain_singleton _
  | reduced _ _ within _ ih => exact List.isChain_cons_cons.mpr ⟨within, ih⟩

theorem above_dropLast (tries : Tries b φ phi0 slope left trials asked out) :
    ∀ t ∈ trials.dropLast, b.Above φ phi0 slope t := by
  induction tries with
  | failed | low | spent => exact fun _ none => nomatch none
  | reduced value above _ _ ih => exact List.forall_mem_cons.mpr ⟨⟨_, value, above⟩, ih⟩

theorem asked_eq (tries : Tries b φ phi0 slope left trials asked out) :
    ∃ notes : List (Notice ℝ), asked = trials.map .value ++ notes.map .note := by
  induction tries with
  | failed | low => exact ⟨[], rfl⟩
  | @spent t _ _ _ => exact ⟨[.reductionsSpent b.iterations t], rfl⟩
  | reduced _ _ _ _ ih =>
    obtain ⟨notes, same⟩ := ih
    exact ⟨notes, congrArg _ same⟩

theorem ends (tries : Tries b φ phi0 slope left trials asked out) :
    ∃ t ∈ trials.getLast?, out = (φ.value t).map (fun _ => t) ∧
      (b.Above φ phi0 slope t → trials.length = left + 1) := by
  induction tries with
  | @failed _ t _ value =>
    refine ⟨t, rfl, by rw [value]; rfl, ?_⟩
    rintro ⟨phi, value', _⟩
    cases value.symm.trans value'
  | @low _ t _ value below =>
    refine ⟨t, rfl, by rw [value]; rfl, ?_⟩
    rintro ⟨phi, value', above⟩
    cases value.symm.trans value'
    exact absurd below above.not_ge
  | @spent t _ value above => exact ⟨t, rfl, by rw [value]; rfl, fun _ => rfl⟩
  | reduced _ _ _ _ ih =>
    obtain ⟨t, last, returned, full⟩ := ih
    exact ⟨t, last, returned, fun above => congrArg (· + 1) (full above)⟩

end Tries

theorem mem_of_isChain (admitted : b.Admitted) {first : ℝ} {trials : List ℝ}
    (chain : (first :: trials).IsChain fun last next =>
      b.rhoLo * last ≤ next ∧ next ≤ b.rhoHi * last) (positive : 0 < first) :
    ∀ t ∈ first :: trials, 0 < t ∧ t ≤ first := by
  induction trials generalizing first with
  | nil => exact List.forall_mem_singleton.mpr ⟨positive, le_refl first⟩
  | cons next trials ih =>
    obtain ⟨⟨least, most⟩, rest⟩ := List.isChain_cons_cons.mp chain
    have smaller := most.trans (mul_le_of_le_one_left positive.le admitted.highest.le)
    have later := ih rest ((mul_pos admitted.lowest positive).trans_le least)
    refine List.forall_mem_cons.mpr ⟨⟨positive, le_refl first⟩, fun t member => ?_⟩
    exact ⟨(later t member).1, (later t member).2.trans smaller⟩

/-- The step lengths that are tried: the first one is as long as the limit allows, each later one is
what the interpolation proposes, kept within the reduction factors of the one before, and without a
proposal the largest of these. All but the last are too high. The last one is returned, after so
many reductions whether or not it is still too high. -/
theorem search_trials (valid : b.invalid? = none) (φ : MeritFunction ℝ) (phi0 slope : ℝ) {n : Nat}
    (direction : Vec ℝ n) :
    let search := b.search phi0 slope direction.norm
    ∃ (trials : List ℝ) (notes : List (Notice ℝ)),
      Plan.requests φ.reply search = trials.map .value ++ notes.map .note ∧
      (b.maxstep = none ∨ direction = 0 → trials.head? = some 1) ∧
      (∀ limit ∈ b.maxstep, direction ≠ 0 →
        trials.head? = some (min 1 (limit / direction.norm))) ∧
      (∀ earlier newer next later, trials = earlier ++ newer :: next :: later →
        ∃ step, b.Proposes φ phi0 slope earlier newer step ∧
          next = max (min (step.getD (b.rhoHi * newer)) (b.rhoHi * newer)) (b.rhoLo * newer) ∧
          (step = none → next = b.rhoHi * newer)) ∧
      (trials.IsChain fun last next => b.rhoLo * last ≤ next ∧ next ≤ b.rhoHi * last) ∧
      (∀ t ∈ trials, 0 < t ∧ ∀ limit ∈ b.maxstep, t * direction.norm ≤ limit) ∧
      (∀ t ∈ trials.dropLast, b.Above φ phi0 slope t) ∧
      (∃ t ∈ trials.getLast?, Plan.value φ.reply search = (φ.value t).map (fun _ => t) ∧
        (b.Above φ phi0 slope t → trials.length = b.iterations.upTo + 1)) ∧
      trials.length ≤ b.iterations.upTo + 1 := by
  have admitted := admitted_of_invalid? valid
  have nonneg := norm_nonneg direction
  have begins := (initialStep_mem admitted nonneg).1
  obtain ⟨later, reduces⟩ := search_reduces b φ phi0 slope direction.norm
  have tries := reduces.tries admitted begins
  obtain ⟨notes, asked⟩ := tries.asked_eq
  obtain ⟨free, limited⟩ := b.initialStep_eq direction.norm
  rw [norm_eq_zero_iff] at free
  refine ⟨_, notes, asked, fun unlimited => congrArg some (free unlimited),
    fun limit known nonzero =>
      congrArg some (limited limit known (norm_eq_zero_iff.not.mpr nonzero)),
    fun earlier newer next later split => ?_, tries.isChain, fun t member => ?_,
    tries.above_dropLast, tries.ends, tries.length_le⟩
  · obtain ⟨step, proposes, rfl⟩ := reduces.proposes split
    have positive := (mem_of_isChain admitted tries.isChain begins newer (by rw [split]; simp)).1
    exact ⟨step, proposes, b.safeguard_eq newer step,
      fun missing => missing ▸ safeguard_none admitted positive⟩
  · obtain ⟨positive, shorter⟩ := mem_of_isChain admitted tries.isChain begins t member
    refine ⟨positive, fun limit known => ?_⟩
    exact (mul_le_mul_of_nonneg_right shorter nonneg).trans
      (initialStep_mul_le admitted nonneg limit known)

/-- Half a step and two reductions along a tangent uphill. No cubic has a minimum there, so that the
second one is as small as the factors allow. -/
theorem search_trials_uphill :
    let b : Backtracking ℝ :=
      { Backtracking.standard with iterations := .whole 2, maxstep := some (1 / 2) }
    let φ : MeritFunction ℝ := ⟨fun t => .ok (1 + t), fun _ => .ok 1⟩
    let search := b.search 1 1 (Vec.norm #v[1])
    b.invalid? = none ∧ ∃ (middle : ℝ) (notes : List (Notice ℝ)),
      Plan.requests φ.reply search =
        [1 / 2, middle, b.rhoHi * middle].map .value ++ notes.map .note ∧
      b.Proposes φ 1 1 [1 / 2] middle none ∧
      Plan.value φ.reply search = .ok (b.rhoHi * middle) := by
  intro b φ search
  have valid : b.invalid? = none := by
    norm_num [b, invalid?, standard, Count.equals, Count.isBelow]
  have unit : Vec.norm (#v[1] : Vec ℝ 1) = 1 := by
    change Real.sqrt (Vec.dot #v[1] #v[1]) = 1
    rw [dot_eq, Fin.sum_univ_one]
    exact (congrArg Real.sqrt (one_mul 1)).trans Real.sqrt_one
  have nonzero : (#v[1] : Vec ℝ 1) ≠ 0 := fun zero =>
    one_ne_zero (unit.symm.trans (norm_eq_zero_iff.mpr zero))
  obtain ⟨trials, notes, asked, _, first, reductions, chain, bounds, _,
    ⟨t, last, returned, full⟩, _⟩ := search_trials valid φ 1 1 (#v[1] : Vec ℝ 1)
  have begins := first (1 / 2) rfl nonzero
  rw [unit, div_one, min_eq_right (by norm_num)] at begins
  have above : b.Above φ 1 1 t := by
    refine ⟨_, rfl, ?_⟩
    change 1 + 1e-4 * t * 1 < 1 + t
    linarith [(bounds t (List.mem_of_getLast? last)).1]
  obtain ⟨start, middle, final, rfl⟩ := List.length_eq_three.mp (full above)
  cases begins
  cases last
  obtain ⟨step, proposes, _, missing⟩ := reductions [1 / 2] middle final [] rfl
  have line (t : ℝ) : φ.value t = .ok (1 + 1 * t) := by rw [one_mul]
  have shorter : middle ≤ 0.5 * (1 / 2) := (List.isChain_cons_cons.mp chain).1.2
  cases proposes.eq_none_of_line rfl line rfl (bounds middle (by simp)).1
    (shorter.trans_lt (by norm_num))
  cases missing rfl
  exact ⟨valid, middle, notes, asked, proposes, returned⟩

end Backtracking

end RootFinding
