import RootFinding.Proofs.Binary64.Operations
import RootFinding.Proofs.Solver.Iterations
import RootFinding.Proofs.TrustRegion.Overflow

namespace RootFinding

open Binary64

section Residuals

variable {α : Type} [Scalar α] {n : Nat} {s : SquareSystem α} {o : Options α} {m : Method}
  {x : Vec α n}

theorem Passes.fx_allFinite {length : Nat} {states : Nat → m.State α n}
    {ledgers : Nat → Ledger α n} (passes : Passes s o m x length states ledgers) :
    ∀ k ≤ length, (m.progress (states k)).fx.allFinite := by
  cases m with
  | trustRegion => exact TrustRegion.allFinite_fx passes
  | newton =>
    refine passes.induct (motive := fun _ t => Vec.allFinite t.progress.fx) (fun ran => ?_)
      fun k _ ran _ => ?_
    · exact (Newton.start_cases ran).1.both_allFinite.1
    · exact (Newton.step_cases ran).1.both_allFinite.1

end Residuals

section Powers

variable [Powers] {n : Nat}

namespace Vec

theorem allFinite_iff {v : Vec Float n} : v.allFinite ↔ ∀ i, (h : i < n) → v[i].isFinite := by
  rw [allFinite, Vector.all_eq_true]
  rfl

def SumsFit (u v : Vec Float n) : Prop :=
  ∀ i, (h : i < n) → |toRat u[i] + toRat v[i]| < limit

def ProductsFit (a : Float) (v : Vec Float n) : Prop :=
  ∀ i, (h : i < n) → |toRat a * toRat v[i]| < limit

theorem allFinite_add {u v : Vec Float n} :
    (u + v).allFinite ↔ u.allFinite ∧ v.allFinite ∧ SumsFit u v := by
  simp only [allFinite_iff, Vector.getElem_add, isFinite_add_iff, SumsFit, forall_and]

theorem allFinite_scale {a : Float} {v : Vec Float n} (finite : a.isFinite) :
    (scale a v).allFinite ↔ v.allFinite ∧ ProductsFit a v := by
  simp only [allFinite_iff, scale, Vector.getElem_map, isFinite_mul_iff, ProductsFit, finite,
    true_and, forall_and]

omit [Powers] in
theorem isFinite_of_foldl {entries : List Float} {start : Float}
    (finite : (entries.foldl (· + ·) start).isFinite) :
    start.isFinite ∧ ∀ a ∈ entries, a.isFinite := by
  induction entries generalizing start with
  | nil => exact ⟨finite, fun a member => by cases member⟩
  | cons entry entries ih =>
    obtain ⟨sum, rest⟩ := ih finite
    obtain ⟨before, here⟩ := isFinite_of_add sum
    refine ⟨before, fun a member => ?_⟩
    rcases List.mem_cons.mp member with rfl | later
    · exact here
    · exact rest a later

theorem allFinite_of_dot {u v : Vec Float n} (finite : (dot u v).isFinite) :
    u.allFinite ∧ v.allFinite := by
  rw [dot, sum, ← Vector.foldl_toList] at finite
  have products := (isFinite_of_foldl finite).2
  have each (i : Nat) (h : i < n) : u[i].isFinite ∧ v[i].isFinite := by
    have member : u[i] * v[i] ∈ (Vector.zipWith (· * ·) u v).toList :=
      List.mem_iff_getElem.mpr ⟨i, by simpa using h, by simp⟩
    exact isFinite_of_mul (products _ member)
  exact ⟨allFinite_iff.mpr fun i h => (each i h).1, allFinite_iff.mpr fun i h => (each i h).2⟩

end Vec

theorem Mat.allFinite_of_mulVec {a : Mat Float n n} {v : Vec Float n}
    (finite : (a.mulVec v).allFinite) : v.allFinite := by
  rw [Vec.allFinite_iff] at finite ⊢
  intro i h
  have row := finite i h
  rw [mulVec, Vector.getElem_map] at row
  exact Vec.allFinite_iff.mp (Vec.allFinite_of_dot row).2 i h

variable {s : SquareSystem Float} {o : Options Float} {m : Method} {x : Vec Float n}

namespace TrustRegion

/-- A step is taken only where the linear model predicts a decrease, and it predicts none for a step
that is not finite. -/
theorem State.move_allFinite {t : State Float n} {trial : Vec Float n}
    (finite : t.progress.fx.allFinite) (good : acceptRatio < t.ratio trial) :
    t.move.p.allFinite := by
  have predicted : 0 < Vec.dot t.progress.fx t.progress.fx - Vec.dot t.model t.model := by
    rw [State.ratio, reductionRatio] at good
    split at good
    · assumption
    · have none : ¬ (1e-4 : Float) < 0.0 := by decide +kernel
      exact absurd good none
  have small : (Vec.dot t.model t.model).isFinite :=
    isFinite_of_sub_positive (Vec.notNegative_dot_of_allFinite finite)
      (Vec.isNaN_or_notNegative_dot t.model) predicted
  have model : t.model.allFinite := (Vec.allFinite_of_dot small).1
  rw [State.model, Vec.allFinite_add] at model
  exact Mat.allFinite_of_mulVec model.2.1

/-- The next iteration takes its step, and a sum of finite numbers overflows. -/
def State.Overflows (s : SquareSystem Float) (t : State Float n) : Prop :=
  t.Takes s ∧ ¬ Vec.SumsFit t.progress.x t.move.p

theorem step_allFinite {t next : State Float n} {ledger after : Ledger Float n}
    (ran : (step o t).run (Ledger.answer s) ledger = (.ok next, after))
    (finite : t.progress.fx.allFinite) :
    next.progress.x.allFinite ↔ t.progress.x.allFinite ∧ ¬ t.Overflows s := by
  obtain ⟨trial, yields, _, _, taken | ⟨kept, _⟩⟩ := step_cases ran
  · have takes : t.Takes s := ⟨trial, yields, taken.ratio⟩
    have move := State.move_allFinite finite taken.ratio
    rw [taken.x, State.trialPoint, Vec.allFinite_add, State.Overflows]
    simp only [takes, move, true_and, not_not]
  · have rejected := kept.not_takes yields
    rw [kept.x, State.Overflows]
    simp only [rejected, false_and, not_false_eq_true, and_true]

end TrustRegion

namespace Newton

/-- The direction of the next iteration, and the step length that the line search chooses. -/
def State.Chooses (s : SquareSystem Float) (t : State Float n) (direction : Vec Float n)
    (alpha : Float) : Prop :=
  newtonDirection t.progress.jac t.progress.fx (t.progress.iteration + 1 : Nat) = .ok direction ∧
    ∃ next, Plan.value s.reply ((⟨t.progress.x, direction, Merit.halfSquare t.progress.fx⟩ :
      Merit Float n).search t.lineSearch (Vec.dot t.progress.gradient direction)) =
        .ok (alpha, next)

def State.Overflows (s : SquareSystem Float) (t : State Float n) : Prop :=
  ∃ direction alpha, t.Chooses s direction alpha ∧
    ¬ (Vec.ProductsFit alpha direction ∧ Vec.SumsFit t.progress.x (Vec.scale alpha direction))

theorem newtonDirection_allFinite {jac : Mat Float n n} {fx direction : Vec Float n} {i : Int}
    (directed : newtonDirection jac fx i = .ok direction) : direction.allFinite := by
  unfold newtonDirection at directed
  split at directed
  · cases directed
  split at directed
  · cases directed
    assumption
  · cases directed

theorem checkStep_isFinite {chosen alpha : Float} (checked : checkStep chosen = .ok alpha) :
    alpha.isFinite := by
  unfold checkStep at checked
  split at checked
  · cases checked
  · rename_i usable
    cases checked
    rw [Bool.or_eq_true, not_or, Bool.not_eq_true', Bool.not_eq_false] at usable
    exact usable.1

theorem step_chooses {t next : State Float n} {ledger after : Ledger Float n}
    (ran : (step o t).run (Ledger.answer s) ledger = (.ok next, after)) :
    ∃ direction alpha, t.Chooses s direction alpha ∧ direction.allFinite ∧ alpha.isFinite ∧
      next.progress.x = t.progress.x + Vec.scale alpha direction := by
  obtain ⟨direction, alpha, known, left, leads, rfl⟩ := step_eq_ok.mp (Ledger.value_of_run ran)
  exact ⟨direction, alpha, ⟨leads.directed, left, leads.searched⟩,
    newtonDirection_allFinite leads.directed, checkStep_isFinite leads.checked, rfl⟩

theorem State.Chooses.unique {t : State Float n} {direction direction' : Vec Float n}
    {alpha alpha' : Float} (first : t.Chooses s direction alpha)
    (second : t.Chooses s direction' alpha') : direction = direction' ∧ alpha = alpha' := by
  obtain ⟨found, next, searched⟩ := first
  obtain ⟨foundToo, next', searchedToo⟩ := second
  rw [found] at foundToo
  cases foundToo
  rw [searched] at searchedToo
  cases searchedToo
  exact ⟨rfl, rfl⟩

theorem step_allFinite {t next : State Float n} {ledger after : Ledger Float n}
    (ran : (step o t).run (Ledger.answer s) ledger = (.ok next, after)) :
    next.progress.x.allFinite ↔ t.progress.x.allFinite ∧ ¬ t.Overflows s := by
  obtain ⟨direction, alpha, chooses, finite, length, point⟩ := step_chooses ran
  have overflows : t.Overflows s ↔ ¬ (Vec.ProductsFit alpha direction ∧
      Vec.SumsFit t.progress.x (Vec.scale alpha direction)) := by
    constructor
    · rintro ⟨direction', alpha', chosen, large⟩
      obtain ⟨rfl, rfl⟩ := chooses.unique chosen
      exact large
    · exact fun large => ⟨direction, alpha, chooses, large⟩
  rw [point, Vec.allFinite_add, Vec.allFinite_scale length, overflows, not_not]
  simp only [finite, true_and]

end Newton

def Method.Overflows (s : SquareSystem Float) : (m : Method) → m.State Float n → Prop
  | trustRegion, state => TrustRegion.State.Overflows s state
  | newton, state => Newton.State.Overflows s state

theorem Passes.x_allFinite {length : Nat} {states : Nat → m.State Float n}
    {ledgers : Nat → Ledger Float n} (passes : Passes s o m x length states ledgers)
    (start : x.allFinite) :
    ∀ k ≤ length, (m.progress (states k)).x.allFinite ↔ ∀ j < k, ¬ m.Overflows s (states j) := by
  intro k
  induction k with
  | zero =>
    intro _
    have first : (m.progress (states 0)).x = x := by
      cases m with
      | trustRegion => exact (TrustRegion.start_cases passes.start).2.1
      | newton => exact (Newton.start_cases passes.start).2.1
    rw [first]
    exact ⟨fun _ j less => by omega, fun _ => start⟩
  | succ k ih =>
    intro bound
    have finite := passes.fx_allFinite k (by omega)
    have next : (m.progress (states (k + 1))).x.allFinite ↔
        (m.progress (states k)).x.allFinite ∧ ¬ m.Overflows s (states k) := by
      cases m with
      | trustRegion => exact TrustRegion.step_allFinite (passes.step k bound) finite
      | newton => exact Newton.step_allFinite (passes.step k bound)
    rw [next, ih (by omega), Nat.forall_lt_succ_right]

/-- The residual is finite, and the zero is unless a sum or a product of finite numbers overflowed
on the way to it. -/
theorem solve_finite (start : x.allFinite) {r : Results Float}
    (returned : (solveFrom s o m x).result = .ok r) :
    (∀ a ∈ r.residual, a.isFinite) ∧
      ∃ length states ledgers, Passes s o m x length states ledgers ∧
        (∀ k ≤ length, (m.progress (states k)).x.allFinite ↔
          ∀ j < k, ¬ m.Overflows s (states j)) ∧
        r.zero = (m.progress (states length)).x.toList ∧
        ((∀ a ∈ r.zero, a.isFinite) ↔ ∀ j < length, ¬ m.Overflows s (states j)) := by
  obtain ⟨length, states, ledgers, passes, _, _, _, rfl⟩ := solveFrom_passes returned
  have listed (v : Vec Float n) : v.allFinite ↔ ∀ a ∈ v.toList, a.isFinite := by
    rw [Vec.allFinite_iff]
    constructor
    · intro finite a member
      obtain ⟨i, h, rfl⟩ := List.mem_iff_getElem.mp member
      rw [Vector.getElem_toList]
      exact finite i (by simpa using h)
    · intro finite i h
      exact finite v[i] (List.mem_iff_getElem.mpr ⟨i, by simpa using h, by simp⟩)
  have finite := passes.x_allFinite start
  refine ⟨(listed _).mp (passes.fx_allFinite length le_rfl), length, states, ledgers, passes,
    finite, rfl, ?_⟩
  exact (listed _).symm.trans (finite length le_rfl)

end Powers

theorem solve_finite_line :
    ∃ r, (solveFrom (line Float) .standard .trustRegion #v[4]).result = .ok r ∧
      (∀ a ∈ r.residual, a.isFinite) ∧ ∀ a ∈ r.zero, a.isFinite := by
  have start : Vec.allFinite (#v[4] : Vec Float 1) := by decide +kernel
  have computed : (solveFrom (line Float) .standard .trustRegion #v[4]).result.toOption.map
      (fun r => r.zero.all Float.isFinite) = some true := by
    decide +kernel
  cases returned : (solveFrom (line Float) .standard .trustRegion #v[4]).result with
  | error e =>
    rw [returned] at computed
    cases computed
  | ok r =>
    rw [returned] at computed
    simp only [Except.toOption, Option.map_some, Option.some.injEq, List.all_eq_true] at computed
    exact ⟨r, rfl, (solve_finite start returned).1, computed⟩

/-- The residual is one up to `1.5e308` and zero beyond, with a derivative that leads far beyond. -/
def farRoot : SquareSystem Float where
  convention := .outOfPlace
  sources := .separate
    (some (Formula.callable (.list
      [.leaf (.ifAbove (.coordinate 0) (.constant 1.5e308) (.constant 0) (.constant 1))])))
    (Formula.callable (.list [.list [.leaf (.constant (-1e-308))]]))
  dimension := none

/-- Both methods end at infinity, and take it for a root. -/
theorem farRoot_ends_infinite :
    Vec.allFinite (#v[1e308] : Vec Float 1) ∧
      (∃ r, (solveFrom farRoot .standard .trustRegion #v[1e308]).result = .ok r ∧ r.fConverged ∧
        ∃ a ∈ r.zero, a.isInf) ∧
      ∃ r, (solveFrom farRoot .standard .newton #v[1e308]).result = .ok r ∧ r.fConverged ∧
        ∃ a ∈ r.zero, a.isInf := by
  have ends (out : Except (Failure Float) (Results Float))
      (computed : out.toOption.map (fun r => (r.fConverged, r.zero.any Float.isInf)) =
        some (true, true)) :
      ∃ r, out = .ok r ∧ r.fConverged ∧ ∃ a ∈ r.zero, a.isInf := by
    cases out with
    | error e => cases computed
    | ok r =>
      simp only [Except.toOption, Option.map_some, Option.some.injEq, Prod.mk.injEq,
        List.any_eq_true] at computed
      exact ⟨r, rfl, computed⟩
  refine ⟨by decide +kernel, ends _ ?_, ends _ ?_⟩
  · decide +kernel
  · decide +kernel

end RootFinding
