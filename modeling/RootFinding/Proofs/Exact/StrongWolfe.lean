import RootFinding.Proofs.Exact.Equations
import RootFinding.Proofs.LineSearch.MeritFunction

namespace RootFinding

open Exact

namespace StrongWolfe

def Conditions.Accepts (w : Conditions ℝ) (φ : MeritFunction ℝ) (alpha : ℝ) : Prop :=
  ∃ v d, φ.value alpha = .ok v ∧ φ.slope alpha = .ok d ∧
    v ≤ w.phi0 + w.c1 * alpha * w.slope0 ∧ |d| ≤ w.c2 * |w.slope0|

/-- Steps that double so many times from `a`, with their values: each of them but the last lies low
enough, and lower than the one before, and is still steep. -/
structure Conditions.Doubles (w : Conditions ℝ) (φ : MeritFunction ℝ) (a : ℝ) (rounds : Nat)
    (v : Nat → ℝ) : Prop where
  value : ∀ i ≤ rounds, φ.value (2 ^ i * a) = .ok (v i)
  low : ∀ i < rounds, v i ≤ w.phi0 + w.c1 * (2 ^ i * a) * w.slope0
  steep : ∀ i < rounds, ∃ d, φ.slope (2 ^ i * a) = .ok d ∧ d < -(w.c2 * |w.slope0|)
  falls : ∀ i, i + 1 < rounds → v (i + 1) < v i

variable {w : Conditions ℝ} {φ : MeritFunction ℝ}

theorem Conditions.tooHigh_eq_false {alpha phi : ℝ} :
    w.tooHigh alpha phi = false ↔ phi ≤ w.phi0 + w.c1 * alpha * w.slope0 := by
  rw [tooHigh, decide_eq_false_iff_not, not_lt]

theorem Conditions.flat_iff (descends : w.slope0 < 0) {d : ℝ} :
    w.flat d ↔ |d| ≤ w.c2 * |w.slope0| := by
  have bound : w.c2 * |w.slope0| = -w.c2 * w.slope0 := by
    rw [abs_of_neg descends]
    ring
  rw [flat, decide_eq_true_iff, bound]
  rfl

theorem Conditions.steep_of_not_flat (descends : w.slope0 < 0) {d : ℝ} (notFlat : ¬ w.flat d)
    (negative : ¬ 0 ≤ d) : d < -(w.c2 * |w.slope0|) := by
  rw [flat_iff descends, not_le] at notFlat
  rw [not_le] at negative
  rw [abs_of_neg negative] at notFlat
  linarith

theorem Conditions.not_flat_of_steep (descends : w.slope0 < 0) (admitted : 0 < w.c2) {d : ℝ}
    (steep : d < -(w.c2 * |w.slope0|)) : ¬ w.flat d ∧ ¬ 0 ≤ d := by
  have positive : 0 < w.c2 * |w.slope0| := mul_pos admitted (abs_pos.mpr descends.ne)
  have negative : d < 0 := by linarith
  rw [flat_iff descends, abs_of_neg negative]
  constructor
  · linarith
  · linarith

theorem zoom_accepts (descends : w.slope0 < 0) {rounds : Nat} {first : Bool} {z : Bracket ℝ}
    {x : ℝ} (found : Plan.value φ.reply (zoom w rounds first z) = .ok (some x)) :
    w.Accepts φ x := by
  induction rounds generalizing first z with
  | zero => cases found
  | succ rounds ih =>
    simp only [zoom, Plan.value_bind, Search.value_value] at found
    obtain ⟨v, value, rest⟩ := Except.bind_ok.mp found
    split at rest
    · exact ih rest
    · rename_i better
      rw [Bool.or_eq_true, not_or, Bool.not_eq_true] at better
      simp only [Plan.value_bind, Search.value_slope] at rest
      obtain ⟨d, slope, rest⟩ := Except.bind_ok.mp rest
      split at rest
      · rename_i flat
        cases rest
        have low := Conditions.tooHigh_eq_false.mp better.1
        exact ⟨v, d, value, slope, low, (Conditions.flat_iff descends).mp flat⟩
      · exact ih rest

theorem two_pow_mul_two_mul (i : Nat) (a : ℝ) : (2 : ℝ) ^ i * (2 * a) = 2 ^ (i + 1) * a := by
  ring

namespace Conditions.Doubles

variable {a phi : ℝ} {rounds : Nat} {v : Nat → ℝ}

theorem zero (known : φ.value a = .ok phi) : w.Doubles φ a 0 fun _ => phi where
  value i le := by
    obtain rfl := Nat.le_zero.mp le
    rw [pow_zero, one_mul]
    exact known
  low i less := absurd less (Nat.not_lt_zero i)
  steep i less := absurd less (Nat.not_lt_zero i)
  falls i less := absurd less (Nat.not_lt_zero (i + 1))

theorem cons {d : ℝ} (known : φ.value a = .ok phi) (low : phi ≤ w.phi0 + w.c1 * a * w.slope0)
    (slope : φ.slope a = .ok d) (steep : d < -(w.c2 * |w.slope0|))
    (falls : rounds = 0 ∨ v 0 < phi) (doubles : w.Doubles φ (2 * a) rounds v) :
    w.Doubles φ a (rounds + 1) fun i => i.casesOn phi v where
  value
    | 0, _ => by simpa using known
    | i + 1, le => by
      rw [← two_pow_mul_two_mul]
      exact doubles.value i (by omega)
  low
    | 0, _ => by simpa using low
    | i + 1, less => by
      rw [← two_pow_mul_two_mul]
      exact doubles.low i (by omega)
  steep
    | 0, _ => ⟨d, by simpa using slope, steep⟩
    | i + 1, less => by
      rw [← two_pow_mul_two_mul]
      exact doubles.steep i (by omega)
  falls
    | 0, less => falls.resolve_left (by omega)
    | i + 1, less => doubles.falls i (by omega)

theorem tail (doubles : w.Doubles φ a (rounds + 1) v) :
    w.Doubles φ (2 * a) rounds fun i => v (i + 1) where
  value i le := by
    rw [two_pow_mul_two_mul]
    exact doubles.value (i + 1) (by omega)
  low i less := by
    rw [two_pow_mul_two_mul]
    exact doubles.low (i + 1) (by omega)
  steep i less := by
    rw [two_pow_mul_two_mul]
    exact doubles.steep (i + 1) (by omega)
  falls i less := doubles.falls (i + 1) (by omega)

end Conditions.Doubles

theorem widen_cases (descends : w.slope0 < 0) {rounds : Nat} {first : Bool}
    {before phi0 slope0 a phi x : ℝ} (known : φ.value a = .ok phi)
    (found : Plan.value φ.reply (widen w rounds first before phi0 slope0 a phi) =
      .ok (some x)) :
    w.Accepts φ x ∨ x = 2 ^ rounds * a ∧ (rounds = 0 ∨ first ∨ phi < phi0) ∧
      ∃ v, v 0 = phi ∧ w.Doubles φ a rounds v := by
  induction rounds generalizing first before phi0 slope0 a phi with
  | zero =>
    cases found
    rw [pow_zero, one_mul]
    exact .inr ⟨rfl, .inl rfl, _, rfl, .zero known⟩
  | succ rounds ih =>
    simp only [widen] at found
    split at found
    · cases found
    split at found
    · exact .inl (zoom_accepts descends found)
    rename_i low
    rw [Bool.or_eq_true, not_or, Bool.not_eq_true] at low
    simp only [Plan.value_bind, Search.value_slope] at found
    obtain ⟨d, slope, rest⟩ := Except.bind_ok.mp found
    have below := Conditions.tooHigh_eq_false.mp low.1
    split at rest
    · rename_i flat
      cases rest
      exact .inl ⟨phi, d, known, slope, below, (Conditions.flat_iff descends).mp flat⟩
    rename_i notFlat
    split at rest
    · exact .inl (zoom_accepts descends rest)
    rename_i negative
    -- The step goes on to twice its length, and so do those after it.
    simp only [Plan.value_bind, Search.value_value] at rest
    obtain ⟨next, value, rest⟩ := Except.bind_ok.mp rest
    have two : (2.0 : ℝ) * a = 2 * a := by norm_num
    rw [two] at value rest
    obtain accepted | ⟨rfl, falls, v, rfl, doubles⟩ := ih value rest
    · exact .inl accepted
    have steep := Conditions.steep_of_not_flat descends notFlat negative
    refine .inr ⟨two_pow_mul_two_mul rounds a, .inr ?_, _, rfl,
      .cons known below slope steep ?_ doubles⟩
    · simpa [imp_iff_not_or, or_comm] using low.2
    · simpa using falls

theorem widen_of_doubles (descends : w.slope0 < 0) (admitted : 0 < w.c2) {rounds : Nat}
    {first : Bool} {before phi0 slope0 a : ℝ} {v : Nat → ℝ} (positive : 0 < a)
    (head : first ∨ v 0 < phi0) (doubles : w.Doubles φ a rounds v) :
    Plan.value φ.reply (widen w rounds first before phi0 slope0 a (v 0)) =
      .ok (some (2 ^ rounds * a)) := by
  induction rounds generalizing first before phi0 slope0 a v with
  | zero =>
    rw [pow_zero, one_mul]
    rfl
  | succ rounds ih =>
    have nonzero : ¬ (a == 0) = true := by simpa using positive.ne'
    have value : φ.value (2 * a) = .ok (v 1) := by simpa using doubles.value 1 (by omega)
    have low : v 0 ≤ w.phi0 + w.c1 * a * w.slope0 := by simpa using doubles.low 0 (by omega)
    have goesOn : ¬ (w.tooHigh a (v 0) || !first && decide (phi0 ≤ v 0)) = true := by
      rw [Conditions.tooHigh_eq_false.mpr low, Bool.false_or]
      rcases head with rfl | less
      · simp
      · simp [less]
    obtain ⟨d, slope, steep⟩ := doubles.steep 0 (by omega)
    rw [pow_zero, one_mul] at slope
    obtain ⟨notFlat, negative⟩ := Conditions.not_flat_of_steep descends admitted steep
    have two : (2.0 : ℝ) * a = 2 * a := by norm_num
    have falls : rounds = 0 ∨ v 1 < v 0 := by
      rcases Nat.eq_zero_or_pos rounds with none | some
      · exact .inl none
      · exact .inr (doubles.falls 0 (by omega))
    simp only [widen, if_neg nonzero, if_neg goesOn, Plan.value_bind, Search.value_slope, slope,
      two]
    change Plan.value φ.reply (if w.flat d = true then _ else _) = _
    rw [if_neg notFlat, if_neg negative]
    simp only [Plan.value_bind, Search.value_value, value]
    rw [← two_pow_mul_two_mul]
    rcases falls with rfl | less
    · simp only [pow_zero, one_mul]
      rfl
    · exact ih (mul_pos two_pos positive) (.inr less) doubles.tail

theorem search_cases (descends : w.slope0 < 0) {maxiter : Count} {x : ℝ}
    (found : Plan.value φ.reply (search w maxiter) = .ok (some x)) :
    w.Accepts φ x ∨
      ∃ n v, maxiter = .whole n ∧ x = 2 ^ n.toNat ∧ w.Doubles φ 1 n.toNat v := by
  simp only [search, Plan.value_bind, Search.value_value] at found
  obtain ⟨phi, value, rest⟩ := Except.bind_ok.mp found
  cases maxiter with
  | real limit => cases rest
  | whole n =>
    obtain accepted | ⟨rfl, _, v, rfl, doubles⟩ := widen_cases descends value rest
    · exact .inl accepted
    · exact .inr ⟨n, v, rfl, mul_one _, doubles⟩

theorem search_of_doubles (descends : w.slope0 < 0) (admitted : 0 < w.c2) {n : Int} {v : Nat → ℝ}
    (doubles : w.Doubles φ 1 n.toNat v) :
    Plan.value φ.reply (search w (.whole n)) = .ok (some (2 ^ n.toNat)) := by
  have first : φ.value 1 = .ok (v 0) := by simpa using doubles.value 0 (Nat.zero_le _)
  simp only [search, Plan.value_bind, Search.value_value, first]
  have widened : Plan.value φ.reply (widen w n.toNat true 0 w.phi0 w.slope0 1 (v 0)) =
      .ok (some (2 ^ n.toNat * 1)) :=
    widen_of_doubles descends admitted one_pos (.inl rfl) doubles
  rw [mul_one] at widened
  exact widened

theorem search_of_accepts (descends : w.slope0 < 0) {n : Int} (some' : 0 < n)
    (accepts : w.Accepts φ 1) : Plan.value φ.reply (search w (.whole n)) = .ok (some 1) := by
  obtain ⟨v, d, value, slope, low, flat⟩ := accepts
  obtain ⟨rounds, same⟩ : ∃ rounds, n.toNat = rounds + 1 := ⟨n.toNat - 1, by omega⟩
  have nonzero : ¬ ((1 : ℝ) == 0) = true := by simp
  have good : ¬ (w.tooHigh 1 v || !true && decide (w.phi0 ≤ v)) = true := by
    simp [Conditions.tooHigh_eq_false.mpr low]
  simp only [search, Plan.value_bind, Search.value_value, value, same, widen]
  change Plan.value φ.reply (if ((1 : ℝ) == 0) = true then _ else _) = _
  rw [if_neg nonzero, if_neg good]
  simp only [Plan.value_bind, Search.value_slope, slope]
  change Plan.value φ.reply (if w.flat d = true then _ else _) = _
  rw [if_pos ((Conditions.flat_iff descends).mpr flat)]
  rfl

end StrongWolfe

namespace LineSearch

open StrongWolfe

variable {φ : MeritFunction ℝ} {c1 c2 phi0 slope0 length : ℝ} {maxiter : Count}
  {fallback strategy : LineSearch ℝ}

theorem buildStrongWolfe_ok
    (admitted : buildStrongWolfe c1 c2 maxiter fallback = .ok strategy) :
    strategy = strongWolfe c1 c2 maxiter fallback ∧ 0 < c1 ∧ c1 < c2 ∧ c2 < 1 ∧
      maxiter.isBelow 1 = false := by
  simp only [buildStrongWolfe] at admitted
  split at admitted
  · cases admitted
  · rename_i ordered
    rw [not_not] at ordered
    split at admitted
    · cases admitted
    · rename_i enough
      cases admitted
      exact ⟨rfl, ordered.1, ordered.2.1, ordered.2.2, Bool.eq_false_iff.mpr enough⟩

theorem search_of_not_failed {alpha : ℝ} {next : LineSearch ℝ}
    (found : Plan.value φ.reply
      ((strongWolfe c1 c2 maxiter fallback).search phi0 slope0 length) = .ok (alpha, next))
    (own : .note .wolfeFailed ∉ Plan.requests φ.reply
      ((strongWolfe c1 c2 maxiter fallback).search phi0 slope0 length)) :
    Plan.value φ.reply (StrongWolfe.search ⟨c1, c2, phi0, slope0⟩ maxiter) =
      .ok (some alpha) := by
  simp only [search] at found own
  rw [Plan.value_bind] at found
  rw [Plan.requests_bind] at own
  obtain ⟨ended, searched, rest⟩ := Except.bind_ok.mp found
  rw [searched] at own ⊢
  cases ended with
  | some x =>
    cases rest
    rfl
  | none =>
    -- The failure is noted first of all.
    exfalso
    apply own
    apply List.mem_append_right
    change _ ∈ Plan.requests φ.reply (Search.note .wolfeFailed >>= _)
    rw [Plan.requests_bind, Search.note, Plan.requests_request]
    exact List.mem_append_left _ (List.mem_singleton_self _)

theorem search_of_found (fallback : LineSearch ℝ) (length : ℝ) {alpha : ℝ}
    (found : Plan.value φ.reply (StrongWolfe.search ⟨c1, c2, phi0, slope0⟩ maxiter) =
      .ok (some alpha)) :
    Plan.value φ.reply ((strongWolfe c1 c2 maxiter fallback).search phi0 slope0 length) =
        .ok (alpha, strongWolfe c1 c2 maxiter fallback) ∧
      .note .wolfeFailed ∉ Plan.requests φ.reply
        ((strongWolfe c1 c2 maxiter fallback).search phi0 slope0 length) := by
  simp only [search]
  rw [Plan.value_bind, Plan.requests_bind, found]
  refine ⟨rfl, fun noted => ?_⟩
  rcases List.mem_append.mp noted with inside | after
  · exact (StrongWolfe.search_asks maxiter).requests _ inside
  · cases after

/-- The step length satisfies the conditions unless the step doubled as often as is allowed, each
time from one that is low enough and still steep. -/
theorem search_strongWolfe {alpha : ℝ} {next : LineSearch ℝ}
    (admitted : buildStrongWolfe c1 c2 maxiter fallback = .ok strategy) (descends : slope0 < 0)
    (found : Plan.value φ.reply (strategy.search phi0 slope0 length) = .ok (alpha, next))
    (own : .note .wolfeFailed ∉ Plan.requests φ.reply (strategy.search phi0 slope0 length)) :
    Conditions.Accepts ⟨c1, c2, phi0, slope0⟩ φ alpha ∨
      ∃ n v, maxiter = .whole n ∧ alpha = 2 ^ n.toNat ∧
        Conditions.Doubles ⟨c1, c2, phi0, slope0⟩ φ 1 n.toNat v := by
  obtain ⟨rfl, _⟩ := buildStrongWolfe_ok admitted
  exact search_cases descends (search_of_not_failed found own)

theorem towardsRoot_function (distance alpha : ℝ) :
    ((towardsRoot distance).function (line ℝ)).value alpha = .ok ((distance - alpha) ^ 2 / 2) ∧
      ((towardsRoot distance).function (line ℝ)).slope alpha = .ok (alpha - distance) := by
  have point : (towardsRoot distance).point alpha = #v[distance - alpha] := by
    refine ext_get fun i => ?_
    obtain rfl := Subsingleton.elim i 0
    rw [Merit.point, add_get, scale_get]
    change distance + alpha * -1 = distance - alpha
    ring
  have dot (a b : ℝ) : Vec.dot (#v[a] : Vec ℝ 1) #v[b] = a * b := by
    rw [dot_eq, Fin.sum_univ_one]
    rfl
  obtain ⟨residual, _, both⟩ := TrustRegion.line_yields (distance - alpha)
  constructor
  · change Plan.value _ (Merit.value _ alpha) = _
    simp only [Merit.value]
    split
    · rename_i zero
      have same : alpha = 0 := by simpa using zero
      rw [same, sub_zero]
      rfl
    · rw [Plan.value_bind, Solver.residual, Plan.value_request, point,
        SquareSystem.yields_iff.mp residual]
      change Except.ok (0.5 * Vec.dot _ _) = _
      rw [dot]
      congr 1
      ring
  · change Plan.value _ (Merit.slope _ alpha) = _
    rw [Merit.slope, Plan.value_bind, Solver.both, Plan.value_request, point,
      SquareSystem.yields_iff.mp both]
    have product : Mat.tmulVec (#v[#v[1]] : Mat ℝ 1 1) #v[distance - alpha] =
        #v[distance - alpha] := by
      refine ext_get fun i => ?_
      obtain rfl := Subsingleton.elim i 0
      rw [tmulVec_get, dot_eq, Fin.sum_univ_one, column_get]
      exact one_mul _
    change Except.ok (Vec.dot (Mat.tmulVec _ _) (#v[-1] : Vec ℝ 1)) = _
    rw [product, dot]
    congr 1
    ring

theorem standardWolfe_admitted :
    buildStrongWolfe (1e-4 : ℝ) 0.9 (.whole 10) (.backtracking .standard) = .ok standardWolfe := by
  have ordered : (0 : ℝ) < 1e-4 ∧ (1e-4 : ℝ) < 0.9 ∧ (0.9 : ℝ) < 1 := by norm_num
  rw [buildStrongWolfe, if_neg (not_not.mpr ordered)]
  rfl

theorem search_strongWolfe_towardsRoot :
    ∃ next, Plan.value ((towardsRoot 1).function (line ℝ)).reply
        (standardWolfe.search (1 / 2) (-1) 1) = .ok (1, next) ∧
      Conditions.Accepts ⟨1e-4, 0.9, 1 / 2, -1⟩ ((towardsRoot 1).function (line ℝ)) 1 := by
  -- The first step leads to the root, where the slope is zero.
  have root : Conditions.Accepts ⟨1e-4, 0.9, 1 / 2, -1⟩ ((towardsRoot 1).function (line ℝ)) 1 := by
    obtain ⟨value, slope⟩ := towardsRoot_function 1 1
    exact ⟨_, _, value, slope, by norm_num, by norm_num⟩
  have first := search_of_accepts (n := 10) (by norm_num) (by decide) root
  obtain ⟨found, own⟩ := search_of_found (.backtracking .standard) 1 first
  refine ⟨_, found, ?_⟩
  obtain accepted | ⟨n, v, same, last, _⟩ :=
    search_strongWolfe standardWolfe_admitted (by norm_num) found own
  · exact accepted
  · exfalso
    cases same
    have long : (1 : ℝ) < 2 ^ (10 : Int).toNat := one_lt_pow₀ one_lt_two (by decide)
    exact long.ne last

/-- From far away the step has doubled ten times and is still much too short for the slope to have
flattened. -/
theorem standardWolfe_ends_steep :
    ∃ next, Plan.value ((towardsRoot 1000000).function (line ℝ)).reply
        (standardWolfe.search 500000000000 (-1000000) 1) = .ok (1024, next) ∧
      .note .wolfeFailed ∉ Plan.requests ((towardsRoot 1000000).function (line ℝ)).reply
        (standardWolfe.search 500000000000 (-1000000) 1) ∧
      ¬ Conditions.Accepts ⟨1e-4, 0.9, 500000000000, -1000000⟩
        ((towardsRoot 1000000).function (line ℝ)) 1024 := by
  have doubles : Conditions.Doubles ⟨1e-4, 0.9, 500000000000, -1000000⟩
      ((towardsRoot 1000000).function (line ℝ)) 1 (10 : Int).toNat
        fun i => (1000000 - 2 ^ i) ^ 2 / 2 := by
    have ten : (10 : Int).toNat = 10 := rfl
    rw [ten]
    refine ⟨fun i le => ?_, fun i less => ?_, fun i less => ?_, fun i less => ?_⟩
    · rw [(towardsRoot_function 1000000 (2 ^ i * 1)).1, mul_one]
    · interval_cases i <;> norm_num
    · refine ⟨_, (towardsRoot_function 1000000 (2 ^ i * 1)).2, ?_⟩
      interval_cases i <;> norm_num [abs_of_neg]
    · have short : i < 9 := by omega
      interval_cases i <;> norm_num
  have last : (2 : ℝ) ^ (10 : Int).toNat = 1024 := by
    change (2 : ℝ) ^ 10 = 1024
    norm_num
  have found := search_of_doubles (by norm_num) (by norm_num) doubles
  rw [last] at found
  obtain ⟨ended, own⟩ := search_of_found (.backtracking .standard) 1 found
  refine ⟨_, ended, own, ?_⟩
  rintro ⟨v, d, _, slope, _, flat⟩
  rw [(towardsRoot_function 1000000 1024).2] at slope
  cases slope
  norm_num [abs_of_neg] at flat

end LineSearch

end RootFinding
