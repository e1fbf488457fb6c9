import RootFinding.Proofs.Binary64.UnitInterval
import RootFinding.Proofs.LineSearch.MeritFunction
import RootFinding.Proofs.TrustRegion.Overflow

namespace RootFinding

open Binary64 Float.Model Float.Model.UnpackedFloat

section Powers

variable [Powers]

namespace Binary64

theorem smaller_isFinite {x y : Float} (hx : x.isFinite) (hy : y.isFinite) :
    (Scalar.smaller x y).isFinite ∧ toRat (Scalar.smaller x y) = min (toRat x) (toRat y) := by
  rw [Scalar.smaller]
  split
  · rename_i less
    exact ⟨hy, (min_eq_right ((lt_iff_toRat hy hx).mp less).le).symm⟩
  · rename_i notLess
    exact ⟨hx, (min_eq_left (not_lt.mp ((lt_iff_toRat hy hx).not.mp notLess))).symm⟩

theorem larger_isFinite {x y : Float} (hx : x.isFinite) (hy : y.isFinite) :
    (Scalar.larger x y).isFinite ∧ toRat (Scalar.larger x y) = max (toRat x) (toRat y) := by
  rw [Scalar.larger]
  split
  · rename_i less
    exact ⟨hy, (max_eq_right ((lt_iff_toRat hx hy).mp less).le).symm⟩
  · rename_i notLess
    exact ⟨hx, (max_eq_left (not_lt.mp ((lt_iff_toRat hx hy).not.mp notLess))).symm⟩

theorem isNaN_or_notNegative_norm {n : Nat} (v : Vec Float n) :
    v.norm.isNaN ∨ NotNegative v.norm :=
  isNaN_or_notNegative_sqrt (Vec.isNaN_or_notNegative_dot v)

end Binary64

namespace Backtracking

variable {b : Backtracking Float} {phi0 slope : Float}

theorem invalid?_eq_none (admitted : b.invalid? = none) :
    InUnit b.rhoHi ∧ InUnit b.rhoLo ∧ ∀ limit ∈ b.maxstep, 0.0 < limit := by
  simp only [invalid?] at admitted
  split at admitted
  · cases admitted
  split at admitted
  · cases admitted
  rename_i reduction
  rw [not_not] at reduction
  obtain ⟨positive, ordered, below⟩ := reduction
  split at admitted
  · cases admitted
  split at admitted
  · cases admitted
  split at admitted
  · cases admitted
  rename_i longest
  have low : 0.0 ≤ b.rhoLo := LawfulScalar.le_of_lt _ _ positive
  have high : b.rhoHi ≤ 1.0 := LawfulScalar.le_of_lt _ _ below
  refine ⟨inUnit_iff.mpr ⟨?_, high⟩, inUnit_iff.mpr ⟨low, ?_⟩, fun limit member => ?_⟩
  · exact LawfulScalar.le_trans _ _ _ low ordered
  · exact LawfulScalar.le_trans _ _ _ ordered high
  · rw [Option.mem_def.mp member, Option.any_some, decide_eq_true_iff, not_not] at longest
    exact longest

theorem initialStep_inUnit (admitted : b.invalid? = none) {n : Nat} (direction : Vec Float n) :
    InUnit (b.initialStep direction.norm) := by
  obtain ⟨_, _, longest⟩ := invalid?_eq_none admitted
  rw [initialStep]
  cases limited : b.maxstep with
  | none => exact inUnit_one
  | some limit =>
    have positive := notNegative_of_pos (longest limit limited)
    dsimp only
    split
    · exact inUnit_one
    rw [Scalar.smaller]
    split
    · rename_i less
      obtain ⟨defined, _⟩ := lt_iff.mp less
      rcases isNaN_or_notNegative_norm direction with undefined | known
      · have spread : (limit / direction.norm).isNaN :=
          isNaN_operation (fun _ => rfl) (fun u => by cases u <;> rfl) (.inr undefined)
        rw [spread] at defined
        cases defined
      · rcases isNaN_or_notNegative_div positive known with undefined | quotient
        · rw [undefined] at defined
          cases defined
        · exact inUnit_iff.mpr ⟨quotient.zero_le, LawfulScalar.le_of_lt _ _ less⟩
    · exact inUnit_one

theorem safeguard_inUnit (hi : InUnit b.rhoHi) (lo : InUnit b.rhoLo) {last : Float}
    (inside : InUnit last) (proposal : Option Float) : InUnit (b.safeguard last proposal) := by
  have high := inside.mul hi
  have low := inside.mul lo
  have finite : ((proposal.filter Scalar.isFinite).getD (last * b.rhoHi)).isFinite := by
    cases usable : proposal.filter Scalar.isFinite with
    | none => exact high.finite
    | some step => exact (Option.filter_eq_some_iff.mp usable).2
  obtain ⟨below, least⟩ := smaller_isFinite finite high.finite
  obtain ⟨between, most⟩ := larger_isFinite below low.finite
  rw [safeguard]
  refine ⟨between, ?_, ?_⟩
  · rw [most]
    exact low.nonneg.trans (le_max_right _ _)
  · rw [most, least]
    exact max_le ((min_le_right _ _).trans high.atMost) low.atMost

/-- Two trials between which no cubic can be drawn, as the divisor vanishes. -/
structure Degenerate (older newer : Float) : Prop where
  nonzero : (older == 0) = false
  nonzeroToo : (newer == 0) = false
  different : (older == newer) = false
  vanishes : older * older * newer * newer * (newer - older) == 0

def CubesFinite : Prop := ∀ a : Float, 0 ≤ a → a ≤ 1 → (Powers.pow a 3).isFinite

theorem power_ok (cubes : CubesFinite) {a : Float} (inside : InUnit a) :
    Arithmetic.power a 3 = .ok (Powers.pow a 3) := by
  obtain ⟨above, below⟩ := inUnit_iff.mp inside
  have finite : Scalar.isInfinite (Powers.pow a 3) = false := by
    have known : Scalar.isFinite (Powers.pow a 3) = true := cubes a above below
    rw [Scalar.isInfinite, known]
    rfl
  have same : Scalar.pow a 3 = Powers.pow a 3 := rfl
  simp only [Arithmetic.power, same, finite, Bool.and_false]
  rfl

theorem cubicProposal_error (cubes : CubesFinite) {older newer : Trial Float}
    (inside : InUnit older.alpha) (insideToo : InUnit newer.alpha) {f : Fault}
    (failed : cubicProposal phi0 slope older newer = .error f) :
    f = .divisionByZero ∧ Degenerate older.alpha newer.alpha := by
  simp only [cubicProposal] at failed
  split at failed
  · cases failed
  rename_i usable
  rw [Bool.or_eq_true, Bool.or_eq_true, not_or, not_or, Bool.not_eq_true, Bool.not_eq_true,
    Bool.not_eq_true] at usable
  rw [power_ok cubes inside, power_ok cubes insideToo, Arithmetic.divide] at failed
  split at failed
  · rename_i vanishes
    cases failed
    exact ⟨rfl, usable.1.1, usable.1.2, usable.2, vanishes⟩
  · change (if _ then _ else _) = _ at failed
    split at failed
    · cases failed
    · cases failed

/-- How a search ends: with one of its trials, or by a division after two that are degenerate. -/
def Ends (seen : Float → Prop) (out : Except (Failure Float) Float) : Prop :=
  (∃ t, out = .ok t ∧ seen t ∧ InUnit t) ∨
    out = .error (.fault .divisionByZero) ∧
      ∃ t u, seen t ∧ seen u ∧ InUnit t ∧ InUnit u ∧ Degenerate t u

theorem reduce_course (cubes : CubesFinite) (admitted : b.invalid? = none) {seen : Float → Prop}
    {left : Nat} {first : Bool} {older newer : Trial Float} {qs : List (MeritRequest Float)}
    {out : Except (Failure Float) Float}
    (course : (b.reduce phi0 slope left first older newer).Course qs out)
    (asked : ∀ t, .value t ∈ qs → seen t) (old : seen older.alpha) (new : seen newer.alpha)
    (inside : InUnit older.alpha) (insideToo : InUnit newer.alpha) : Ends seen out := by
  obtain ⟨hi, lo, _⟩ := invalid?_eq_none admitted
  induction left generalizing first older newer qs with
  | zero =>
    rw [reduce] at course
    split at course
    · obtain ⟨e, rfl, failed⟩ | ⟨_, before, after, _, _, rest⟩ := Plan.course_bind course
      · obtain ⟨_, r, none⟩ := Plan.course_request failed
        cases none
      · obtain ⟨_, rfl⟩ := Plan.course_pure rest
        exact .inl ⟨_, rfl, new, insideToo⟩
    · obtain ⟨_, rfl⟩ := Plan.course_pure course
      exact .inl ⟨_, rfl, new, insideToo⟩
  | succ left ih =>
    rw [reduce] at course
    split at course
    · cases proposed : b.proposal phi0 slope first older newer with
      | error f =>
        rw [proposed] at course
        cases course
        rw [proposal] at proposed
        split at proposed
        · cases proposed
        · obtain ⟨rfl, degenerate⟩ := cubicProposal_error cubes inside insideToo proposed
          exact .inr ⟨rfl, _, _, old, new, inside, insideToo, degenerate⟩
      | ok step =>
        rw [proposed] at course
        change (Search.value (b.safeguard newer.alpha step) >>= fun phi =>
          b.reduce phi0 slope left false newer ⟨_, phi⟩).Course qs out at course
        obtain ⟨e, rfl, failed⟩ | ⟨phi, before, after, rfl, answered, rest⟩ :=
          Plan.course_bind course
        · obtain ⟨_, r, none⟩ := Plan.course_request failed
          cases none
        · obtain ⟨rfl, _⟩ := Plan.course_request answered
          refine ih rest (fun t member => asked t (List.mem_append_right _ member)) new ?_ insideToo
            (safeguard_inUnit hi lo insideToo step)
          exact asked _ (List.mem_append_left _ (List.mem_singleton_self _))
    · obtain ⟨_, rfl⟩ := Plan.course_pure course
      exact .inl ⟨_, rfl, new, insideToo⟩

theorem search_course (cubes : CubesFinite) (admitted : b.invalid? = none) {n : Nat}
    {direction : Vec Float n} {qs : List (MeritRequest Float)}
    {out : Except (Failure Float) Float}
    (course : (b.search phi0 slope direction.norm).Course qs out) :
    Ends (fun t => .value t ∈ qs) out := by
  have inside := initialStep_inUnit admitted direction
  obtain ⟨e, rfl, failed⟩ | ⟨phi, before, after, rfl, answered, rest⟩ := Plan.course_bind course
  · obtain ⟨_, r, none⟩ := Plan.course_request failed
    cases none
  · obtain ⟨rfl, _⟩ := Plan.course_request answered
    have first : .value (b.initialStep direction.norm) ∈
        [MeritRequest.value (b.initialStep direction.norm)] ++ after :=
      List.mem_append_left _ (List.mem_singleton_self _)
    exact reduce_course cubes admitted rest (fun t member => List.mem_append_right _ member) first
      first inside inside

def smallTrial : Float := .ofBits 0x3370000000000000

omit [Powers] in
theorem toRat_smallTrial : toRat smallTrial = 2 ^ (-200 : ℤ) := by
  have parts : decoded smallTrial = .finite .positive (2 ^ 52) (-252) (by decide) := by rfl
  rw [toRat, parts, value]
  norm_num [Sign.apply]

omit [Powers] in
theorem Degenerate.small {t u : Float} (degenerate : Degenerate t u) (inside : InUnit t)
    (insideToo : InUnit u) : ¬ (smallTrial ≤ t ∧ smallTrial ≤ u) := by
  rintro ⟨first, second⟩
  have finite : smallTrial.isFinite := by rfl
  rw [le_iff_toRat finite inside.finite, toRat_smallTrial] at first
  rw [le_iff_toRat finite insideToo.finite, toRat_smallTrial] at second
  have different : toRat t ≠ toRat u := by
    intro same
    have equal := (beq_iff_toRat inside.finite insideToo.finite).mpr same
    exact Bool.false_ne_true (degenerate.different.symm.trans equal)
  have nonzero := inside.product_ne_zero insideToo first second different
  exact Bool.false_ne_true (nonzero.symm.trans degenerate.vanishes)

theorem search_ends (cubes : CubesFinite) (admitted : b.invalid? = none)
    {φ : MeritFunction Float} (succeeds : ∀ q, (φ.reply q).isOk) {n : Nat}
    (direction : Vec Float n) :
    Ends (fun t => .value t ∈ Plan.requests φ.reply (b.search phi0 slope direction.norm))
        (Plan.value φ.reply (b.search phi0 slope direction.norm)) ∧
      ((∀ t, .value t ∈ Plan.requests φ.reply (b.search phi0 slope direction.norm) →
          smallTrial ≤ t) →
        ∃ t, Plan.value φ.reply (b.search phi0 slope direction.norm) = .ok t ∧ t.isFinite ∧
          0 < t) := by
  have ends := search_course cubes admitted
    (Plan.course_value (p := b.search phi0 slope direction.norm) fun q _ => succeeds q)
  refine ⟨ends, fun large => ?_⟩
  obtain ⟨t, found, seen, inside⟩ | ⟨_, t, u, seen, seenToo, inside, insideToo, degenerate⟩ := ends
  · refine ⟨t, found, inside.finite, ?_⟩
    have positive : 0.0 < smallTrial := by decide +kernel
    have bound := large t seen
    have small : smallTrial.isFinite := by rfl
    rw [lt_iff_toRat inUnit_zero.finite small] at positive
    rw [le_iff_toRat small inside.finite] at bound
    exact (lt_iff_toRat inUnit_zero.finite inside.finite).mpr (positive.trans_le bound)
  · exact absurd ⟨large t seen, large u seenToo⟩ (degenerate.small inside insideToo)

end Backtracking

end Powers

@[reducible] def repeatedProducts : Powers where
  pow a n := Nat.repeat (a * ·) n 1.0

theorem repeatedProducts_cubes : @Backtracking.CubesFinite repeatedProducts := by
  intro a above below
  have inside : InUnit a := inUnit_iff.mpr ⟨above, below⟩
  have cube := inside.mul (inside.mul (inside.mul inUnit_one))
  exact cube.finite

def dropping : MeritFunction Float where
  value t := .ok (if t ≤ 0.01 then 0 else 2)
  slope _ := .ok (-1)

def jumping : MeritFunction Float where
  value t := .ok (if t == 0 then 0.5 else 2)
  slope _ := .ok (-1)

namespace Backtracking

/-- One reduction by a quadratic and two by cubics. -/
theorem search_ends_dropping :
    letI := repeatedProducts
    let search := (standard : Backtracking Float).search 1 (-1) (Vec.norm #v[1])
    (Plan.requests dropping.reply search).length = 4 ∧
      ∃ t, Plan.value dropping.reply search = .ok t ∧ t.isFinite ∧ 0 < t := by
  let _ := repeatedProducts
  intro search
  have admitted : (standard : Backtracking Float).invalid? = none :=
    Option.isNone_iff_eq_none.mp (by decide +kernel)
  have succeeds : ∀ q, (dropping.reply q).isOk := by
    intro q
    cases q <;> rfl
  have computed : (Plan.requests dropping.reply search).length = 4 ∧
      (Plan.requests dropping.reply search).all (fun
        | .value t => smallTrial ≤ t
        | _ => true) = true := by
    decide +kernel
  refine ⟨computed.1,
    (search_ends repeatedProducts_cubes admitted succeeds #v[1]).2 fun t seen => ?_⟩
  exact of_decide_eq_true (List.all_eq_true.mp computed.2 _ seen)

/-- So short a step that the divisor vanishes in the second reduction. -/
theorem search_divides_by_zero :
    (⟨1e-4, 0.5, 0.1, .whole 2, .whole 3, some 1e-70⟩ : Backtracking Float).invalid? = none ∧
      (∀ t, ∃ v : Float, jumping.value t = .ok v ∧ v.isFinite) ∧
      Plan.value jumping.reply
          ((⟨1e-4, 0.5, 0.1, .whole 2, .whole 3, some 1e-70⟩ : Backtracking Float).search 0.5 (-1)
            (Vec.norm #v[1])) =
        .error (.fault .divisionByZero) := by
  refine ⟨Option.isNone_iff_eq_none.mp (by decide +kernel), fun t => ?_, ?_⟩
  · refine ⟨_, rfl, ?_⟩
    split
    · decide +kernel
    · decide +kernel
  · have computed : (match Plan.value jumping.reply
        ((⟨1e-4, 0.5, 0.1, .whole 2, .whole 3, some 1e-70⟩ : Backtracking Float).search 0.5 (-1)
          (Vec.norm #v[1])) with
        | .error (.fault f) => f == .divisionByZero
        | _ => false) = true := by
      decide +kernel
    split at computed
    · rename_i f failed
      rw [failed, beq_iff_eq.mp computed]
    · cases computed

end Backtracking

end RootFinding
