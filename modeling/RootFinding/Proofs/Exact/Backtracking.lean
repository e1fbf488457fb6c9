import RootFinding.Proofs.Exact.Trials

namespace RootFinding

open Exact

namespace MeritRequest

variable {α : Type}

def trial? : MeritRequest α → Option α
  | value alpha => some alpha
  | _ => none

def lastTrial (asked : List (MeritRequest α)) : Option α := (asked.filterMap trial?).getLast?

def Spent (asked : List (MeritRequest α)) : Prop :=
  ∃ reductions alpha, .note (.reductionsSpent reductions alpha) ∈ asked

theorem Spent.cons {q : MeritRequest α} {asked : List (MeritRequest α)} (spent : Spent asked) :
    Spent (q :: asked) := by
  obtain ⟨reductions, alpha, member⟩ := spent
  exact ⟨reductions, alpha, List.mem_cons_of_mem _ member⟩

theorem not_spent_value {alpha : α} : ¬ Spent [value alpha] := by
  rintro ⟨reductions, last, member⟩
  cases List.mem_singleton.mp member

end MeritRequest

open MeritRequest

namespace Backtracking

variable {b : Backtracking ℝ} {φ : MeritFunction ℝ} {phi0 slope : ℝ}

/-- What is known of a step length that a search ends with. -/
structure Settles (b : Backtracking ℝ) (φ : MeritFunction ℝ) (phi0 slope : ℝ)
    (asked : List (MeritRequest ℝ)) (alpha : ℝ) : Prop where
  positive : 0 < alpha
  small : alpha ≤ 1
  last : lastTrial asked = some alpha
  low : ¬ Spent asked → ∃ phi, φ.value alpha = .ok phi ∧ phi ≤ phi0 + b.c1 * alpha * slope

theorem Settles.cons {asked : List (MeritRequest ℝ)} {alpha : ℝ}
    (settles : b.Settles φ phi0 slope asked alpha) (q : MeritRequest ℝ) :
    b.Settles φ phi0 slope (q :: asked) alpha := by
  obtain ⟨positive, small, last, low⟩ := settles
  refine ⟨positive, small, ?_, fun kept => low fun spent => kept spent.cons⟩
  rw [lastTrial, List.filterMap_cons]
  split
  · exact last
  · rw [List.getLast?_cons]
    rw [lastTrial] at last
    rw [last]
    rfl

theorem Tries.settles (admitted : b.Admitted) {left : Nat} {t : ℝ} {trials : List ℝ}
    {asked : List (MeritRequest ℝ)} {alpha : ℝ}
    (tries : Tries b φ phi0 slope left (t :: trials) asked (.ok alpha)) (positive : 0 < t)
    (small : t ≤ 1) : b.Settles φ phi0 slope asked alpha := by
  generalize known : t :: trials = tried at tries
  generalize ended : Except.ok alpha = out at tries
  induction tries generalizing t trials with
  | failed => cases ended
  | low value below =>
    cases known
    cases ended
    exact ⟨positive, small, rfl, fun _ => ⟨_, value, below⟩⟩
  | spent =>
    cases known
    cases ended
    refine ⟨positive, small, rfl, fun kept => absurd ?_ kept⟩
    exact ⟨b.iterations, alpha, List.mem_cons_of_mem _ List.mem_cons_self⟩
  | reduced _ _ within _ ih =>
    cases known
    have closer := (mul_pos admitted.lowest positive).trans_le within.1
    have smaller := within.2.trans (mul_le_of_le_one_left positive.le admitted.highest.le)
    exact (ih closer (smaller.trans small) rfl ended).cons _

theorem search_settles (admitted : b.Admitted) {length : ℝ} (nonneg : 0 ≤ length) {alpha : ℝ}
    (found : Plan.value φ.reply (b.search phi0 slope length) = .ok alpha) :
    b.Settles φ phi0 slope (Plan.requests φ.reply (b.search phi0 slope length)) alpha := by
  obtain ⟨positive, small⟩ := initialStep_mem admitted nonneg
  obtain ⟨trials, tries⟩ := search_tries φ phi0 slope admitted nonneg
  rw [found] at tries
  exact tries.settles admitted positive small

theorem search_of_low {length phi : ℝ} (value : φ.value (b.initialStep length) = .ok phi)
    (low : phi ≤ phi0 + b.c1 * b.initialStep length * slope) :
    Plan.value φ.reply (b.search phi0 slope length) = .ok (b.initialStep length) ∧
      Plan.requests φ.reply (b.search phi0 slope length) =
        [MeritRequest.value (b.initialStep length)] := by
  have kept (first : Bool) (older : Trial ℝ) :
      b.reduce phi0 slope b.iterations.upTo first older ⟨b.initialStep length, phi⟩ =
        pure (b.initialStep length) :=
    reduce_of_low (tooHigh_eq_false.mpr low)
  simp only [search]
  constructor
  · rw [Plan.value_bind, Search.value_value, value]
    change Plan.value φ.reply (b.reduce _ _ _ _ _ _) = _
    rw [kept]
    rfl
  · rw [requests_value_bind value, kept]
    rfl

theorem requests_lineSearch {length : ℝ} :
    Plan.requests φ.reply ((LineSearch.backtracking b).search phi0 slope length) =
      Plan.requests φ.reply (b.search phi0 slope length) := by
  simp only [LineSearch.search]
  rw [Plan.requests_bind]
  split
  · rw [Plan.requests_pure, List.append_nil]
  · rw [List.append_nil]

end Backtracking

end RootFinding
