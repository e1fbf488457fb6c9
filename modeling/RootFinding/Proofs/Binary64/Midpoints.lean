import RootFinding.Proofs.Binary64.Operations

namespace RootFinding.Binary64

open Float.Model Float.Model.UnpackedFloat

def halves (em : ExtendedMantissa) : Nat := 2 * em.mantissa + em.roundBit.toNat

/-- The bits say where a number lies: its half steps, and whether it lies beyond them. -/
structure Holds (em : ExtendedMantissa) (x : ℚ) : Prop where
  low : (halves em : ℚ) ≤ 2 * x
  high : 2 * x < halves em + 1
  sticky : em.stickyBit = true ↔ (halves em : ℚ) < 2 * x

theorem holds_exact (m : Nat) : Holds (.ofMantissaAndAccuracy m .exact) m := by
  have same : ((halves (.ofMantissaAndAccuracy m .exact) : Nat) : ℚ) = 2 * m := by
    simp [halves, ExtendedMantissa.ofMantissaAndAccuracy]
  refine ⟨same.le, by rw [same]; exact lt_add_one _, ?_⟩
  rw [same]
  exact ⟨fun bit => (nomatch bit), fun less => absurd less (lt_irrefl _)⟩

theorem holds_fraction (m : Nat) {num den : Nat} (proper : num < den) :
    Holds (.ofMantissaAndAccuracy m (accuracyOfFraction num den)) (m + num / den) := by
  have some' : (0 : ℚ) < den := by exact_mod_cast Nat.zero_lt_of_lt proper
  have less : (num : ℚ) / den < 1 := by
    rw [div_lt_one some']
    exact_mod_cast proper
  rw [accuracyOfFraction]
  split
  · rename_i none
    rw [none, Nat.cast_zero, zero_div, add_zero]
    exact holds_exact m
  · rename_i more
    have above : (0 : ℚ) < num / den := div_pos (by exact_mod_cast Nat.pos_of_ne_zero more) some'
    have double : (2 : ℚ) * (m + num / den) = 2 * m + ((2 * num : Nat) : ℚ) / den := by
      push_cast
      ring
    rcases lt_trichotomy (2 * num) den with below | middle | beyond
    · have half : ((2 * num : Nat) : ℚ) / den < 1 := by
        rw [div_lt_one some']
        exact_mod_cast below
      rw [compare_lt_iff_lt.mpr below]
      constructor <;> simp [halves, ExtendedMantissa.ofMantissaAndAccuracy] <;> linarith
    · have half : ((2 * num : Nat) : ℚ) / den = 1 := by
        rw [middle, div_self some'.ne']
      rw [compare_eq_iff_eq.mpr middle]
      constructor <;> simp [halves, ExtendedMantissa.ofMantissaAndAccuracy] <;> linarith
    · have half : 1 < ((2 * num : Nat) : ℚ) / den := by
        rw [one_lt_div some']
        exact_mod_cast beyond
      rw [compare_gt_iff_gt.mpr beyond]
      constructor <;> simp [halves, ExtendedMantissa.ofMantissaAndAccuracy] <;> linarith

theorem Holds.shiftRightOne {em : ExtendedMantissa} {x : ℚ} (holds : Holds em x) :
    Holds em.shiftRightOne (x / 2) := by
  obtain ⟨m, round, sticky⟩ := em
  obtain ⟨low, high, stuck⟩ := holds
  have kept : halves (ExtendedMantissa.shiftRightOne ⟨m, round, sticky⟩) = m := by
    simp only [halves, ExtendedMantissa.shiftRightOne]
    rcases Nat.mod_two_eq_zero_or_one m with even | odd
    · simp [even]
      omega
    · simp [odd]
      omega
  have double : 2 * (x / 2) = x := by ring
  simp only [halves] at low high stuck
  push_cast at low high stuck
  constructor
  · rw [kept, double]
    cases round <;> simp at low <;> linarith
  · rw [kept, double]
    cases round <;> simp at high <;> linarith
  · rw [kept, double]
    simp only [ExtendedMantissa.shiftRightOne, Bool.or_eq_true, stuck]
    cases round
    · simp
    · simp at low ⊢
      linarith

theorem Holds.shiftRight {em : ExtendedMantissa} {x : ℚ} (holds : Holds em x) (k : Nat) :
    Holds (em >>> k) (x / 2 ^ k) := by
  induction k with
  | zero => simpa [HShiftRight.hShiftRight, Nat.repeat] using holds
  | succ k ih =>
    rw [pow_succ, ← div_div]
    exact ih.shiftRightOne

theorem Holds.bounds {em : ExtendedMantissa} {x : ℚ} (holds : Holds em x) :
    (em.mantissa : ℚ) ≤ x ∧ x < em.mantissa + 1 := by
  obtain ⟨low, high, _⟩ := holds
  have bit : (em.roundBit.toNat : ℚ) ≤ 1 := by exact_mod_cast Bool.toNat_le em.roundBit
  have some' : (0 : ℚ) ≤ em.roundBit.toNat := Nat.cast_nonneg _
  simp only [halves] at low high
  push_cast at low high
  constructor <;> linarith

/-- Nearer to an integer than to any other, or halfway between it and another if it is even. -/
structure Near (r : Nat) (x : ℚ) : Prop where
  above : (2 * r : ℚ) - 1 ≤ 2 * x
  below : 2 * x ≤ 2 * r + 1
  tie : 2 * x = 2 * r - 1 ∨ 2 * x = 2 * r + 1 → r % 2 = 0

theorem Holds.near {em : ExtendedMantissa} {x : ℚ} (holds : Holds em x) :
    Near em.roundedMantissa x := by
  obtain ⟨m, round, sticky⟩ := em
  obtain ⟨low, high, stuck⟩ := holds
  simp only [halves] at low high stuck
  push_cast at low high stuck
  cases round with
  | false =>
    have kept : (ExtendedMantissa.mk m false sticky).roundedMantissa = m := by
      cases sticky <;> rfl
    simp only [Bool.toNat_false, Nat.cast_zero, add_zero] at low high
    rw [kept]
    exact ⟨by linarith, by linarith, fun edge => by rcases edge with left | right <;> linarith⟩
  | true =>
    simp only [Bool.toNat_true, Nat.cast_one] at low high stuck
    cases sticky with
    | false =>
      have middle : 2 * x = 2 * m + 1 := by
        refine le_antisymm (not_lt.mp fun beyond => ?_) low
        exact Bool.false_ne_true (stuck.mpr beyond)
      rcases Nat.mod_two_eq_zero_or_one m with even | odd
      · have kept : (ExtendedMantissa.mk m true false).roundedMantissa = m := by
          change m + m % 2 = m
          omega
        rw [kept]
        exact ⟨by linarith, by linarith, fun _ => even⟩
      · have raised : (ExtendedMantissa.mk m true false).roundedMantissa = m + 1 := by
          change m + m % 2 = m + 1
          omega
        rw [raised]
        refine ⟨by push_cast; linarith, by push_cast; linarith, fun _ => by omega⟩
    | true =>
      have beyond := stuck.mp rfl
      have raised : (ExtendedMantissa.mk m true true).roundedMantissa = m + 1 := rfl
      rw [raised]
      refine ⟨by push_cast; linarith, by push_cast; linarith, fun edge => ?_⟩
      push_cast at edge
      rcases edge with left | right <;> linarith

theorem Near.unique {r r' : Nat} {x : ℚ} (near : Near r x) (near' : Near r' x) : r = r' := by
  have ordered {a b : Nat} (first : Near a x) (second : Near b x) (less : a < b) : False := by
    have close : (2 * b : ℚ) ≤ 2 * a + 2 := by
      have := first.below
      have := second.above
      linarith
    obtain rfl : b = a + 1 := by
      have : b ≤ a + 1 := by exact_mod_cast (by linarith : (b : ℚ) ≤ a + 1)
      omega
    -- Halfway between them only one is even.
    have above := second.above
    push_cast at above
    have middle : 2 * x = 2 * a + 1 := le_antisymm first.below (by linarith)
    have even := first.tie (.inr middle)
    have evenToo := second.tie (.inl (by push_cast; linarith))
    omega
  rcases lt_trichotomy r r' with less | same | more
  · exact (ordered near near' less).elim
  · exact same
  · exact (ordered near' near more).elim

theorem Holds.roundedMantissa_eq {em : ExtendedMantissa} {x : ℚ} (holds : Holds em x) {r : Nat}
    (near : Near r x) : em.roundedMantissa = r := holds.near.unique near

/-- Where the reals that are rounded to a number begin, in quarters of its last place. The gap below
a power of two is half the gap above, unless both have the least exponent. -/
def lowerQuarters (m : Nat) (e : ℤ) : Nat :=
  if m = 2 ^ 52 ∧ -1074 < e then 4 * m - 1 else 4 * m - 2

structure Within (m : Nat) (e : ℤ) (q : ℚ) : Prop where
  above : lowerQuarters m e * 2 ^ (e - 2) ≤ q
  below : q ≤ (4 * m + 2 : Nat) * 2 ^ (e - 2)
  tie : q = lowerQuarters m e * 2 ^ (e - 2) ∨ q = (4 * m + 2 : Nat) * 2 ^ (e - 2) → m % 2 = 0

theorem quarter (e : ℤ) : (2 : ℚ) ^ e = 4 * 2 ^ (e - 2) := by
  have exponent : e = e - 2 + 2 := by omega
  rw [exponent, zpow_add₀ two_ne_zero, ← exponent]
  norm_num
  ring

theorem lastPlace_spans {m : Nat} {f : ℤ} (le : f ≤ lastPlace m f) :
    m < 2 ^ 53 * 2 ^ (lastPlace m f - f).toNat ∧
      (2 ^ 52 * 2 ^ (lastPlace m f - f).toNat ≤ m ∨ lastPlace m f = -1074) := by
  rcases Nat.eq_zero_or_pos m with rfl | pos
  · refine ⟨Nat.mul_pos (by decide) (Nat.two_pow_pos _), .inr ?_⟩
    simp only [lastPlace, Nat.log2_zero] at le ⊢
    omega
  · exact lastPlace_bounds pos le

section Rounding

variable {m : Nat} {e : ℤ} {q : ℚ}

theorem within_self (pos : 0 < m) (e : ℤ) : Within m e (m * 2 ^ e) := by
  have unit : (0 : ℚ) < 2 ^ (e - 2) := by positivity
  have lower : lowerQuarters m e < 4 * m := by
    rw [lowerQuarters]
    split <;> omega
  have less : (lowerQuarters m e : ℚ) < m * 4 := by exact_mod_cast (by omega)
  have more : (m : ℚ) * 4 < (4 * m + 2 : Nat) := by exact_mod_cast (by omega)
  rw [quarter e, ← mul_assoc]
  refine ⟨mul_le_mul_of_nonneg_right less.le unit.le, mul_le_mul_of_nonneg_right more.le unit.le,
    ?_⟩
  rw [mul_left_inj' unit.ne', mul_left_inj' unit.ne']
  rintro (same | same)
  · exact absurd same less.ne'
  · exact absurd same more.ne

theorem Within.lt_end (within : Within m e q) (short : m < 2 ^ 53) : q < 2 ^ 53 * 2 ^ e := by
  have unit : (0 : ℚ) < 2 ^ (e - 2) := by positivity
  have long : ((4 * m + 2 : Nat) : ℚ) < 2 ^ 55 := by
    exact_mod_cast (by omega : 4 * m + 2 < 2 ^ 55)
  calc
    q ≤ (4 * m + 2 : Nat) * 2 ^ (e - 2) := within.below
    _ < 2 ^ 55 * 2 ^ (e - 2) := mul_lt_mul_of_pos_right long unit
    _ = 2 ^ 53 * 2 ^ e := by
      rw [quarter e]
      ring

theorem Within.near (within : Within m e q) (pos : 0 < m) : Near m (q / 2 ^ e) := by
  have unit : (0 : ℚ) < 2 ^ (e - 2) := by positivity
  obtain ⟨x, rfl⟩ : ∃ x, q = x * 2 ^ (e - 2) := ⟨q / 2 ^ (e - 2), by field_simp⟩
  have scaled : 4 * (x * 2 ^ (e - 2) / 2 ^ e) = x := by
    rw [quarter e]
    field_simp
  obtain ⟨above, below, tie⟩ := within
  rw [mul_le_mul_iff_of_pos_right unit] at above below
  rw [mul_left_inj' unit.ne', mul_left_inj' unit.ne'] at tie
  have lower : (4 * m : ℚ) ≤ lowerQuarters m e + 2 := by
    exact_mod_cast (show 4 * m ≤ lowerQuarters m e + 2 by rw [lowerQuarters]; split <;> omega)
  push_cast at below tie
  refine ⟨by linarith, by linarith, fun edge => tie ?_⟩
  rcases edge with left | right
  · exact .inl (by linarith)
  · exact .inr (by linarith)

theorem Within.near_end (within : Within (2 ^ 52) e q) (least : -1074 < e)
    (less : q < 2 ^ 53 * 2 ^ (e - 1)) : Near (2 ^ 53) (q / 2 ^ (e - 1)) := by
  have half : (2 : ℚ) ^ (e - 1) = 2 * 2 ^ (e - 2) := by
    have exponent : e - 1 = e - 2 + 1 := by omega
    rw [exponent, zpow_add_one₀ two_ne_zero]
    ring
  have unit : (0 : ℚ) < 2 ^ (e - 2) := by positivity
  have above := within.above
  have quarters : lowerQuarters (2 ^ 52) e = 2 ^ 54 - 1 := by
    rw [lowerQuarters, if_pos ⟨rfl, least⟩]
    rfl
  rw [quarters] at above
  rw [half] at less ⊢
  obtain ⟨x, rfl⟩ : ∃ x, q = x * 2 ^ (e - 2) := ⟨q / 2 ^ (e - 2), by field_simp⟩
  rw [← mul_assoc, mul_lt_mul_iff_of_pos_right unit] at less
  rw [mul_le_mul_iff_of_pos_right unit] at above
  have scaled : 2 * (x * 2 ^ (e - 2) / (2 * 2 ^ (e - 2))) = x := by field_simp
  push_cast at above
  refine ⟨by rw [scaled]; push_cast; linarith, by rw [scaled]; push_cast; linarith, fun _ => rfl⟩

theorem Within.eq_two_pow {place : ℤ} (within : Within m e q) (canonical : Canonical m e)
    (before : place < e) (least : -1074 ≤ place) (short : q < 2 ^ 53 * 2 ^ place) :
    m = 2 ^ 52 := by
  have unit : (0 : ℚ) < 2 ^ (e - 2) := by positivity
  have full := canonical.full.resolve_right (by omega)
  have reach := short_le (le_refl (2 ^ 53)) before
  push_cast at reach
  rw [quarter e, ← mul_assoc] at reach
  have less : (lowerQuarters m e : ℚ) * 2 ^ (e - 2) < 2 ^ 52 * 4 * 2 ^ (e - 2) :=
    within.above.trans_lt (short.trans_le reach)
  rw [mul_lt_mul_iff_of_pos_right unit] at less
  have few : lowerQuarters m e < 2 ^ 52 * 4 := by exact_mod_cast less
  by_contra other
  rw [lowerQuarters, if_neg (fun both => other both.1)] at few
  omega

theorem carried_of_within {s : Sign} {em : ExtendedMantissa} {place : ℤ}
    (canonical : Canonical m e) (pos : 0 < m) (within : Within m e q)
    (holds : Holds em (q / 2 ^ place)) (least : -1074 ≤ place) (short : q < 2 ^ 53 * 2 ^ place)
    (full : 2 ^ 52 * 2 ^ place ≤ q ∨ place = -1074) :
    carried s em.roundedMantissa place = .finite s m e pos := by
  rcases lt_trichotomy place e with before | rfl | after
  · obtain rfl := within.eq_two_pow canonical before least short
    obtain rfl : place = e - 1 := by
      by_contra further
      have unit : (0 : ℚ) < 2 ^ (e - 2) := by positivity
      have above := within.above
      rw [lowerQuarters, if_pos ⟨rfl, by omega⟩] at above
      have wider : (2 : ℚ) ^ place ≤ 2 ^ (e - 2) := zpow_le_zpow_right₀ one_le_two (by omega)
      have less : ((4 * 2 ^ 52 - 1 : Nat) : ℚ) * 2 ^ (e - 2) < 2 ^ 53 * 2 ^ (e - 2) :=
        above.trans_lt (short.trans_le (mul_le_mul_of_nonneg_left wider (by norm_num)))
      rw [mul_lt_mul_iff_of_pos_right unit] at less
      norm_num at less
    rw [holds.roundedMantissa_eq (within.near_end (by omega) short), carried, dif_neg (by decide),
      if_pos rfl]
    simp only [sub_add_cancel]
  · rw [holds.roundedMantissa_eq (within.near pos), carried, dif_neg pos.ne', if_neg]
    have := canonical.short
    omega
  · have filled := full.resolve_right (by have := canonical.least; omega)
    have below := within.lt_end canonical.short
    have reach := short_le (le_refl (2 ^ 53)) after
    push_cast at reach
    exact absurd (below.trans_le reach) filled.not_gt

end Rounding

theorem roundedMantissa_le_succ (em : ExtendedMantissa) :
    em.roundedMantissa ≤ em.mantissa + 1 := by
  have bit := Bool.toNat_le em.roundBit
  have := (roundedMantissa_bounds em).2
  omega

end RootFinding.Binary64
