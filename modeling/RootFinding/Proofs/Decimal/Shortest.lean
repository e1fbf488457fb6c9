import RootFinding.Proofs.Binary64.Midpoints
import RootFinding.Decimal.Shortest

namespace RootFinding.Decimal

open Binary64

namespace Scaled

def value (d : Scaled) : ℚ := d.digits * 10 ^ d.exponent

end Scaled

theorem compare_cast (a b : Nat) : compare (a : ℚ) (b : ℚ) = compare a b := by
  rcases lt_trichotomy a b with less | same | more
  · rw [compare_lt_iff_lt.mpr less, compare_lt_iff_lt.mpr (by exact_mod_cast less)]
  · rw [same, compare_eq_iff_eq.mpr rfl, compare_eq_iff_eq.mpr rfl]
  · rw [compare_gt_iff_gt.mpr more, compare_gt_iff_gt.mpr (by exact_mod_cast more)]

theorem compare_mul {a b c : ℚ} (positive : 0 < c) : compare (a * c) (b * c) = compare a b := by
  rcases lt_trichotomy a b with less | same | more
  · rw [compare_lt_iff_lt.mpr less, compare_lt_iff_lt.mpr (mul_lt_mul_of_pos_right less positive)]
  · rw [same, compare_eq_iff_eq.mpr rfl, compare_eq_iff_eq.mpr rfl]
  · rw [compare_gt_iff_gt.mpr more, compare_gt_iff_gt.mpr (mul_lt_mul_of_pos_right more positive)]

theorem zpow_mul_toNat {b : ℚ} (nonzero : b ≠ 0) (i : ℤ) :
    b ^ i * b ^ (-i).toNat = b ^ i.toNat := by
  rw [← zpow_natCast, ← zpow_natCast, ← zpow_add₀ nonzero]
  congr 1
  omega

theorem compareScaled_eq (a : Nat) (i : ℤ) (n : Nat) (j : ℤ) :
    compareScaled a i n j = compare ((a : ℚ) * 10 ^ i) (n * 2 ^ j) := by
  have positive : (0 : ℚ) < 10 ^ (-i).toNat * 2 ^ (-j).toNat := by positivity
  have left : ((a * Nat.pow 10 i.toNat * Nat.pow 2 (-j).toNat : Nat) : ℚ) =
      (a : ℚ) * 10 ^ i * (10 ^ (-i).toNat * 2 ^ (-j).toNat) := by
    simp only [Nat.pow_eq]
    push_cast
    rw [← zpow_mul_toNat (by norm_num : (10 : ℚ) ≠ 0) i]
    ring
  have right : ((n * Nat.pow 2 j.toNat * Nat.pow 10 (-i).toNat : Nat) : ℚ) =
      (n : ℚ) * 2 ^ j * (10 ^ (-i).toNat * 2 ^ (-j).toNat) := by
    simp only [Nat.pow_eq]
    push_cast
    rw [← zpow_mul_toNat two_ne_zero j]
    ring
  rw [compareScaled, ← compare_cast, left, right, compare_mul positive]

theorem roundDiv_eq (num den : Nat) :
    roundDiv num den = num / den ∨ roundDiv num den = num / den + 1 := by
  simp only [roundDiv]
  split
  · exact .inl rfl
  · split
    · exact .inr rfl
    · omega

namespace Binary

def ofParts (m : Nat) (e : ℤ) : Binary := ⟨m, e, decide (m = 2 ^ 52 ∧ -1074 < e)⟩

variable {m : Nat} {e : ℤ}

theorem within_of_readsBack {d : Scaled} (reads : (ofParts m e).readsBack d) :
    Within m e d.value := by
  have lower : (if (ofParts m e).narrowBelow then 4 * (ofParts m e).significand - 1
      else 4 * (ofParts m e).significand - 2) = lowerQuarters m e := by
    simp only [ofParts, lowerQuarters, decide_eq_true_eq]
  simp only [readsBack, lower, compareScaled_eq, Bool.and_eq_true, Bool.or_eq_true, beq_iff_eq,
    compare_gt_iff_gt, compare_lt_iff_lt, compare_eq_iff_eq] at reads
  obtain ⟨above, below⟩ := reads
  refine ⟨?_, ?_, ?_⟩
  · exact above.elim le_of_lt fun tie => tie.2.ge
  · exact below.elim le_of_lt fun tie => tie.2.le
  · rintro (low | high)
    · exact above.elim (fun less => absurd low less.ne') And.left
    · exact below.elim (fun less => absurd high less.ne) And.left

theorem readsBack_of_onGrid {x : Binary} {place : ℤ} {d : Scaled}
    (found : x.onGrid place = some d) : x.readsBack d := by
  simp only [onGrid] at found
  split at found
  · rename_i down up
    cases found
    rcases roundDiv_eq (x.ratio place).1 (x.ratio place).2 with same | same
    · rw [same]
      exact down
    · rw [same]
      exact up
  · rename_i down _
    cases found
    exact down
  · rename_i _ up
    cases found
    exact up
  · cases found

theorem value_exact (m : Nat) (e : ℤ) : (ofParts m e).exact.value = m * 2 ^ e := by
  rw [exact]
  split
  · rename_i negative
    change e < 0 at negative
    obtain ⟨k, rfl⟩ : ∃ k : Nat, e = -k := ⟨(-e).toNat, by omega⟩
    have ten : (10 : ℚ) = 5 * 2 := by norm_num
    simp only [ofParts, Scaled.value, neg_neg, Int.toNat_natCast, Nat.pow_eq, zpow_neg,
      zpow_natCast, ten, mul_pow]
    push_cast
    field_simp
  · rename_i nonneg
    change ¬ e < 0 at nonneg
    obtain ⟨k, rfl⟩ : ∃ k : Nat, e = k := ⟨e.toNat, by omega⟩
    simp only [ofParts, Scaled.value, Int.toNat_natCast, Nat.pow_eq, zpow_natCast, zpow_zero,
      mul_one]
    push_cast
    rfl

theorem within_shortest (pos : 0 < m) (e : ℤ) : Within m e (ofParts m e).shortest.value := by
  rw [shortest]
  cases found : (List.range 17).findSome?
      fun i => (ofParts m e).onGrid ((ofParts m e).scale - (i + 1 : Nat)) with
  | some d =>
    obtain ⟨i, _, reads⟩ := List.exists_of_findSome?_eq_some found
    exact within_of_readsBack (readsBack_of_onGrid reads)
  | none =>
    rw [Option.getD_none, value_exact]
    exact within_self pos e

end Binary

end RootFinding.Decimal
