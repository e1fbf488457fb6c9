import RootFinding.Proofs.Binary64.Midpoints

namespace RootFinding.Binary64

open Float.Model Float.Model.UnpackedFloat

/-- What a magnitude is correctly rounded to, with a sign. -/
inductive Correct (s : Sign) (q : ℚ) : UnpackedFloat → Prop
  | zero (small : q ≤ 2 ^ (-1075 : ℤ)) : Correct s q (.zero s)
  | finite {m : Nat} {e : ℤ} (pos : 0 < m) (canonical : Canonical m e) (within : Within m e q) :
      Correct s q (.finite s m e pos)
  | infinity (large : limit ≤ q) : Correct s q (.infinity s)

def Rounding (s : Sign) (q : ℚ) (u : UnpackedFloat) : Prop :=
  ∃ m f a, Holds (.ofMantissaAndAccuracy m a) (q / 2 ^ f) ∧ f ≤ lastPlace m f ∧
    u = roundWithAccuracy Format.binary64 s m f a

variable {s : Sign} {q : ℚ} {u u' : UnpackedFloat} {m k : Nat} {e f g : ℤ}

theorem Rounding.exists_carried (rounding : Rounding s q u) :
    ∃ em g, Holds em (q / 2 ^ g) ∧ em.roundedMantissa ≤ 2 ^ 53 ∧ -1074 ≤ g ∧
      q < 2 ^ 53 * 2 ^ g ∧ (2 ^ 52 * 2 ^ g ≤ q ∨ g = -1074) ∧
      u = carried s em.roundedMantissa g := by
  obtain ⟨m₀, f, a, holds, le, rfl⟩ := rounding
  obtain ⟨short, full⟩ := lastPlace_spans le
  have least : -1074 ≤ lastPlace m₀ f := le_max_right _ _
  have place : lastPlace m₀ f = f + ((lastPlace m₀ f - f).toNat : ℤ) := by omega
  have first : shiftToTargetExponent Format.binary64 m₀ f a =
      (ExtendedMantissa.ofMantissaAndAccuracy m₀ a >>> (lastPlace m₀ f - f).toNat,
        lastPlace m₀ f) := by
    simp only [shiftToTargetExponent, shiftToExponent, targetExponent_eq, ← place]
  generalize lastPlace m₀ f = g at *
  generalize (g - f).toNat = k at *
  have mantissa : (ExtendedMantissa.ofMantissaAndAccuracy m₀ a).mantissa = m₀ := by
    rcases a with _ | (_ | _ | _) <;> rfl
  have bound : (ExtendedMantissa.ofMantissaAndAccuracy m₀ a >>> k).roundedMantissa ≤ 2 ^ 53 := by
    refine (roundedMantissa_le_succ _).trans ?_
    rw [shiftRight_mantissa, mantissa]
    exact (Nat.div_lt_iff_lt_mul (Nat.two_pow_pos k)).mpr short
  have unit : (0 : ℚ) < 2 ^ f := by positivity
  have scale : (2 : ℚ) ^ g = 2 ^ k * 2 ^ f := by rw [place, two_zpow_add]
  have between := holds.bounds
  rw [mantissa, le_div_iff₀ unit, div_lt_iff₀ unit] at between
  refine ⟨_, g, ?_, bound, least, ?_, ?_, ?_⟩
  · have shifted := holds.shiftRight k
    rwa [div_div, mul_comm, ← scale] at shifted
  · have whole : ((m₀ + 1 : Nat) : ℚ) ≤ (2 ^ 53 * 2 ^ k : Nat) := by exact_mod_cast short
    push_cast at whole
    rw [scale, ← mul_assoc]
    exact between.2.trans_le (mul_le_mul_of_nonneg_right whole unit.le)
  · refine full.imp_left fun filled => ?_
    have whole : ((2 ^ 52 * 2 ^ k : Nat) : ℚ) ≤ m₀ := by exact_mod_cast filled
    push_cast at whole
    rw [scale, ← mul_assoc]
    exact (mul_le_mul_of_nonneg_right whole unit.le).trans between.1
  · rw [roundWithAccuracy, first]
    exact assembled_shift s bound least

theorem Rounding.of_within (rounding : Rounding s q u) (canonical : Canonical m e) (pos : 0 < m)
    (within : Within m e q) : u = .finite s m e pos := by
  obtain ⟨em, g, holds, bound, least, short, full, rfl⟩ := rounding.exists_carried
  exact carried_of_within canonical pos within holds least short full

theorem within_mul_two_pow {x : ℚ} (above : lowerQuarters m e ≤ 4 * x) (below : 4 * x ≤ 4 * m + 2)
    (tie : 4 * x = lowerQuarters m e ∨ 4 * x = 4 * m + 2 → m % 2 = 0) :
    Within m e (x * 2 ^ e) := by
  have unit : (0 : ℚ) < 2 ^ (e - 2) := by positivity
  have quarters : x * 2 ^ e = 4 * x * 2 ^ (e - 2) := by
    rw [quarter e]
    ring
  refine ⟨?_, ?_, fun edge => tie (edge.imp (fun left => ?_) fun right => ?_)⟩
  · rw [quarters]
    exact mul_le_mul_of_nonneg_right above unit.le
  · rw [quarters]
    push_cast
    exact mul_le_mul_of_nonneg_right below unit.le
  · exact mul_right_cancel₀ unit.ne' (quarters.symm.trans left)
  · push_cast at right
    exact mul_right_cancel₀ unit.ne' (quarters.symm.trans right)

theorem lowerQuarters_cases (pos : 0 < m) (e : ℤ) :
    (m = 2 ^ 52 ∧ -1074 < e ∧ (lowerQuarters m e : ℚ) = 4 * m - 1) ∨
      (lowerQuarters m e : ℚ) = 4 * m - 2 := by
  rw [lowerQuarters]
  split
  · rename_i power
    rw [Nat.cast_sub (by omega)]
    exact .inl ⟨power.1, power.2, by push_cast; rfl⟩
  · rw [Nat.cast_sub (by omega)]
    exact .inr (by push_cast; rfl)

theorem Within.unit_lt (within : Within m e q) (pos : 0 < m) (least : -1074 ≤ e) :
    (2 : ℚ) ^ (-1075 : ℤ) < q := by
  have unit : (2 : ℚ) ^ (-1075 : ℤ) = 2 * 2 ^ (-1076 : ℤ) := by
    rw [← zpow_one_add₀ two_ne_zero]
    norm_num
  have wider : (2 : ℚ) ^ (-1076 : ℤ) ≤ 2 ^ (e - 2) := zpow_le_zpow_right₀ one_le_two (by omega)
  have above := within.above
  have quarters : lowerQuarters m e = 2 ∧ m % 2 = 1 ∨ 3 ≤ lowerQuarters m e := by
    rw [lowerQuarters]
    split <;> omega
  rcases quarters with ⟨two, odd⟩ | three
  · have low : 2 * (2 : ℚ) ^ (-1076 : ℤ) ≤ lowerQuarters m e * 2 ^ (e - 2) := by
      rw [two]
      exact mul_le_mul_of_nonneg_left wider two_pos.le
    refine lt_of_le_of_ne (unit.le.trans (low.trans above)) fun same => ?_
    have even := within.tie (.inl (le_antisymm (same.symm.le.trans (unit.le.trans low)) above))
    omega
  · have more : (3 : ℚ) ≤ lowerQuarters m e := by exact_mod_cast three
    calc
      (2 : ℚ) ^ (-1075 : ℤ) = 2 * 2 ^ (-1076 : ℤ) := unit
      _ < 3 * 2 ^ (-1076 : ℤ) := mul_lt_mul_of_pos_right (by norm_num) (by positivity)
      _ ≤ lowerQuarters m e * 2 ^ (e - 2) := mul_le_mul more wider (by positivity) (by positivity)
      _ ≤ q := above

theorem limit_le {x : ℚ} (high : 971 ≤ g) (large : 2 ^ 54 - 1 ≤ 2 * x) : limit ≤ x * 2 ^ g := by
  have wider : (2 : ℚ) ^ (971 : ℤ) ≤ 2 ^ g := zpow_le_zpow_right₀ one_le_two high
  have nonneg : 0 ≤ x := by linarith
  calc
    limit ≤ 2 * x * 2 ^ 970 := mul_le_mul_of_nonneg_right large (by positivity)
    _ = x * 2 ^ (971 : ℤ) := by
      rw [zpow_ofNat, pow_succ (2 : ℚ) 970]
      generalize (2 : ℚ) ^ 970 = step
      ring
    _ ≤ x * 2 ^ g := mul_le_mul_of_nonneg_left wider nonneg

theorem Within.lt_limit (within : Within m e q) (canonical : Canonical m e) : q < limit := by
  have unit : (0 : ℚ) < 2 ^ (969 : ℤ) := by positivity
  have top : limit = (2 ^ 55 - 2) * 2 ^ (969 : ℤ) := by
    rw [limit, zpow_ofNat, pow_succ (2 : ℚ) 969]
    generalize (2 : ℚ) ^ 969 = step
    ring
  have short : (4 * m + 2 : Nat) ≤ (2 ^ 55 - 2 : ℚ) := by
    have fits := canonical.short
    have whole : ((4 * m + 2 : Nat) : ℚ) ≤ (2 ^ 55 - 2 : Nat) := by exact_mod_cast (by omega)
    exact whole.trans (by norm_num)
  have wider : (2 : ℚ) ^ (e - 2) ≤ 2 ^ (969 : ℤ) :=
    zpow_le_zpow_right₀ one_le_two (by have := canonical.most; omega)
  have reach : ((4 * m + 2 : Nat) : ℚ) * 2 ^ (e - 2) ≤ limit := by
    rw [top]
    exact mul_le_mul short wider (by positivity) (by norm_num)
  refine lt_of_le_of_ne (within.below.trans reach) fun same => ?_
  -- Only the largest number has reals up to there, and its mantissa is odd.
  have even := within.tie (.inr (le_antisymm within.below (reach.trans same.symm.le)))
  have whole : (2 ^ 55 - 2 : ℚ) * 2 ^ (969 : ℤ) ≤ (4 * m + 2 : Nat) * 2 ^ (969 : ℤ) := by
    rw [← top, ← same]
    exact within.below.trans (mul_le_mul_of_nonneg_left wider (by positivity))
  have full := le_of_mul_le_mul_right whole unit
  have odd : (2 ^ 55 - 2 : Nat) ≤ 4 * m + 2 := by
    have cast : ((2 ^ 55 - 2 : Nat) : ℚ) ≤ (4 * m + 2 : Nat) := by
      refine le_trans ?_ full
      norm_num
    exact_mod_cast cast
  have fits := canonical.short
  omega

section Carried

variable {r : Nat} {x : ℚ}

theorem correct_unit (low : 2 * x ≤ 1) : Correct s (x * 2 ^ (-1074 : ℤ)) (.zero s) := by
  refine .zero ?_
  calc
    x * 2 ^ (-1074 : ℤ) ≤ 1 / 2 * 2 ^ (-1074 : ℤ) :=
      mul_le_mul_of_nonneg_right (by linarith) (by positivity)
    _ = 2 ^ (-1075 : ℤ) := by
      rw [one_div, ← zpow_neg_one, ← zpow_add₀ two_ne_zero]
      norm_num

theorem correct_grown (above : 2 ^ 54 - 1 ≤ 2 * x) (below : 2 * x ≤ 2 ^ 54 + 1)
    (least : -1074 ≤ g) :
    Correct s (x * 2 ^ g) (stored (.finite s (2 ^ 52) (g + 1) (by decide))) := by
  by_cases fits : g + 1 ≤ 971
  · have canonical : Canonical (2 ^ 52) (g + 1) := ⟨by decide, by omega, fits, .inl le_rfl⟩
    have quarters : lowerQuarters (2 ^ 52) (g + 1) = 2 ^ 54 - 1 := by
      rw [lowerQuarters, if_pos ⟨rfl, by omega⟩]
      rfl
    have halved : x * 2 ^ g = x / 2 * 2 ^ (g + 1) := by
      rw [zpow_add_one₀ two_ne_zero]
      ring
    rw [stored_of_canonical s _ canonical, halved]
    refine .finite _ canonical (within_mul_two_pow ?_ ?_ fun _ => rfl)
    · rw [quarters]
      push_cast
      linarith
    · push_cast
      linarith
  · rw [stored_of_large s _ (by omega)]
    exact .infinity (limit_le (by omega) (by linarith))

theorem Near.canonical (near : Near r x) (short : r < 2 ^ 53) (least : -1074 ≤ g)
    (most : g ≤ 971) (full : 2 ^ 52 ≤ x ∨ g = -1074) : Canonical r g := by
  refine ⟨short, least, most, full.imp_left fun filled => ?_⟩
  by_contra small
  have less : (r : ℚ) + 1 ≤ 2 ^ 52 := by exact_mod_cast (by omega : r + 1 ≤ 2 ^ 52)
  linarith [near.below]

theorem Near.within (near : Near r x) (pos : 0 < r) (full : 2 ^ 52 ≤ x ∨ g = -1074) :
    Within r g (x * 2 ^ g) := by
  obtain ⟨above, below, tie⟩ := near
  rcases lowerQuarters_cases pos g with ⟨rfl, normal, quarters⟩ | quarters
  · have filled := full.resolve_right (by omega)
    refine within_mul_two_pow ?_ (by linarith) fun _ => rfl
    rw [quarters]
    push_cast
    linarith
  · refine within_mul_two_pow ?_ (by linarith) fun edge => tie ?_
    · rw [quarters]
      linarith
    · rw [quarters] at edge
      exact edge.imp (fun left => by linarith) fun right => by linarith

theorem Near.correct (near : Near r x) (pos : 0 < r) (short : r < 2 ^ 53) (least : -1074 ≤ g)
    (full : 2 ^ 52 ≤ x ∨ g = -1074) :
    Correct s (x * 2 ^ g) (stored (.finite s r g pos)) := by
  by_cases fits : g ≤ 971
  · have canonical := near.canonical short least fits full
    rw [stored_of_canonical s _ canonical]
    exact .finite pos canonical (near.within pos full)
  · have filled := full.resolve_right (by omega)
    have doubled : x * 2 ^ g = 2 * x * 2 ^ (g - 1) := by
      rw [zpow_sub_one₀ two_ne_zero]
      ring
    rw [stored_of_large s _ (by omega), doubled]
    exact .infinity (limit_le (by omega) (by linarith))

theorem correct_carried (near : Near r x) (bound : r ≤ 2 ^ 53) (least : -1074 ≤ g)
    (full : 2 ^ 52 ≤ x ∨ g = -1074) : Correct s (x * 2 ^ g) (stored (carried s r g)) := by
  rw [carried]
  split
  · rename_i zero
    have low : 2 * x ≤ 1 := by simpa [zero] using near.below
    obtain rfl : g = -1074 := full.resolve_left (by linarith)
    rw [stored_zero]
    exact correct_unit low
  · rename_i some'
    split
    · rename_i grown
      obtain ⟨above, below, _⟩ := near
      rw [grown] at above below
      push_cast at above below
      exact correct_grown (by linarith) (by linarith) least
    · exact near.correct (Nat.pos_of_ne_zero some') (by omega) least full

end Carried

theorem Rounding.correct (rounding : Rounding s q u) : Correct s q (stored u) := by
  obtain ⟨em, g, holds, bound, least, short, full, rfl⟩ := rounding.exists_carried
  have unit : (0 : ℚ) < 2 ^ g := by positivity
  have scaled : q = q / 2 ^ g * 2 ^ g := (div_mul_cancel₀ q unit.ne').symm
  rw [scaled]
  exact correct_carried holds.near bound least (full.imp_left (le_div_iff₀ unit).mpr)

end RootFinding.Binary64
