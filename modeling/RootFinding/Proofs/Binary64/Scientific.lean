import RootFinding.Proofs.Binary64.Correct

namespace RootFinding.Binary64

open Float.Model Float.Model.UnpackedFloat

section Operations

variable {m k c : Nat} {e f g : ℤ}

theorem mul_rounding {s t : Sign} (pos : 0 < m) (pos' : 0 < k)
    (le : e + f ≤ lastPlace (m * k) (e + f)) :
    Rounding (s * t) (m * 2 ^ e * (k * 2 ^ f))
      (UnpackedFloat.mul Format.binary64 (.finite s m e pos) (.finite t k f pos')) := by
  refine ⟨m * k, e + f, .exact, ?_, le, rfl⟩
  have product : (m : ℚ) * 2 ^ e * (k * 2 ^ f) / 2 ^ (e + f) = (m * k : Nat) := by
    rw [zpow_add₀ two_ne_zero]
    push_cast
    field_simp
  rw [product]
  exact holds_exact (m * k)

theorem mul_of_within {s t : Sign} (canonical : Canonical c g) (pos : 0 < m) (pos' : 0 < k)
    (some' : 0 < c) (within : Within c g (m * 2 ^ e * (k * 2 ^ f)))
    (le : e + f ≤ lastPlace (m * k) (e + f)) :
    UnpackedFloat.mul Format.binary64 (.finite s m e pos) (.finite t k f pos') =
      .finite (s * t) c g some' :=
  (mul_rounding pos pos' le).of_within canonical some' within

theorem round_rounding {s : Sign} (pos : 0 < m) (e : ℤ) :
    Rounding s (m * 2 ^ e) (UnpackedFloat.round Format.binary64 s m e) := by
  let shift := (e - lastPlace m e).toNat
  have below : e - shift ≤ lastPlace (m * 2 ^ shift) (e - shift) := by
    have same : lastPlace (m * 2 ^ shift) (e - shift) = lastPlace m e := by
      simp only [lastPlace, log2_mul_two_pow pos]
      omega
    omega
  refine ⟨m * 2 ^ shift, e - shift, .exact, ?_, below, round_eq_roundWithAccuracy s m e⟩
  have longer : (m : ℚ) * 2 ^ e / 2 ^ (e - shift) = (m * 2 ^ shift : Nat) := by
    rw [zpow_sub₀ two_ne_zero, zpow_natCast]
    push_cast
    field_simp
  rw [longer]
  exact holds_exact _

theorem quotient_place {shift : Nat} (pos : 0 < m) (pos' : 0 < k) {place : ℤ}
    (long : k.log2 + 53 ≤ m.log2 + shift ∨ place ≤ -1074) :
    place ≤ lastPlace (m <<< shift / k) place := by
  rcases long with long | least
  · have below : 2 ^ 52 * k ≤ m * 2 ^ shift := by
      calc
        2 ^ 52 * k ≤ 2 ^ 52 * 2 ^ (k.log2 + 1) := Nat.mul_le_mul_left _ Nat.lt_log2_self.le
        _ = 2 ^ (k.log2 + 53) := by rw [← Nat.pow_add]; congr 1; omega
        _ ≤ 2 ^ (m.log2 + shift) := Nat.pow_le_pow_right (by decide) long
        _ = 2 ^ m.log2 * 2 ^ shift := Nat.pow_add 2 _ _
        _ ≤ m * 2 ^ shift := Nat.mul_le_mul_right _ (Nat.log2_self_le pos.ne')
    have filled : 2 ^ 52 ≤ m <<< shift / k := by
      rw [Nat.shiftLeft_eq]
      exact (Nat.le_div_iff_mul_le pos').mpr below
    have digits := (Nat.le_log2 (by omega)).mpr filled
    simp only [lastPlace]
    omega
  · simp only [lastPlace]
    omega

theorem div_rounding {s t : Sign} (pos : 0 < m) (pos' : 0 < k) :
    Rounding (s / t) (m * 2 ^ e / (k * 2 ^ f))
      (UnpackedFloat.div Format.binary64 (.finite s m e pos) (.finite t k f pos')) := by
  let place := min (e - f) (Format.binary64.targetExponent (totalExponent m e - totalExponent k f))
  let shift := (e - f - place).toNat
  have target : Format.binary64.targetExponent (totalExponent m e - totalExponent k f) =
      max (m.log2 + e - k.log2 - f - 53) (-1074) := by
    simp only [Format.targetExponent, totalExponent, Format.mantissaBits, Format.minExponent]
    omega
  have exponent : e = f + place + shift := by omega
  have long : k.log2 + 53 ≤ m.log2 + shift ∨ place ≤ -1074 := by
    simp only [place, shift, target]
    omega
  refine ⟨m <<< shift / k, place, _, ?_, quotient_place pos pos' long, rfl⟩
  have some'' : (0 : ℚ) < k := by exact_mod_cast pos'
  have quotient : (m : ℚ) * 2 ^ e / (k * 2 ^ f) / 2 ^ place =
      (m <<< shift / k : Nat) + (m <<< shift % k : Nat) / k := by
    have whole : ((m <<< shift : Nat) : ℚ) =
        k * (m <<< shift / k : Nat) + (m <<< shift % k : Nat) := by
      exact_mod_cast (Nat.div_add_mod (m <<< shift) k).symm
    have shifted : ((m <<< shift : Nat) : ℚ) = m * 2 ^ shift := by
      rw [Nat.shiftLeft_eq]
      push_cast
      rfl
    rw [exponent, zpow_add₀ two_ne_zero, zpow_add₀ two_ne_zero, zpow_natCast]
    field_simp
    rw [← shifted, whole]
  rw [quotient]
  exact holds_fraction _ (Nat.mod_lt _ pos')

end Operations

theorem exists_rounding {q : ℚ} (pos : 0 < q) (s : Sign) : ∃ u, Rounding s q u := by
  have some' : 0 < q.num.toNat := by
    have := Rat.num_pos.mpr pos
    omega
  have quotient : q = q.num.toNat * 2 ^ (0 : ℤ) / (q.den * 2 ^ (0 : ℤ)) := by
    have whole : ((q.num.toNat : ℤ) : ℚ) = q.num := by
      rw [Int.toNat_of_nonneg (Rat.num_pos.mpr pos).le]
    rw [zpow_zero, mul_one, mul_one, ← Int.cast_natCast q.num.toNat, whole, Rat.num_div_den]
  have sign : s / .positive = s := by cases s <;> rfl
  have rounding := div_rounding (s := s) (t := .positive) (e := 0) (f := 0) some' q.den_pos
  rw [← quotient, sign] at rounding
  exact ⟨_, rounding⟩

namespace Correct

variable {s : Sign} {q : ℚ} {u u' : UnpackedFloat}

theorem of_within {m : Nat} {e : ℤ} (correct : Correct s q u) (pos : 0 < m)
    (canonical : Canonical m e) (within : Within m e q) : u = .finite s m e pos := by
  have above := within.unit_lt pos canonical.least
  cases correct with
  | zero small => exact absurd small above.not_ge
  | infinity large => exact absurd large (within.lt_limit canonical).not_ge
  | finite pos' canonical' within' =>
    have positive : 0 < q := lt_trans (by positivity) above
    obtain ⟨v, rounding⟩ := exists_rounding positive s
    exact (rounding.of_within canonical' pos' within').symm.trans
      (rounding.of_within canonical pos within)

theorem isInf_iff (correct : Correct s q u) : u.isInf ↔ limit ≤ q := by
  cases correct with
  | zero small =>
    have less : q < limit :=
      small.trans_lt ((zpow_lt_one_of_neg₀ one_lt_two (by decide)).trans one_lt_limit)
    exact ⟨nofun, fun large => absurd large less.not_ge⟩
  | finite pos canonical within =>
    exact ⟨nofun, fun large => absurd large (within.lt_limit canonical).not_ge⟩
  | infinity large => exact ⟨fun _ => large, fun _ => rfl⟩

theorem unique (first : Correct s q u) (second : Correct s q u') : u = u' := by
  cases second with
  | finite pos canonical within => exact first.of_within pos canonical within
  | zero small =>
    cases first with
    | zero _ => rfl
    | finite pos canonical within =>
      exact ((Correct.zero small).of_within pos canonical within).symm
    | infinity large => exact nomatch (Correct.zero (s := s) small).isInf_iff.mpr large
  | infinity large =>
    cases first with
    | zero small => exact nomatch (Correct.zero (s := s) small).isInf_iff.mpr large
    | finite pos canonical within =>
      exact ((Correct.infinity large).of_within pos canonical within).symm
    | infinity _ => rfl

theorem neg (correct : Correct .positive q u) : Correct .negative q (stored u.neg) := by
  cases correct with
  | zero small => exact stored_zero .negative ▸ .zero small
  | infinity large => exact stored_infinity .negative ▸ .infinity large
  | finite pos canonical within =>
    exact (stored_of_canonical .negative pos canonical).symm ▸ .finite pos canonical within

end Correct

theorem decoded_toFloat {n : Nat} (pos : 0 < n) (short : n < 2 ^ 53) :
    ∃ m e some', Canonical m e ∧ decoded n.toUInt64.toFloat = .finite .positive m e some' ∧
      (m : ℚ) * 2 ^ e = n := by
  have digits := (Nat.log2_lt pos.ne').mpr short
  have low := Nat.log2_self_le pos.ne'
  have high := Nat.lt_log2_self (n := n)
  have whole (a : Nat) : 2 ^ a * 2 ^ (52 - n.log2) = 2 ^ (a + (52 - n.log2)) :=
    (Nat.pow_add 2 _ _).symm
  have canonical : Canonical (n * 2 ^ (52 - n.log2)) (n.log2 - 52) := by
    refine ⟨?_, by omega, by omega, .inl ?_⟩
    · have less := Nat.mul_lt_mul_of_pos_right high (Nat.two_pow_pos (52 - n.log2))
      rw [whole] at less
      convert less using 2
      omega
    · have le := Nat.mul_le_mul_right (2 ^ (52 - n.log2)) low
      rw [whole] at le
      convert le using 2
      omega
  have exact' : ((n * 2 ^ (52 - n.log2) : Nat) : ℚ) * 2 ^ ((n.log2 : ℤ) - 52) = n := by
    have exponent : ((n.log2 : ℤ) - 52) = -((52 - n.log2 : Nat) : ℤ) := by omega
    rw [exponent, zpow_neg, zpow_natCast]
    push_cast
    field_simp
  have some' : 0 < n * 2 ^ (52 - n.log2) := Nat.mul_pos pos (Nat.two_pow_pos _)
  refine ⟨_, _, some', canonical, ?_, exact'⟩
  have within := within_self some' (n.log2 - 52)
  rw [exact', ← mul_one (n : ℚ), ← zpow_zero (2 : ℚ)] at within
  have bits : n.toUInt64.toNat = n := by
    rw [Nat.toUInt64_eq, UInt64.toNat_ofNat', Nat.mod_eq_of_lt (by omega)]
  have normal : UnpackedFloat.ofUInt64 Format.binary64 n.toUInt64 =
      UnpackedFloat.round Format.binary64 .positive n 0 := by
    rw [UnpackedFloat.ofUInt64, UnpackedFloat.ofNat, UnpackedFloat.ofInt, UnpackedFloat.normalize,
      bits, compare_gt_iff_gt.mpr (by omega)]
    rfl
  change stored (UnpackedFloat.ofUInt64 Format.binary64 n.toUInt64) = _
  rw [normal, (round_rounding pos 0).of_within canonical some' within]
  exact stored_of_canonical .positive some' canonical

theorem decoded_powerOfTen {k : Nat} (small : k < Float.exactlyRepresentablePowersOfTen.size) :
    ∃ m e some', Canonical m e ∧
      decoded Float.exactlyRepresentablePowersOfTen[k] = .finite .positive m e some' ∧
      (m : ℚ) * 2 ^ e = 10 ^ k := by
  have bits : ∀ k (small : k < Float.exactlyRepresentablePowersOfTen.size),
      Float.exactlyRepresentablePowersOfTen[k].toModel.toBits.toBitVec =
        UnpackedFloat.pack Format.binary64 (.finite .positive (5 ^ k * 2 ^ (52 - (5 ^ k).log2))
          (k + (5 ^ k).log2 - 52) (Nat.mul_pos (Nat.pow_pos (by decide)) (Nat.two_pow_pos _))) := by
    decide +kernel
  have canonical : ∀ k < 23, 2 ^ 52 ≤ 5 ^ k * 2 ^ (52 - (5 ^ k).log2) ∧
      5 ^ k * 2 ^ (52 - (5 ^ k).log2) < 2 ^ 53 ∧ (5 ^ k).log2 ≤ 52 := by
    decide +kernel
  obtain ⟨full, short, digits⟩ := canonical k small
  have range : k < 23 := small
  have some' : 0 < 5 ^ k * 2 ^ (52 - (5 ^ k).log2) := by omega
  have canonical : Canonical (5 ^ k * 2 ^ (52 - (5 ^ k).log2)) (k + (5 ^ k).log2 - 52) :=
    ⟨short, by omega, by omega, .inl full⟩
  refine ⟨_, _, some', canonical, ?_, ?_⟩
  · rw [← stored_of_canonical .positive some' canonical, stored_eq, ← bits k small]
    rfl
  · have exponent : ((k : ℤ) + (5 ^ k).log2 - 52) = k - ((52 - (5 ^ k).log2 : Nat) : ℤ) := by omega
    have ten : (10 : ℚ) = 5 * 2 := by norm_num
    rw [exponent, zpow_sub₀ two_ne_zero, zpow_natCast, zpow_natCast, ten, mul_pow]
    push_cast
    field_simp

section Decimals

variable {n : Nat} {k : ℤ}

theorem two_zpow_le_ten (nonneg : 0 ≤ k) : (2 : ℚ) ^ (3 * k) ≤ 10 ^ k := by
  rw [zpow_mul]
  exact zpow_le_zpow_left₀ nonneg (by norm_num) (by norm_num)

theorem limit_le_decimal (pos : 0 < n) (large : 1024 ≤ 3 * k) : limit ≤ n * 10 ^ k := by
  have whole : (1 : ℚ) ≤ n := by exact_mod_cast pos
  calc
    limit ≤ 2 ^ 53 * 2 ^ (971 : ℤ) := limit_le le_rfl (by norm_num)
    _ = 2 ^ (1024 : ℤ) := by
      rw [← zpow_natCast, ← zpow_add₀ two_ne_zero]
      norm_num
    _ ≤ 2 ^ (3 * k) := zpow_le_zpow_right₀ one_le_two large
    _ ≤ 10 ^ k := two_zpow_le_ten (by omega)
    _ ≤ n * 10 ^ k := le_mul_of_one_le_left (by positivity) whole

theorem decimal_le_unit (small : (n.log2 : ℤ) + 1 + 3 * k ≤ -1075) :
    (n : ℚ) * 10 ^ k ≤ 2 ^ (-1075 : ℤ) := by
  have digits : (n : ℚ) ≤ 2 ^ ((n.log2 : ℤ) + 1) := by
    exact_mod_cast (Nat.lt_log2_self (n := n)).le
  have tens : (10 : ℚ) ^ k ≤ 2 ^ (3 * k) := by
    obtain ⟨j, rfl⟩ : ∃ j : Nat, k = -j := ⟨k.natAbs, by omega⟩
    rw [zpow_mul, zpow_neg, zpow_neg, zpow_natCast, zpow_natCast]
    exact inv_anti₀ (by positivity) (pow_le_pow_left₀ (by norm_num) (by norm_num) j)
  calc
    (n : ℚ) * 10 ^ k ≤ 2 ^ ((n.log2 : ℤ) + 1) * 2 ^ (3 * k) :=
      mul_le_mul digits tens (by positivity) (by positivity)
    _ = 2 ^ ((n.log2 : ℤ) + 1 + 3 * k) := (zpow_add₀ two_ne_zero _ _).symm
    _ ≤ 2 ^ (-1075 : ℤ) := zpow_le_zpow_right₀ one_le_two small

theorem Within.digits_pos {m : Nat} {e : ℤ} (within : Within m e (n * 10 ^ k)) (some' : 0 < m)
    (least : -1074 ≤ e) : 0 < n := by
  rcases Nat.eq_zero_or_pos n with rfl | pos
  · have unit := within.unit_lt some' least
    rw [Nat.cast_zero, zero_mul] at unit
    exact absurd unit (not_lt.mpr (by positivity))
  · exact pos

theorem correct_ofScientific (pos : 0 < n) (k : ℤ) :
    Correct .positive (n * 10 ^ k) (stored (UnpackedFloat.ofScientific Format.binary64 n k)) := by
  have bits : Format.binary64.exponentBits = 11 := rfl
  rw [UnpackedFloat.ofScientific, dif_neg pos.ne', bits]
  split
  · exact stored_infinity .positive ▸ .infinity (limit_le_decimal pos (by omega))
  split
  · exact stored_zero .positive ▸ .zero (decimal_le_unit (by omega))
  apply Rounding.correct
  split
  · rename_i nonneg
    obtain ⟨j, rfl⟩ : ∃ j : Nat, k = j := ⟨k.toNat, by omega⟩
    have digits : Format.binary64.mantissaBits = 53 := rfl
    simp only [Int.toNat_natCast, digits]
    have longer : 0 < n <<< 53 := by
      rw [Nat.shiftLeft_eq]
      positivity
    have product : (n : ℚ) * (10 : ℚ) ^ (j : ℤ) =
        (n <<< 53 : Nat) * 2 ^ (-53 : ℤ) * ((10 ^ j : Nat) * 2 ^ (0 : ℤ)) := by
      rw [Nat.shiftLeft_eq, zpow_zero, mul_one, zpow_natCast, zpow_neg, zpow_ofNat]
      push_cast
      ring
    have place : -53 + 0 ≤ lastPlace (n <<< 53 * 10 ^ j) (-53 + 0) := by
      have long : 53 ≤ (n <<< 53 * 10 ^ j).log2 := by
        rw [Nat.le_log2 (Nat.mul_pos longer (by positivity)).ne', Nat.shiftLeft_eq]
        calc
          2 ^ 53 ≤ n * 2 ^ 53 := Nat.le_mul_of_pos_left _ pos
          _ ≤ n * 2 ^ 53 * 10 ^ j := Nat.le_mul_of_pos_right _ (by positivity)
      simp only [lastPlace]
      omega
    rw [product]
    exact mul_rounding longer (Nat.pow_pos (by decide)) place
  · rename_i negative
    obtain ⟨j, rfl⟩ : ∃ j : Nat, k = -j := ⟨(-k).toNat, by omega⟩
    have quotient : (n : ℚ) * (10 : ℚ) ^ (-(j : ℤ)) =
        n * 2 ^ (0 : ℤ) / ((10 ^ (- -(j : ℤ)).toNat : Nat) * 2 ^ (0 : ℤ)) := by
      rw [neg_neg, Int.toNat_natCast, zpow_zero, zpow_neg, zpow_natCast]
      push_cast
      rw [mul_one, mul_one, div_eq_mul_inv]
    rw [quotient]
    exact div_rounding pos _

/-- A decimal literal is correctly rounded. -/
theorem correct_literal (pos : 0 < n) (k : ℤ) :
    Correct .positive (n * 10 ^ k)
      (decoded (OfScientific.ofScientific n (k < 0) k.natAbs)) := by
  change Correct _ _ (decoded (Float.ofScientific n (k < 0) k.natAbs))
  rw [Float.ofScientific]
  split
  · rename_i short
    obtain ⟨a, f, pos', first, known, integer⟩ := decoded_toFloat pos short.1
    obtain ⟨b, g, pos'', second, knownToo, power⟩ :=
      decoded_powerOfTen (k := k.natAbs) (Nat.lt_succ_of_le short.2)
    have tens : (10 : ℚ) ^ k = if k < 0 then ((10 : ℚ) ^ k.natAbs)⁻¹ else 10 ^ k.natAbs := by
      split
      · rw [← zpow_natCast, ← zpow_neg]
        congr 1
        omega
      · rw [← zpow_natCast]
        congr 1
        omega
    rw [tens]
    by_cases negative : k < 0
    · rw [if_pos negative, if_pos (decide_eq_true negative), ← power, ← integer, ← div_eq_mul_inv]
      have quotient := (div_rounding (s := .positive) (t := .positive) (e := f) (f := g)
        pos' pos'').correct
      rw [← known, ← knownToo] at quotient
      exact quotient
    · rw [if_neg negative, if_neg (by simp [negative]), ← power, ← integer]
      have product := (mul_rounding (s := .positive) (t := .positive) pos' pos''
        (lastPlace_mul first second pos' pos'')).correct
      rw [← known, ← knownToo] at product
      exact product
  · have same :
        (if decide (k < 0) = true then Int.negOfNat k.natAbs else Int.ofNat k.natAbs) = k := by
      simp only [decide_eq_true_eq, Int.negOfNat_eq, Int.ofNat_eq_natCast]
      split <;> omega
    change Correct _ _ (stored (UnpackedFloat.ofScientific Format.binary64 n
      (if decide (k < 0) = true then Int.negOfNat k.natAbs else Int.ofNat k.natAbs)))
    rw [same]
    exact correct_ofScientific pos k

end Decimals

end RootFinding.Binary64
