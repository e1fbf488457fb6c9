import RootFinding.Proofs.Binary64.Value

namespace RootFinding.Binary64

open Float.Model Float.Model.UnpackedFloat

section Mantissa

theorem shiftRight_roundBit (m k : Nat) :
    2 * (m / 2 ^ (k + 1)) + ((ExtendedMantissa.mk m false false) >>> (k + 1)).roundBit.toNat =
      m / 2 ^ k := by
  have bit : ((ExtendedMantissa.mk m false false) >>> (k + 1)).roundBit =
      (((ExtendedMantissa.mk m false false) >>> k).mantissa % 2 != 0) := rfl
  have half : m / 2 ^ (k + 1) = m / 2 ^ k / 2 := by
    rw [Nat.div_div_eq_div_mul, Nat.pow_succ]
  rw [bit, shiftRight_mantissa, half]
  rcases Nat.mod_two_eq_zero_or_one (m / 2 ^ k) with even | odd
  · simp [even]
    omega
  · simp [odd]
    omega

theorem roundedMantissa_bounds (em : ExtendedMantissa) :
    em.mantissa ≤ em.roundedMantissa ∧ em.roundedMantissa ≤ em.mantissa + em.roundBit.toNat := by
  obtain ⟨q, round, sticky⟩ := em
  cases round <;> cases sticky <;>
    simp [ExtendedMantissa.roundedMantissa, ExtendedMantissa.accuracy,
      Accuracy.roundToNearestEven]
  omega

theorem le_roundedMantissa {m bound k : Nat} (le : bound * 2 ^ k ≤ m) :
    bound ≤ ((ExtendedMantissa.mk m false false) >>> k).roundedMantissa := by
  have whole : bound ≤ m / 2 ^ k := (Nat.le_div_iff_mul_le (Nat.two_pow_pos k)).mpr le
  have shifted : ((ExtendedMantissa.mk m false false) >>> k).mantissa = m / 2 ^ k :=
    shiftRight_mantissa _ k
  have above := (roundedMantissa_bounds ((ExtendedMantissa.mk m false false) >>> k)).1
  omega

theorem roundedMantissa_of_odd {em : ExtendedMantissa} (odd : em.mantissa % 2 = 1) :
    em.roundedMantissa = em.mantissa + em.roundBit.toNat := by
  obtain ⟨q, round, sticky⟩ := em
  cases round <;> cases sticky <;>
    simp_all [ExtendedMantissa.roundedMantissa, ExtendedMantissa.accuracy,
      Accuracy.roundToNearestEven]

theorem roundedMantissa_lt_iff {m k : Nat} (short : m < 2 ^ 53 * 2 ^ k) :
    ((ExtendedMantissa.mk m false false) >>> k).roundedMantissa < 2 ^ 53 ↔
      2 * m < (2 ^ 54 - 1) * 2 ^ k := by
  cases k with
  | zero =>
    have same : ((ExtendedMantissa.mk m false false) >>> 0).roundedMantissa = m := rfl
    rw [same]
    omega
  | succ k =>
    have shifted : ((ExtendedMantissa.mk m false false) >>> (k + 1)).mantissa = m / 2 ^ (k + 1) :=
      shiftRight_mantissa _ (k + 1)
    have halves := shiftRight_roundBit m k
    have bounds := roundedMantissa_bounds ((ExtendedMantissa.mk m false false) >>> (k + 1))
    have odd := @roundedMantissa_of_odd ((ExtendedMantissa.mk m false false) >>> (k + 1))
    have quotient : m / 2 ^ (k + 1) < 2 ^ 53 :=
      (Nat.div_lt_iff_lt_mul (Nat.two_pow_pos _)).mpr short
    have bit := Bool.toNat_le ((ExtendedMantissa.mk m false false) >>> (k + 1)).roundBit
    rw [shifted] at bounds odd
    have threshold : 2 * m < (2 ^ 54 - 1) * 2 ^ (k + 1) ↔ m / 2 ^ k < 2 ^ 54 - 1 := by
      rw [Nat.div_lt_iff_lt_mul (Nat.two_pow_pos k), Nat.pow_succ]
      omega
    rw [threshold, ← halves]
    -- Only the largest quotient can be rounded up so far, and it is odd.
    by_cases largest : m / 2 ^ (k + 1) = 2 ^ 53 - 1
    · rw [odd (by omega)]
      omega
    · omega

end Mantissa

def lastPlace (m : Nat) (f : ℤ) : ℤ := max (f + m.log2 - 52) (-1074)

theorem targetExponent_eq (m : Nat) (f : ℤ) :
    Format.binary64.targetExponent (totalExponent m f) = lastPlace m f := by
  simp only [Format.targetExponent, totalExponent, Format.mantissaBits, Format.minExponent,
    lastPlace]
  omega

theorem lastPlace_bounds {m : Nat} {f : ℤ} (pos : 0 < m) (le : f ≤ lastPlace m f) :
    m < 2 ^ 53 * 2 ^ (lastPlace m f - f).toNat ∧
      (2 ^ 52 * 2 ^ (lastPlace m f - f).toNat ≤ m ∨ lastPlace m f = -1074) := by
  have above : m < 2 ^ (m.log2 + 1) := Nat.lt_log2_self
  have below : 2 ^ m.log2 ≤ m := Nat.log2_self_le pos.ne'
  constructor
  · have long : m.log2 + 1 ≤ 53 + (lastPlace m f - f).toNat := by
      simp only [lastPlace]
      omega
    rw [← Nat.pow_add]
    exact Nat.lt_of_lt_of_le above (Nat.pow_le_pow_right (by decide) long)
  · by_cases least : lastPlace m f = -1074
    · exact .inr least
    · have same : 52 + (lastPlace m f - f).toNat = m.log2 := by
        simp only [lastPlace] at le least ⊢
        omega
      rw [← Nat.pow_add, same]
      exact .inl below

/-- A rounded mantissa with its exponent; one that has grown by a bit is halved. -/
def carried (s : Sign) (r : Nat) (e : ℤ) : UnpackedFloat :=
  if zero : r = 0 then .zero s
  else if r = 2 ^ 53 then .finite s (2 ^ 52) (e + 1) (by decide)
  else .finite s r e (Nat.pos_of_ne_zero zero)

def assembled (s : Sign) (p : ExtendedMantissa × ℤ) : UnpackedFloat :=
  if zero : p.1.mantissa = 0 then .zero s
  else .finite s p.1.mantissa p.2 (Nat.pos_of_ne_zero zero)

theorem assembled_shift (s : Sign) {r : Nat} {e : ℤ} (bound : r ≤ 2 ^ 53) (least : -1074 ≤ e) :
    assembled s (shiftToTargetExponent Format.binary64 r e .exact) = carried s r e := by
  simp only [shiftToTargetExponent, shiftToExponent, targetExponent_eq]
  rw [carried]
  by_cases grown : r = 2 ^ 53
  · have digits : (2 ^ 53 : Nat).log2 = 53 := by decide
    have next : lastPlace (2 ^ 53) e = e + 1 := by
      rw [lastPlace, digits]
      omega
    have one : (e + 1 - e).toNat = 1 := by omega
    subst grown
    rw [next, one]
    rfl
  · have digits : r.log2 ≤ 52 := by
      rcases Nat.eq_zero_or_pos r with rfl | some'
      · decide
      · have := (Nat.log2_lt some'.ne').mpr (show r < 2 ^ 53 by omega)
        omega
    have stays : (lastPlace r e - e).toNat = 0 := by
      simp only [lastPlace]
      omega
    rw [stays, Nat.cast_zero, add_zero]
    simp only [if_neg grown]
    rfl

theorem roundWithAccuracy_eq_carried (s : Sign) {m : Nat} {f : ℤ} (pos : 0 < m)
    (le : f ≤ lastPlace m f) :
    roundWithAccuracy Format.binary64 s m f .exact =
      carried s ((ExtendedMantissa.mk m false false) >>> (lastPlace m f - f).toNat).roundedMantissa
        (lastPlace m f) := by
  have least : -1074 ≤ lastPlace m f := le_max_right _ _
  have bound := roundedMantissa_le (lastPlace_bounds pos le).1.le
  have place : f + ((lastPlace m f - f).toNat : ℤ) = lastPlace m f := by omega
  rw [← assembled_shift s bound least]
  have first : shiftToTargetExponent Format.binary64 m f .exact =
      ((ExtendedMantissa.mk m false false) >>> (lastPlace m f - f).toNat, lastPlace m f) := by
    simp only [shiftToTargetExponent, shiftToExponent, targetExponent_eq, place]
    rfl
  rw [roundWithAccuracy, first]
  rfl

theorem abs_value (s : Sign) {m : Nat} {e : ℤ} (pos : 0 < m) :
    |value (.finite s m e pos)| = m * 2 ^ e := by
  have positive : (0 : ℚ) ≤ m * 2 ^ e := by positivity
  cases s with
  | negative => simp only [value, Sign.apply, Int.cast_neg, neg_mul, abs_neg, Int.cast_natCast,
      abs_of_nonneg positive]
  | positive => simp only [value, Sign.apply, Int.cast_natCast, abs_of_nonneg positive]

theorem stored_carried (s : Sign) {r : Nat} {e : ℤ} (le : r ≤ 2 ^ 53) (least : -1074 ≤ e)
    (full : 2 ^ 52 ≤ r ∨ e = -1074) :
    if e ≤ 970 ∨ e = 971 ∧ r < 2 ^ 53 then
      (stored (carried s r e)).isFinite ∧ |value (stored (carried s r e))| = r * 2 ^ e
    else stored (carried s r e) = .infinity s := by
  rw [carried]
  by_cases zero : r = 0
  · subst zero
    rw [if_pos (by omega), dif_pos rfl, stored_zero]
    exact ⟨rfl, by simp [value]⟩
  rw [dif_neg zero]
  by_cases grown : r = 2 ^ 53
  · subst grown
    rw [if_pos rfl]
    split
    · have canonical : Canonical (2 ^ 52) (e + 1) := ⟨by decide, by omega, by omega, .inl le_rfl⟩
      rw [stored_of_canonical s _ canonical]
      refine ⟨rfl, ?_⟩
      rw [abs_value, zpow_add_one₀ two_ne_zero]
      push_cast
      ring
    · exact stored_of_large s _ (by omega)
  · rw [if_neg grown]
    split
    · have canonical : Canonical r e := ⟨by omega, least, by omega, full⟩
      rw [stored_of_canonical s _ canonical]
      exact ⟨rfl, abs_value s _⟩
    · exact stored_of_large s _ (by omega)

/-- Half a step above the largest number. -/
def limit : ℚ := (2 ^ 54 - 1) * 2 ^ 970

/-- What a number of this sign and magnitude is rounded to. -/
structure Nearest (s : Sign) (q : ℚ) (u : UnpackedFloat) : Prop where
  sign : sign? u = some s
  isFinite : u.isFinite ↔ q < limit
  atMost : ∀ (c : Nat) (g : ℤ), c ≤ 2 ^ 53 → -1074 ≤ g → q ≤ c * 2 ^ g → u.isFinite →
    |value u| ≤ c * 2 ^ g
  atLeast : ∀ (c : Nat) (g : ℤ), c ≤ 2 ^ 53 → -1074 ≤ g → c * 2 ^ g ≤ q → u.isFinite →
    c * 2 ^ g ≤ |value u|

theorem two_zpow_add (f : ℤ) (k : Nat) : (2 : ℚ) ^ (f + k) = 2 ^ k * 2 ^ f := by
  rw [zpow_add₀ two_ne_zero, zpow_natCast, mul_comm]

theorem natCast_mul_zpow_le {a b k : Nat} {f : ℤ} :
    (a : ℚ) * 2 ^ f ≤ b * 2 ^ (f + k) ↔ a ≤ b * 2 ^ k := by
  have unit : (0 : ℚ) < 2 ^ f := by positivity
  rw [two_zpow_add, ← mul_assoc, mul_le_mul_iff_of_pos_right unit]
  exact_mod_cast Iff.rfl

theorem le_natCast_mul_zpow {a b k : Nat} {f : ℤ} :
    (b : ℚ) * 2 ^ (f + k) ≤ a * 2 ^ f ↔ b * 2 ^ k ≤ a := by
  have unit : (0 : ℚ) < 2 ^ f := by positivity
  rw [two_zpow_add, ← mul_assoc, mul_le_mul_iff_of_pos_right unit]
  exact_mod_cast Iff.rfl

theorem short_le {c : Nat} {g e : ℤ} (short : c ≤ 2 ^ 53) (less : g < e) :
    (c : ℚ) * 2 ^ g ≤ 2 ^ 52 * 2 ^ e := by
  have small : (c : ℚ) ≤ 2 ^ 53 := by exact_mod_cast short
  have wider : (2 : ℚ) ^ (g + 1) ≤ 2 ^ e := zpow_le_zpow_right₀ one_le_two (by omega)
  calc
    (c : ℚ) * 2 ^ g ≤ 2 ^ 53 * 2 ^ g := mul_le_mul_of_nonneg_right small (by positivity)
    _ = 2 ^ 52 * 2 ^ (g + 1) := by
      rw [zpow_add_one₀ two_ne_zero]
      ring
    _ ≤ 2 ^ 52 * 2 ^ e := mul_le_mul_of_nonneg_left wider (by positivity)

theorem fits_iff_lt_limit {m k : Nat} {e f : ℤ} (place : e = f + k) (short : m < 2 ^ 53 * 2 ^ k)
    (full : 2 ^ 52 * 2 ^ k ≤ m ∨ e = -1074) :
    (e ≤ 970 ∨ e = 971 ∧ 2 * m < (2 ^ 54 - 1) * 2 ^ k) ↔ (m : ℚ) * 2 ^ f < limit := by
  have unit : (0 : ℚ) < 2 ^ f := by positivity
  have scale : (2 : ℚ) ^ e = 2 ^ k * 2 ^ f := by rw [place, two_zpow_add]
  rcases lt_trichotomy e 971 with low | last | high
  · have below : (m : ℚ) < 2 ^ 53 * 2 ^ k := by exact_mod_cast short
    have lower : (2 : ℚ) ^ e ≤ 2 ^ (970 : ℤ) := zpow_le_zpow_right₀ one_le_two (by omega)
    have small : (m : ℚ) * 2 ^ f < limit := by
      calc
        (m : ℚ) * 2 ^ f < 2 ^ 53 * 2 ^ k * 2 ^ f := mul_lt_mul_of_pos_right below unit
        _ = 2 ^ 53 * 2 ^ e := by rw [scale, mul_assoc]
        _ ≤ 2 ^ 53 * 2 ^ (970 : ℤ) := mul_le_mul_of_nonneg_left lower (by positivity)
        _ ≤ limit := by norm_num [limit]
    exact ⟨fun _ => small, fun _ => .inl (by omega)⟩
  · have top : (2 : ℚ) ^ 971 = 2 ^ k * 2 ^ f := by
      rw [← scale, last]
      rfl
    have threshold : limit = ((2 ^ 54 - 1) * 2 ^ k : ℚ) / 2 * 2 ^ f := by
      have half : (2 : ℚ) ^ 970 = 2 ^ 971 / 2 := by
        rw [pow_succ (2 : ℚ) 970, mul_div_cancel_right₀ _ two_ne_zero]
      rw [limit, half, top]
      ring
    have cast : 2 * m < (2 ^ 54 - 1) * 2 ^ k ↔ (2 : ℚ) * m < (2 ^ 54 - 1) * 2 ^ k := by
      norm_num
      exact_mod_cast Iff.rfl
    rw [threshold, mul_lt_mul_iff_of_pos_right unit, lt_div_iff₀ two_pos, mul_comm (m : ℚ), cast]
    constructor
    · rintro (low | ⟨_, small⟩)
      · omega
      · exact small
    · exact fun small => .inr ⟨last, small⟩
  · have filled : 2 ^ 52 * 2 ^ k ≤ m := full.resolve_right (by omega)
    have above : (2 : ℚ) ^ 52 * 2 ^ k ≤ m := by exact_mod_cast filled
    have higher : (2 : ℚ) ^ (972 : ℤ) ≤ 2 ^ e := zpow_le_zpow_right₀ one_le_two (by omega)
    have large : limit ≤ (m : ℚ) * 2 ^ f := by
      calc
        limit ≤ 2 ^ 54 * 2 ^ 970 := mul_le_mul_of_nonneg_right (by norm_num) (by positivity)
        _ = 2 ^ 52 * 2 ^ (972 : ℤ) := by rw [zpow_ofNat, ← pow_add, ← pow_add]
        _ ≤ 2 ^ 52 * 2 ^ e := mul_le_mul_of_nonneg_left higher (by positivity)
        _ = 2 ^ 52 * 2 ^ k * 2 ^ f := by rw [scale, mul_assoc]
        _ ≤ (m : ℚ) * 2 ^ f := mul_le_mul_of_nonneg_right above unit.le
    exact ⟨fun fits => by omega, fun less => absurd less large.not_gt⟩

/-- A count of units that no other one separates from a number, which takes all bits unless the unit
is the least. -/
structure Adjacent (q : ℚ) (r : Nat) (e : ℤ) : Prop where
  atMost : ∀ b : Nat, q ≤ b * 2 ^ e → r ≤ b
  atLeast : ∀ b : Nat, b * 2 ^ e ≤ q → b ≤ r
  full : 2 ^ 52 * 2 ^ e ≤ q ∨ e = -1074

theorem adjacent_roundedMantissa {m k : Nat} {e f : ℤ} (place : e = f + k)
    (full : 2 ^ 52 * 2 ^ k ≤ m ∨ e = -1074) :
    Adjacent (m * 2 ^ f) ((ExtendedMantissa.mk m false false) >>> k).roundedMantissa e := by
  subst place
  refine ⟨fun b bound => ?_, fun b bound => ?_, full.imp_left fun filled => ?_⟩
  · exact roundedMantissa_le (natCast_mul_zpow_le.mp bound)
  · exact le_roundedMantissa (le_natCast_mul_zpow.mp bound)
  · exact_mod_cast le_natCast_mul_zpow.mpr filled

namespace Adjacent

variable {q : ℚ} {r c : Nat} {e g : ℤ}

theorem long (adjacent : Adjacent q r e) : 2 ^ 52 ≤ r ∨ e = -1074 :=
  adjacent.full.imp_left fun filled => adjacent.atLeast (2 ^ 52) (by exact_mod_cast filled)

theorem mul_le (adjacent : Adjacent q r e) (narrow : c ≤ 2 ^ 53) (least : -1074 ≤ g)
    (bound : q ≤ c * 2 ^ g) : (r : ℚ) * 2 ^ e ≤ c * 2 ^ g := by
  rcases le_or_gt e g with order | less
  · obtain ⟨k, rfl⟩ := Int.le.dest order
    rw [two_zpow_add, ← mul_assoc] at bound ⊢
    have rounded : (r : ℚ) ≤ (c * 2 ^ k : Nat) := by
      exact_mod_cast adjacent.atMost (c * 2 ^ k) (by exact_mod_cast bound)
    push_cast at rounded
    exact mul_le_mul_of_nonneg_right rounded (by positivity)
  · have filled := adjacent.full.resolve_right (by omega)
    have rounded : r ≤ 2 ^ 52 := adjacent.atMost (2 ^ 52) <| by
      exact_mod_cast bound.trans (short_le narrow less)
    have short : (r : ℚ) ≤ 2 ^ 52 := by exact_mod_cast rounded
    calc
      (r : ℚ) * 2 ^ e ≤ 2 ^ 52 * 2 ^ e := mul_le_mul_of_nonneg_right short (by positivity)
      _ ≤ q := filled
      _ ≤ c * 2 ^ g := bound

theorem le_mul (adjacent : Adjacent q r e) (narrow : c ≤ 2 ^ 53) (least : -1074 ≤ g)
    (bound : c * 2 ^ g ≤ q) : (c : ℚ) * 2 ^ g ≤ r * 2 ^ e := by
  rcases le_or_gt e g with order | less
  · obtain ⟨k, rfl⟩ := Int.le.dest order
    rw [two_zpow_add, ← mul_assoc] at bound ⊢
    have rounded : ((c * 2 ^ k : Nat) : ℚ) ≤ r := by
      exact_mod_cast adjacent.atLeast (c * 2 ^ k) (by exact_mod_cast bound)
    push_cast at rounded
    exact mul_le_mul_of_nonneg_right rounded (by positivity)
  · have long : (2 : ℚ) ^ 52 ≤ r := by exact_mod_cast adjacent.long.resolve_right (by omega)
    exact (short_le narrow less).trans (mul_le_mul_of_nonneg_right long (by positivity))

end Adjacent

theorem nearest_roundWithAccuracy (s : Sign) {m : Nat} {f : ℤ} (pos : 0 < m)
    (le : f ≤ lastPlace m f) :
    Nearest s (m * 2 ^ f) (stored (roundWithAccuracy Format.binary64 s m f .exact)) := by
  obtain ⟨short, full⟩ := lastPlace_bounds pos le
  have sign : sign? (stored (roundWithAccuracy Format.binary64 s m f .exact)) = some s := by
    rw [sign?_stored, sign?_roundWithAccuracy]
  have least : -1074 ≤ lastPlace m f := le_max_right _ _
  have place : lastPlace m f = f + ((lastPlace m f - f).toNat : ℤ) := by omega
  rw [roundWithAccuracy_eq_carried s pos le] at sign ⊢
  generalize lastPlace m f = e at *
  generalize (e - f).toNat = k at *
  have adjacent := adjacent_roundedMantissa place full
  have most := roundedMantissa_le short.le
  have fits := fits_iff_lt_limit place short full
  rw [← roundedMantissa_lt_iff short] at fits
  generalize ((ExtendedMantissa.mk m false false) >>> k).roundedMantissa = r at *
  have outcome := stored_carried s most least adjacent.long
  split at outcome
  · rename_i inside
    obtain ⟨finite, magnitude⟩ := outcome
    refine ⟨sign, iff_of_true finite (fits.mp inside), fun c g narrow lowest bound _ => ?_,
      fun c g narrow lowest bound _ => ?_⟩
    · rw [magnitude]
      exact adjacent.mul_le narrow lowest bound
    · rw [magnitude]
      exact adjacent.le_mul narrow lowest bound
  · rename_i outside
    have infinite : ¬ (stored (carried s r e)).isFinite := by
      rw [outcome]
      exact Bool.false_ne_true
    exact ⟨sign, iff_of_false infinite fun less => outside (fits.mpr less),
      fun _ _ _ _ _ finite => absurd finite infinite,
      fun _ _ _ _ _ finite => absurd finite infinite⟩

theorem log2_mul_two_pow {m : Nat} (pos : 0 < m) (k : Nat) : (m * 2 ^ k).log2 = m.log2 + k := by
  have below : 2 ^ m.log2 ≤ m := Nat.log2_self_le pos.ne'
  have above : m < 2 ^ (m.log2 + 1) := Nat.lt_log2_self
  refine log2_eq ?_ ?_
  · rw [Nat.pow_add]
    exact Nat.mul_le_mul_right _ below
  · rw [Nat.add_right_comm, Nat.pow_add]
    exact Nat.mul_lt_mul_of_pos_right above (Nat.two_pow_pos k)

theorem round_eq_roundWithAccuracy (s : Sign) (m : Nat) (f : ℤ) :
    UnpackedFloat.round Format.binary64 s m f =
      roundWithAccuracy Format.binary64 s (m * 2 ^ (f - lastPlace m f).toNat)
        (f - (f - lastPlace m f).toNat) .exact := by
  simp only [UnpackedFloat.round, decreaseExponent, targetExponent_eq, Nat.shiftLeft_eq]

theorem nearest_round (s : Sign) {m : Nat} (pos : 0 < m) (f : ℤ) :
    Nearest s (m * 2 ^ f) (stored (UnpackedFloat.round Format.binary64 s m f)) := by
  let shift := (f - lastPlace m f).toNat
  have longer : 0 < m * 2 ^ shift := Nat.mul_pos pos (Nat.two_pow_pos shift)
  have same : lastPlace (m * 2 ^ shift) (f - shift) = lastPlace m f := by
    simp only [lastPlace, log2_mul_two_pow pos]
    omega
  have below : f - shift ≤ lastPlace (m * 2 ^ shift) (f - shift) := by
    rw [same]
    omega
  have exact' : ((m * 2 ^ shift : Nat) : ℚ) * 2 ^ (f - shift) = m * 2 ^ f := by
    have back : f - shift + shift = f := by omega
    have scale := two_zpow_add (f - shift) shift
    rw [back] at scale
    rw [scale]
    push_cast
    ring
  rw [round_eq_roundWithAccuracy, ← exact']
  exact nearest_roundWithAccuracy s longer below

theorem nearest_normalize {m : ℤ} (nonzero : m ≠ 0) (f : ℤ) (zeroSign : Sign) :
    Nearest (if m < 0 then .negative else .positive) |(m : ℚ) * 2 ^ f|
      (stored (UnpackedFloat.normalize Format.binary64 m f zeroSign)) := by
  have unit : |(2 : ℚ) ^ f| = 2 ^ f := abs_of_pos (by positivity)
  rcases lt_or_gt_of_ne nonzero with negative | positive
  · have magnitude : |(m : ℚ)| = ((-m).toNat : ℚ) := by
      have cast : ((-m).toNat : ℤ) = -m := Int.toNat_of_nonneg (by omega)
      have below : (m : ℚ) < 0 := by exact_mod_cast negative
      rw [abs_of_neg below]
      exact_mod_cast cast.symm
    have normal : UnpackedFloat.normalize Format.binary64 m f zeroSign =
        UnpackedFloat.round Format.binary64 .negative (-m).toNat f := by
      rw [UnpackedFloat.normalize, compare_lt_iff_lt.mpr negative]
    rw [if_pos negative, abs_mul, unit, magnitude, normal]
    exact nearest_round .negative (by omega) f
  · have magnitude : |(m : ℚ)| = (m.toNat : ℚ) := by
      have cast : (m.toNat : ℤ) = m := Int.toNat_of_nonneg (by omega)
      have above : (0 : ℚ) < m := by exact_mod_cast positive
      rw [abs_of_pos above]
      exact_mod_cast cast.symm
    have normal : UnpackedFloat.normalize Format.binary64 m f zeroSign =
        UnpackedFloat.round Format.binary64 .positive m.toNat f := by
      rw [UnpackedFloat.normalize, compare_gt_iff_gt.mpr positive]
    rw [if_neg (by omega), abs_mul, unit, magnitude, normal]
    exact nearest_round .positive (by omega) f

end RootFinding.Binary64
