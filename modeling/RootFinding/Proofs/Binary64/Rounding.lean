import RootFinding.Proofs.Binary64.Sign

namespace RootFinding.Binary64

open Float.Model Float.Model.UnpackedFloat

theorem shiftRight_mantissa (em : ExtendedMantissa) (k : Nat) :
    (em >>> k).mantissa = em.mantissa / 2 ^ k := by
  induction k with
  | zero => simp [HShiftRight.hShiftRight, Nat.repeat]
  | succ k ih =>
    change (em >>> k).mantissa / 2 = _
    rw [ih, Nat.div_div_eq_div_mul, Nat.pow_succ]

theorem shiftRight_residue (m k : Nat)
    (bits : ((ExtendedMantissa.mk m false false) >>> k).roundBit ∨
      ((ExtendedMantissa.mk m false false) >>> k).stickyBit) : m / 2 ^ k * 2 ^ k < m := by
  induction k with
  | zero => simp [HShiftRight.hShiftRight, Nat.repeat] at bits
  | succ k ih =>
    have halved : m / 2 ^ (k + 1) = m / 2 ^ k / 2 := by
      rw [Nat.div_div_eq_div_mul, Nat.pow_succ]
    have low : m / 2 ^ k * 2 ^ k ≤ m := Nat.div_mul_le_self m _
    change (((ExtendedMantissa.mk m false false) >>> k).mantissa % 2 != 0) = true ∨
      (((ExtendedMantissa.mk m false false) >>> k).roundBit ||
        ((ExtendedMantissa.mk m false false) >>> k).stickyBit) = true at bits
    rw [shiftRight_mantissa, bne_iff_ne, Bool.or_eq_true] at bits
    rw [halved, Nat.pow_succ, ← Nat.mul_assoc, Nat.mul_right_comm]
    rcases bits with odd | older
    · calc
        m / 2 ^ k / 2 * 2 * 2 ^ k < m / 2 ^ k * 2 ^ k :=
          Nat.mul_lt_mul_of_pos_right (by dsimp only at odd; omega) (Nat.two_pow_pos k)
        _ ≤ m := low
    · calc
        m / 2 ^ k / 2 * 2 * 2 ^ k ≤ m / 2 ^ k * 2 ^ k :=
          Nat.mul_le_mul_right _ (Nat.div_mul_le_self _ 2)
        _ < m := ih older

theorem roundedMantissa_le {m bound k : Nat} (le : m ≤ bound * 2 ^ k) :
    ((ExtendedMantissa.mk m false false) >>> k).roundedMantissa ≤ bound := by
  have shifted : ((ExtendedMantissa.mk m false false) >>> k).mantissa = m / 2 ^ k :=
    shiftRight_mantissa _ k
  have whole : m / 2 ^ k ≤ bound := Nat.div_le_of_le_mul (by rwa [Nat.mul_comm])
  have residue := shiftRight_residue m k
  generalize (ExtendedMantissa.mk m false false) >>> k = em at shifted residue ⊢
  obtain ⟨q, round, sticky⟩ := em
  dsimp only at shifted residue
  subst shifted
  -- Only a mantissa with bits left over is rounded up, and that one is below the bound.
  have partial' (bits : round = true ∨ sticky = true) : m / 2 ^ k < bound :=
    Nat.lt_of_mul_lt_mul_right (Nat.lt_of_lt_of_le (residue bits) le)
  cases round <;> cases sticky <;>
    simp only [ExtendedMantissa.roundedMantissa, ExtendedMantissa.accuracy,
      Accuracy.roundToNearestEven]
  · exact whole
  · exact whole
  · have := partial' (.inl rfl)
    omega
  · exact partial' (.inl rfl)

def ExponentAtMost (e : ℤ) : UnpackedFloat → Prop
  | .zero _ => True
  | .finite _ _ g _ => g ≤ e
  | .infinity _ | .notANumber => False

theorem targetExponent_le {m bound : Nat} {e f : ℤ} (small : bound < 2 ^ 53)
    (le : m ≤ bound * 2 ^ (e - f).toNat) (order : f ≤ e) (least : -1074 ≤ e) :
    Format.binary64.targetExponent (totalExponent m f) ≤ e := by
  have digits : m.log2 ≤ 52 + (e - f).toNat := by
    by_cases zero : m = 0
    · rw [zero, Nat.log2_zero]
      omega
    · have below : m < 2 ^ (53 + (e - f).toNat) := by
        rw [Nat.pow_add]
        exact Nat.lt_of_le_of_lt le (Nat.mul_lt_mul_of_pos_right small (Nat.two_pow_pos _))
      have := (Nat.log2_lt zero).mpr below
      omega
  simp only [Format.targetExponent, totalExponent, Format.mantissaBits, Format.minExponent]
  omega

theorem roundWithAccuracy_exponent {m bound : Nat} {e f : ℤ} (s : Sign) (small : bound < 2 ^ 53)
    (le : m ≤ bound * 2 ^ (e - f).toNat) (order : f ≤ e) (least : -1074 ≤ e) :
    ExponentAtMost e (roundWithAccuracy Format.binary64 s m f .exact) := by
  have target := targetExponent_le small le order least
  let shift := (Format.binary64.targetExponent (totalExponent m f) - f).toNat
  have rounded : ((ExtendedMantissa.mk m false false) >>> shift).roundedMantissa ≤
      bound * 2 ^ (e - (f + shift)).toNat := by
    refine roundedMantissa_le (le.trans (Nat.le_of_eq ?_))
    rw [Nat.mul_assoc, ← Nat.pow_add]
    congr 2
    omega
  let again := Format.binary64.targetExponent
    (totalExponent ((ExtendedMantissa.mk m false false) >>> shift).roundedMantissa (f + shift))
  have second : again ≤ e := targetExponent_le small rounded (by omega) least
  simp only [roundWithAccuracy]
  split
  · trivial
  · change f + (shift : ℤ) + ((again - (f + shift)).toNat : ℤ) ≤ e
    omega

theorem round_exponent {m bound : Nat} {e f : ℤ} (s : Sign) (small : bound < 2 ^ 53)
    (le : m ≤ bound * 2 ^ (e - f).toNat) (order : f ≤ e) (least : -1074 ≤ e) :
    ExponentAtMost e (UnpackedFloat.round Format.binary64 s m f) := by
  let shift := (f - Format.binary64.targetExponent (totalExponent m f)).toNat
  simp only [UnpackedFloat.round, decreaseExponent]
  refine roundWithAccuracy_exponent s small ?_ (by omega) least
  calc
    m <<< shift = m * 2 ^ shift := Nat.shiftLeft_eq m shift
    _ ≤ bound * 2 ^ (e - f).toNat * 2 ^ shift := Nat.mul_le_mul_right _ le
    _ = bound * 2 ^ (e - (f - shift)).toNat := by
      rw [Nat.mul_assoc, ← Nat.pow_add]
      congr 2
      omega

theorem decoded_finite {x : Float} {s : Sign} {m : Nat} {e : ℤ} {pos : 0 < m}
    (known : decoded x = .finite s m e pos) : m < 2 ^ 53 ∧ -1074 ≤ e ∧ e ≤ 971 := by
  simp only [decoded, Float.Model.unpack, UnpackedFloat.unpack] at known
  have exponent := (@unpackExponent Format.binary64 x.toModel.toBits.toBitVec).isLt
  have mantissa := (@unpackMantissa Format.binary64 x.toModel.toBits.toBitVec).isLt
  change _ < 2 ^ 11 at exponent
  change _ < 2 ^ 52 at mantissa
  have bias : (Format.binary64.exponentBias : ℤ) = 1023 := rfl
  split at known
  · split at known <;> cases known
  · rename_i large
    split at known
    · rename_i least
      split at known
      · cases known
      · cases known
        rw [least, bias]
        exact ⟨by omega, by decide, by decide⟩
    · rename_i normal
      cases known
      have full := fun h => large (BitVec.eq_of_toNat_eq h)
      have zero := fun h => normal (BitVec.eq_of_toNat_eq h)
      change _ ≠ 2047 at full
      change _ ≠ 0 at zero
      rw [bias]
      exact ⟨(1#1 ++ @unpackMantissa Format.binary64 x.toModel.toBits.toBitVec).isLt, by omega,
        by omega⟩

theorem isFinite_packComponents (s : Sign) {e : BitVec 11} (m : BitVec 52) (small : e ≠ -1#11) :
    (UnpackedFloat.unpack Format.binary64 (packComponents Format.binary64 s e m)).isFinite := by
  rw [unpack_packComponents, if_neg small]
  split
  · split <;> rfl
  · rfl

theorem isFinite_stored {u : UnpackedFloat} {e : ℤ} (bound : ExponentAtMost e u) (fits : e ≤ 971) :
    (stored u).isFinite := by
  cases u with
  | infinity s => cases bound
  | notANumber => cases bound
  | zero s =>
    rw [stored_zero]
    rfl
  | finite s m g pos =>
    change g ≤ e at bound
    rw [stored_eq]
    simp only [UnpackedFloat.pack]
    split
    · rename_i overflows
      have bias : (Format.binary64.exponentBias : ℤ) = 1023 := rfl
      rw [bias] at overflows
      omega
    · rename_i small
      split
      · exact isFinite_packComponents s _ (biased_ne small)
      · exact isFinite_packComponents s _ (by decide)

theorem normalize_exponent {a b p q : Nat} {e f g : ℤ} (small : p < 2 ^ 53) (smallToo : q < 2 ^ 53)
    (hp : a ≤ p * 2 ^ (e - g).toNat) (hq : b ≤ q * 2 ^ (f - g).toNat) (he : g ≤ e) (hf : g ≤ f)
    (least : -1074 ≤ e) (leastToo : -1074 ≤ f) :
    ExponentAtMost (max e f)
      (UnpackedFloat.normalize Format.binary64 ((a : ℤ) - b) g .positive) := by
  have widen {h : ℤ} (u : UnpackedFloat) (le : h ≤ max e f) (known : ExponentAtMost h u) :
      ExponentAtMost (max e f) u := by
    cases u with
    | zero s => trivial
    | finite s m k pos => exact Int.le_trans known le
    | infinity s | notANumber => cases known
  simp only [UnpackedFloat.normalize]
  split
  · exact widen _ (le_max_right e f) (round_exponent _ smallToo (by omega) hf leastToo)
  · trivial
  · exact widen _ (le_max_left e f) (round_exponent _ small (by omega) he least)

theorem isFinite_sub {x y : Float} (hx : NotNegative x) (hy : NotNegative y)
    (fx : x.isFinite) (fy : y.isFinite) : (x - y).isFinite := by
  change (stored (UnpackedFloat.sub Format.binary64 (decoded x) (decoded y))).isFinite
  change (decoded x).isFinite = true at fx
  change (decoded y).isFinite = true at fy
  simp only [NotNegative] at hx hy
  cases left : decoded x with
  | notANumber | infinity s => rw [left] at fx; cases fx
  | zero s =>
    cases right : decoded y with
    | notANumber | infinity s => rw [right] at fy; cases fy
    | zero s' => cases s <;> cases s' <;> rfl
    | finite s' k f pos' => exact isFinite_stored (Int.le_refl f) (decoded_finite right).2.2
  | finite s m e pos =>
    obtain ⟨small, least, fits⟩ := decoded_finite left
    cases right : decoded y with
    | notANumber | infinity s => rw [right] at fy; cases fy
    | zero s' => exact isFinite_stored (Int.le_refl e) fits
    | finite s' k f pos' =>
      obtain ⟨smallToo, leastToo, fitsToo⟩ := decoded_finite right
      rw [left] at hx
      rw [right] at hy
      cases hx
      cases hy
      -- Both are positive, so the mantissas are subtracted, and only the larger exponent counts.
      have bound := normalize_exponent small smallToo
        (Nat.le_of_eq (Nat.shiftLeft_eq m (e - min e f).toNat))
        (Nat.le_of_eq (Nat.shiftLeft_eq k (f - min e f).toNat)) (Int.min_le_left e f)
        (Int.min_le_right e f) least leastToo
      exact isFinite_stored bound (Int.max_le.mpr ⟨fits, fitsToo⟩)

end RootFinding.Binary64
