import RootFinding.Proofs.Binary64.Nearest

namespace RootFinding.Binary64

open Float.Model Float.Model.UnpackedFloat

def signOf (q : ℚ) : Sign := if q < 0 then .negative else .positive

def Rounds (q : ℚ) (u : UnpackedFloat) : Prop :=
  if q = 0 then ∃ s, u = .zero s else Nearest (signOf q) |q| u

theorem one_lt_limit : 1 < limit := by
  have large : (1 : ℚ) ≤ 2 ^ 970 := one_le_pow₀ one_le_two
  have wide : (1 : ℚ) < 2 ^ 54 - 1 := by norm_num
  exact one_lt_mul_of_lt_of_le wide large

theorem limit_pos : 0 < limit := one_pos.trans one_lt_limit

section Rounds

variable {q : ℚ} {u : UnpackedFloat}

theorem Rounds.isFinite_iff (rounds : Rounds q u) : u.isFinite ↔ |q| < limit := by
  rw [Rounds] at rounds
  split at rounds
  · rename_i zero
    obtain ⟨s, rfl⟩ := rounds
    rw [zero, abs_zero]
    exact ⟨fun _ => limit_pos, fun _ => rfl⟩
  · exact rounds.isFinite

theorem Rounds.abs_le (rounds : Rounds q u) {c : Nat} {g : ℤ} (narrow : c ≤ 2 ^ 53)
    (least : -1074 ≤ g) (bound : |q| ≤ c * 2 ^ g) (finite : u.isFinite) :
    |value u| ≤ c * 2 ^ g := by
  rw [Rounds] at rounds
  split at rounds
  · obtain ⟨s, rfl⟩ := rounds
    simp only [value, abs_zero]
    positivity
  · exact rounds.atMost c g narrow least bound finite

theorem Rounds.le_abs (rounds : Rounds q u) {c : Nat} {g : ℤ} (narrow : c ≤ 2 ^ 53)
    (least : -1074 ≤ g) (bound : c * 2 ^ g ≤ |q|) (finite : u.isFinite) :
    c * 2 ^ g ≤ |value u| := by
  rw [Rounds] at rounds
  split at rounds
  · rename_i zero
    obtain ⟨s, rfl⟩ := rounds
    rwa [zero] at bound
  · exact rounds.atLeast c g narrow least bound finite

theorem value_nonneg_of_sign (positive : sign? u = some .positive) : 0 ≤ value u := by
  cases u with
  | notANumber | infinity s | zero s => exact le_refl _
  | finite s m e pos =>
    cases positive
    simp only [value, Sign.apply, Int.cast_natCast]
    positivity

theorem Rounds.value_nonneg (rounds : Rounds q u) (nonneg : 0 ≤ q) : 0 ≤ value u := by
  rw [Rounds] at rounds
  split at rounds
  · obtain ⟨s, rfl⟩ := rounds
    exact le_refl _
  · have sign := rounds.sign
    rw [signOf, if_neg nonneg.not_gt] at sign
    exact value_nonneg_of_sign sign

end Rounds

theorem abs_value_lt_limit {u : UnpackedFloat} (storable : Storable u) : |value u| < limit := by
  cases u with
  | notANumber | infinity s | zero s => simpa only [value, abs_zero] using limit_pos
  | finite s m e pos =>
    have short : (m : ℚ) ≤ 2 ^ 53 - 1 := by
      have whole : m + 1 ≤ 2 ^ 53 := storable.short
      have cast : (m : ℚ) + 1 ≤ 2 ^ 53 := by exact_mod_cast whole
      linarith
    have exponent : (2 : ℚ) ^ e ≤ 2 ^ (971 : ℤ) := zpow_le_zpow_right₀ one_le_two storable.most
    have positive : (0 : ℚ) < 2 ^ 970 := by positivity
    rw [abs_value]
    calc
      (m : ℚ) * 2 ^ e ≤ (2 ^ 53 - 1) * 2 ^ (971 : ℤ) :=
        mul_le_mul short exponent (by positivity) (by norm_num)
      _ = (2 ^ 54 - 2) * 2 ^ 970 := by
        rw [zpow_ofNat, pow_succ (2 : ℚ) 970]
        generalize (2 : ℚ) ^ 970 = step
        ring
      _ < limit := mul_lt_mul_of_pos_right (by norm_num) positive

theorem signOf_value {s : Sign} {m : Nat} {e : ℤ} (pos : 0 < m) :
    signOf (value (.finite s m e pos)) = s := by
  have positive : (0 : ℚ) < m * 2 ^ e := by positivity
  rw [signOf]
  cases s with
  | negative =>
    have below : value (.finite .negative m e pos) < 0 := by
      simpa [value, Sign.apply] using positive
    rw [if_pos below]
  | positive =>
    have above : ¬ value (.finite .positive m e pos) < 0 := by
      simpa [value, Sign.apply] using positive.le
    rw [if_neg above]

theorem rounds_self {u : UnpackedFloat} (storable : Storable u) : Rounds (value u) u := by
  rw [Rounds]
  cases u with
  | notANumber | infinity s => cases storable
  | zero s =>
    have none : value (.zero s) = 0 := rfl
    rw [if_pos none]
    exact ⟨s, rfl⟩
  | finite s m e pos =>
    have positive : (0 : ℚ) < m * 2 ^ e := by positivity
    have fits := abs_value_lt_limit storable
    have nonzero : value (.finite s m e pos) ≠ 0 := by
      rw [← abs_pos, abs_value]
      exact positive
    rw [if_neg nonzero, signOf_value]
    exact ⟨rfl, ⟨fun _ => fits, fun _ => rfl⟩, fun _ _ _ _ bound _ => bound,
      fun _ _ _ _ bound _ => bound⟩

theorem value_aligned (s : Sign) {m : Nat} {e g : ℤ} (pos : 0 < m) (le : g ≤ e) :
    value (.finite s m e pos) = ((s.apply ((m <<< (e - g).toNat : Nat) : ℤ) : ℤ) : ℚ) * 2 ^ g := by
  have exponent : e = g + ((e - g).toNat : ℤ) := by omega
  have unit : (2 : ℚ) ^ e = 2 ^ (e - g).toNat * 2 ^ g := by rw [← two_zpow_add, ← exponent]
  rw [value, unit, Nat.shiftLeft_eq]
  cases s with
  | negative =>
    simp only [Sign.apply]
    push_cast
    ring
  | positive =>
    simp only [Sign.apply]
    push_cast
    ring

theorem rounds_normalize (m f : ℤ) (s : Sign) :
    Rounds (m * 2 ^ f) (stored (UnpackedFloat.normalize Format.binary64 m f s)) := by
  have unit : (0 : ℚ) < 2 ^ f := by positivity
  by_cases zero : m = 0
  · have none : (m : ℚ) * 2 ^ f = 0 := by
      rw [zero]
      simp
    have normal : UnpackedFloat.normalize Format.binary64 m f s = .zero s := by
      rw [UnpackedFloat.normalize, compare_eq_iff_eq.mpr zero]
    rw [Rounds, if_pos none, normal, stored_zero]
    exact ⟨s, rfl⟩
  · have some' : (m : ℚ) * 2 ^ f ≠ 0 := mul_ne_zero (by exact_mod_cast zero) unit.ne'
    have sign : signOf (m * 2 ^ f) = if m < 0 then .negative else .positive := by
      have same : (m : ℚ) * 2 ^ f < 0 ↔ m < 0 := by
        rw [mul_neg_iff]
        constructor
        · rintro (⟨_, below⟩ | ⟨below, _⟩)
          · exact absurd below unit.not_gt
          · exact_mod_cast below
        · intro below
          exact .inr ⟨by exact_mod_cast below, unit⟩
      simp only [signOf, same]
    rw [Rounds, if_neg some', sign]
    exact nearest_normalize zero f s

theorem rounds_zero (s : Sign) : Rounds 0 (stored (.zero s)) := by
  rw [Rounds, if_pos rfl, stored_zero]
  exact ⟨s, rfl⟩

theorem rounds_add {u v : UnpackedFloat} (hu : Storable u) (hv : Storable v) :
    Rounds (value u + value v) (stored (UnpackedFloat.add Format.binary64 u v)) := by
  cases u with
  | notANumber | infinity s => cases hu
  | zero s =>
    have none : value (.zero s) = 0 := rfl
    rw [none, zero_add]
    cases v with
    | notANumber | infinity s' => cases hv
    | zero s' =>
      simp only [UnpackedFloat.add]
      split
      · exact rounds_zero _
      · exact rounds_zero _
    | finite s' k f pos' =>
      change Rounds _ (stored (.finite s' k f pos'))
      rw [stored_of_canonical s' pos' hv]
      exact rounds_self hv
  | finite s m e pos =>
    cases v with
    | notANumber | infinity s' => cases hv
    | zero s' =>
      have none : value (.zero s') = 0 := rfl
      rw [none, add_zero]
      change Rounds _ (stored (.finite s m e pos))
      rw [stored_of_canonical s pos hu]
      exact rounds_self hu
    | finite s' k f pos' =>
      -- Both mantissas are brought to the smaller exponent, where they add up.
      have sum := rounds_normalize (s.apply ((m <<< (e - min e f).toNat : Nat) : ℤ) +
        s'.apply ((k <<< (f - min e f).toNat : Nat) : ℤ)) (min e f) .positive
      rw [Int.cast_add, add_mul, ← value_aligned s pos (min_le_left e f),
        ← value_aligned s' pos' (min_le_right e f)] at sum
      exact sum

theorem value_neg (u : UnpackedFloat) : value u.neg = -value u := by
  cases u with
  | notANumber | infinity s | zero s => simp [UnpackedFloat.neg, value]
  | finite s m e pos =>
    cases s with
    | negative =>
      change (m : ℚ) * 2 ^ e = -(((-(m : ℤ) : ℤ) : ℚ) * 2 ^ e)
      push_cast
      ring
    | positive =>
      change ((-(m : ℤ) : ℤ) : ℚ) * 2 ^ e = -((m : ℚ) * 2 ^ e)
      push_cast
      ring

theorem storable_neg {u : UnpackedFloat} (storable : Storable u) : Storable u.neg := by
  cases u with
  | notANumber | infinity s => cases storable
  | zero s => trivial
  | finite s m e pos => exact storable

theorem sub_eq_add (u v : UnpackedFloat) :
    UnpackedFloat.sub Format.binary64 u v = UnpackedFloat.add Format.binary64 u v.neg := by
  cases u with
  | notANumber => rfl
  | infinity s => cases v <;> rfl
  | zero s => cases v <;> rfl
  | finite s m e pos =>
    cases v with
    | notANumber | infinity s' | zero s' => rfl
    | finite s' k f pos' => cases s' <;> simp [UnpackedFloat.sub, UnpackedFloat.add,
        UnpackedFloat.neg, Sign.apply, Int.sub_eq_add_neg]

theorem lastPlace_mul {m k : Nat} {e f : ℤ} (first : Canonical m e) (second : Canonical k f)
    (pos : 0 < m) (pos' : 0 < k) : e + f ≤ lastPlace (m * k) (e + f) := by
  have long {a b : Nat} (full : 2 ^ 52 ≤ a) (some' : 0 < b) : 52 ≤ (a * b).log2 := by
    rw [Nat.le_log2 (by positivity)]
    exact full.trans (Nat.le_mul_of_pos_right a some')
  rcases first.full with full | least
  · have digits := long full pos'
    simp only [lastPlace]
    omega
  · rcases second.full with full | leastToo
    · have digits := long full pos
      rw [Nat.mul_comm] at digits
      simp only [lastPlace]
      omega
    · simp only [lastPlace]
      omega

theorem apply_mul (s s' : Sign) (m k : ℤ) : (s * s').apply (m * k) = s.apply m * s'.apply k := by
  cases s with
  | negative =>
    cases s' with
    | negative => exact (neg_mul_neg m k).symm
    | positive => exact (neg_mul m k).symm
  | positive =>
    cases s' with
    | negative => exact (mul_neg m k).symm
    | positive => rfl

theorem rounds_mul {u v : UnpackedFloat} (hu : Storable u) (hv : Storable v) :
    Rounds (value u * value v) (stored (UnpackedFloat.mul Format.binary64 u v)) := by
  cases u with
  | notANumber | infinity s => cases hu
  | zero s =>
    have none : value (.zero s) = 0 := rfl
    rw [none, zero_mul]
    cases v with
    | notANumber | infinity s' => cases hv
    | zero s' | finite s' k f pos' => exact rounds_zero _
  | finite s m e pos =>
    cases v with
    | notANumber | infinity s' => cases hv
    | zero s' =>
      have none : value (.zero s') = 0 := rfl
      rw [none, mul_zero]
      exact rounds_zero _
    | finite s' k f pos' =>
      have product : value (.finite s m e pos) * value (.finite s' k f pos') =
          value (.finite (s * s') (m * k) (e + f) (Nat.mul_pos pos pos')) := by
        have exponent : (2 : ℚ) ^ (e + f) = 2 ^ e * 2 ^ f := zpow_add₀ two_ne_zero e f
        simp only [value, Nat.cast_mul, apply_mul, Int.cast_mul, exponent]
        ring
      have magnitude : |value (.finite (s * s') (m * k) (e + f) (Nat.mul_pos pos pos'))| =
          ((m * k : Nat) : ℚ) * 2 ^ (e + f) := abs_value _ _
      have positive : (0 : ℚ) < ((m * k : Nat) : ℚ) * 2 ^ (e + f) := by positivity
      have nonzero : value (.finite (s * s') (m * k) (e + f) (Nat.mul_pos pos pos')) ≠ 0 := by
        rw [← abs_pos, magnitude]
        exact positive
      rw [product, Rounds, if_neg nonzero, signOf_value, magnitude]
      exact nearest_roundWithAccuracy (s * s') (Nat.mul_pos pos pos') (lastPlace_mul hu hv pos pos')

section Floats

variable {x y : Float}

theorem add_rounds (hx : x.isFinite) (hy : y.isFinite) :
    Rounds (toRat x + toRat y) (decoded (x + y)) :=
  rounds_add (storable_decoded hx) (storable_decoded hy)

theorem sub_rounds (hx : x.isFinite) (hy : y.isFinite) :
    Rounds (toRat x - toRat y) (decoded (x - y)) := by
  have sum := rounds_add (storable_decoded hx) (storable_neg (storable_decoded hy))
  rw [value_neg, ← sub_eq_add, ← sub_eq_add_neg] at sum
  exact sum

theorem mul_rounds (hx : x.isFinite) (hy : y.isFinite) :
    Rounds (toRat x * toRat y) (decoded (x * y)) :=
  rounds_mul (storable_decoded hx) (storable_decoded hy)

theorem isFinite_of_stored {u : UnpackedFloat} (finite : (stored u).isFinite) : u.isFinite := by
  cases u with
  | notANumber =>
    rw [stored_notANumber] at finite
    exact finite
  | infinity s =>
    rw [stored_infinity] at finite
    exact finite
  | zero s | finite s m e pos => rfl

theorem isFinite_of_add (finite : (x + y).isFinite) : x.isFinite ∧ y.isFinite := by
  have sum : (UnpackedFloat.add Format.binary64 (decoded x) (decoded y)).isFinite :=
    isFinite_of_stored finite
  change (decoded x).isFinite = true ∧ (decoded y).isFinite = true
  generalize decoded x = u at sum ⊢
  generalize decoded y = v at sum ⊢
  cases u with
  | notANumber => cases sum
  | infinity s =>
    cases v with
    | infinity s' => cases s <;> cases s' <;> cases sum
    | notANumber | zero s' | finite s' k f pos' => cases sum
  | zero s | finite s m e pos =>
    cases v with
    | notANumber | infinity s' => cases sum
    | zero s' | finite s' k f pos' => exact ⟨rfl, rfl⟩

theorem isFinite_of_mul (finite : (x * y).isFinite) : x.isFinite ∧ y.isFinite := by
  have product : (UnpackedFloat.mul Format.binary64 (decoded x) (decoded y)).isFinite :=
    isFinite_of_stored finite
  change (decoded x).isFinite = true ∧ (decoded y).isFinite = true
  generalize decoded x = u at product ⊢
  generalize decoded y = v at product ⊢
  cases u with
  | notANumber => cases product
  | infinity s => cases v <;> cases product
  | zero s | finite s m e pos =>
    cases v with
    | notANumber | infinity s' => cases product
    | zero s' | finite s' k f pos' => exact ⟨rfl, rfl⟩

theorem isFinite_add_iff :
    (x + y).isFinite ↔ x.isFinite ∧ y.isFinite ∧ |toRat x + toRat y| < limit := by
  constructor
  · intro finite
    obtain ⟨hx, hy⟩ := isFinite_of_add finite
    exact ⟨hx, hy, (add_rounds hx hy).isFinite_iff.mp finite⟩
  · rintro ⟨hx, hy, fits⟩
    exact (add_rounds hx hy).isFinite_iff.mpr fits

theorem isFinite_mul_iff :
    (x * y).isFinite ↔ x.isFinite ∧ y.isFinite ∧ |toRat x * toRat y| < limit := by
  constructor
  · intro finite
    obtain ⟨hx, hy⟩ := isFinite_of_mul finite
    exact ⟨hx, hy, (mul_rounds hx hy).isFinite_iff.mp finite⟩
  · rintro ⟨hx, hy, fits⟩
    exact (mul_rounds hx hy).isFinite_iff.mpr fits

end Floats

end RootFinding.Binary64
