import RootFinding.Proofs.Binary64.Rounding

namespace RootFinding.Binary64

open Float.Model Float.Model.UnpackedFloat

/-- The rational number that a value is; none is undefined, and that counts as zero. -/
def value : UnpackedFloat → ℚ
  | .finite s m e _ => s.apply m * 2 ^ e
  | .zero _ | .infinity _ | .notANumber => 0

def toRat (x : Float) : ℚ := value (decoded x)

/-- A mantissa with its exponent as they are stored: all 53 bits are used unless the exponent is the
least. -/
structure Canonical (m : Nat) (e : ℤ) : Prop where
  short : m < 2 ^ 53
  least : -1074 ≤ e
  most : e ≤ 971
  full : 2 ^ 52 ≤ m ∨ e = -1074

theorem log2_eq {m k : Nat} (low : 2 ^ k ≤ m) (high : m < 2 ^ (k + 1)) : m.log2 = k := by
  have positive : m ≠ 0 := by
    have := Nat.two_pow_pos k
    omega
  have below := (Nat.log2_lt positive).mpr high
  have above := (Nat.le_log2 positive).mpr low
  omega

theorem implicit_toNat {m : Nat} (low : 2 ^ 52 ≤ m) (high : m < 2 ^ 53) :
    (1#1 ++ BitVec.ofNat 52 m).toNat = m := by
  have rest : m % 2 ^ 52 = m - 2 ^ 52 := by
    rw [Nat.mod_eq_sub_mod low, Nat.mod_eq_of_lt (by omega)]
  rw [BitVec.toNat_append, BitVec.toNat_ofNat, BitVec.toNat_ofNat, rest,
    ← Nat.shiftLeft_add_eq_or_of_lt (by omega)]
  norm_num [Nat.shiftLeft_eq]
  omega

theorem pack_finite (s : Sign) {m : Nat} {e : ℤ} (pos : 0 < m) :
    UnpackedFloat.pack Format.binary64 (.finite s m e pos) =
      if 2 ^ 11 ≤ (e + 1023 + 52).toNat + 1 then packedInfinity Format.binary64 s
      else if m.log2 + 1 = 53 then
        packComponents Format.binary64 s (BitVec.ofNat 11 (e + 1023 + 52).toNat)
          (BitVec.ofNat 52 m)
      else packComponents Format.binary64 s 0#11 (BitVec.ofNat 52 m) := rfl

theorem stored_of_canonical {m : Nat} {e : ℤ} (s : Sign) (pos : 0 < m) (canonical : Canonical m e) :
    stored (.finite s m e pos) = .finite s m e pos := by
  obtain ⟨short, least, most, full⟩ := canonical
  have fits : ¬ 2 ^ 11 ≤ (e + 1023 + 52).toNat + 1 := by omega
  rw [stored_eq, pack_finite, if_neg fits]
  by_cases normal : 2 ^ 52 ≤ m
  · have exponent : BitVec.ofNat 11 (e + 1023 + 52).toNat ≠ 0#11 := by
      intro none
      have bits := congrArg BitVec.toNat none
      rw [BitVec.toNat_ofNat, BitVec.toNat_ofNat] at bits
      omega
    rw [if_pos (by rw [log2_eq normal short]), unpack_packComponents, if_neg (biased_ne fits),
      if_neg exponent]
    have same : (((BitVec.ofNat 11 (e + 1023 + 52).toNat).toNat : ℤ) - (1023 + 52)) = e := by
      rw [BitVec.toNat_ofNat, Nat.mod_eq_of_lt (by omega)]
      omega
    simp only [implicit_toNat normal short, same]
  · obtain rfl : e = -1074 := by omega
    have small : m.log2 + 1 ≠ 53 := by
      have := (Nat.log2_lt pos.ne').mpr (show m < 2 ^ 52 by omega)
      omega
    have bits : (BitVec.ofNat 52 m).toNat = m := by
      rw [BitVec.toNat_ofNat, Nat.mod_eq_of_lt (by omega)]
    have some' : BitVec.ofNat 52 m ≠ 0#52 := by
      intro none
      have zero := congrArg BitVec.toNat none
      rw [bits] at zero
      exact pos.ne' zero
    rw [if_neg small, unpack_packComponents, if_neg (by decide), if_pos rfl, dif_neg some']
    simp only [bits]
    rfl

theorem stored_of_large {m : Nat} {e : ℤ} (s : Sign) (pos : 0 < m) (large : 972 ≤ e) :
    stored (.finite s m e pos) = .infinity s := by
  have fits : 2 ^ 11 ≤ (e + 1023 + 52).toNat + 1 := by omega
  rw [stored_eq, pack_finite, if_pos fits]
  exact stored_infinity s

theorem decoded_canonical {x : Float} {s : Sign} {m : Nat} {e : ℤ} {pos : 0 < m}
    (known : decoded x = .finite s m e pos) : Canonical m e := by
  obtain ⟨short, least, most⟩ := decoded_finite known
  refine ⟨short, least, most, ?_⟩
  simp only [decoded, Float.Model.unpack, UnpackedFloat.unpack] at known
  split at known
  · split at known <;> cases known
  · split at known
    · rename_i none
      split at known
      · cases known
      · cases known
        rw [none]
        exact .inr rfl
    · cases known
      refine .inl ?_
      change 2 ^ 52 ≤ (1#1 ++ @unpackMantissa Format.binary64 x.toModel.toBits.toBitVec).toNat
      rw [BitVec.toNat_append]
      exact Nat.left_le_or

theorem Canonical.lt {m k : Nat} {e f : ℤ} (first : Canonical m e) (second : Canonical k f)
    (below : e < f ∨ e = f ∧ m < k) : (m : ℚ) * 2 ^ e < k * 2 ^ f := by
  rcases below with less | ⟨rfl, less⟩
  · -- The larger exponent is not the least, so its mantissa has all bits.
    have full : 2 ^ 52 ≤ k := by
      rcases second.full with full | least
      · exact full
      · have := first.least
        omega
    have short : (m : ℚ) < 2 ^ 53 := by exact_mod_cast first.short
    have long : (2 : ℚ) ^ 52 ≤ k := by exact_mod_cast full
    have positive : (0 : ℚ) < 2 ^ e := by positivity
    have wider : (2 : ℚ) ^ (e + 1) ≤ 2 ^ f := zpow_le_zpow_right₀ one_le_two (by omega)
    calc
      (m : ℚ) * 2 ^ e < 2 ^ 53 * 2 ^ e := mul_lt_mul_of_pos_right short positive
      _ = 2 ^ 52 * 2 ^ (e + 1) := by
        rw [zpow_add_one₀ two_ne_zero]
        ring
      _ ≤ k * 2 ^ f := mul_le_mul long wider (by positivity) (by positivity)
  · have less' : (m : ℚ) < k := by exact_mod_cast less
    exact mul_lt_mul_of_pos_right less' (by positivity)

def Storable : UnpackedFloat → Prop
  | .zero _ => True
  | .finite _ m e _ => Canonical m e
  | .infinity _ | .notANumber => False

theorem storable_decoded {x : Float} (finite : x.isFinite) : Storable (decoded x) := by
  change (decoded x).isFinite = true at finite
  cases known : decoded x with
  | notANumber | infinity s =>
    rw [known] at finite
    cases finite
  | zero s => trivial
  | finite s m e pos => exact decoded_canonical known

theorem value_lt_of_rank_lt {u v : UnpackedFloat} (hu : Storable u) (hv : Storable v)
    (less : rank u < rank v) : value u < value v := by
  have positive {m : Nat} (pos : 0 < m) (e : ℤ) : (0 : ℚ) < m * 2 ^ e := by positivity
  cases u with
  | notANumber | infinity s => cases hu
  | zero s =>
    cases v with
    | notANumber | infinity s' => cases hv
    | zero s' => exact absurd less (lt_irrefl _)
    | finite s' k f pos' =>
      cases s' with
      | negative => simp [rank, Prod.Lex.toLex_lt_toLex] at less
      | positive => simpa [value, Sign.apply] using positive pos' f
  | finite s m e pos =>
    cases v with
    | notANumber | infinity s' => cases hv
    | zero s' =>
      cases s with
      | negative => simpa [value, Sign.apply] using positive pos e
      | positive => simp [rank, Prod.Lex.toLex_lt_toLex] at less
    | finite s' k f pos' =>
      cases s <;> cases s'
      · have below : f < e ∨ f = e ∧ k < m := by
          simp [rank, Prod.Lex.toLex_lt_toLex] at less
          omega
        simpa [value, Sign.apply] using hv.lt hu below
      · have left := positive pos e
        have right := positive pos' f
        simp only [value, Sign.apply, Int.cast_neg, Int.cast_natCast]
        linarith
      · simp [rank, Prod.Lex.toLex_lt_toLex] at less
      · have below : e < f ∨ e = f ∧ m < k := by
          simp [rank, Prod.Lex.toLex_lt_toLex] at less
          omega
        simpa [value, Sign.apply] using hu.lt hv below

theorem value_eq_of_rank_eq {u v : UnpackedFloat} (hu : Storable u) (hv : Storable v)
    (same : rank u = rank v) : value u = value v := by
  cases u with
  | notANumber | infinity s => cases hu
  | zero s =>
    cases v with
    | notANumber | infinity s' => cases hv
    | zero s' => rfl
    | finite s' k f pos' => cases s' <;> simp [rank] at same
  | finite s m e pos =>
    cases v with
    | notANumber | infinity s' => cases hv
    | zero s' => cases s <;> simp [rank] at same
    | finite s' k f pos' =>
      cases s <;> cases s' <;> simp [rank] at same
      all_goals
        obtain ⟨rfl, rfl⟩ := same
        rfl

variable {x y : Float}

theorem lt_iff_toRat (hx : x.isFinite) (hy : y.isFinite) : x < y ↔ toRat x < toRat y := by
  have first := storable_decoded hx
  have second := storable_decoded hy
  rw [lt_iff]
  constructor
  · rintro ⟨_, _, less⟩
    exact value_lt_of_rank_lt first second less
  · intro less
    refine ⟨isNaN_of_isFinite hx, isNaN_of_isFinite hy, ?_⟩
    rcases lt_trichotomy (rank (decoded x)) (rank (decoded y)) with below | same | above
    · exact below
    · exact absurd (value_eq_of_rank_eq first second same) less.ne
    · exact absurd (value_lt_of_rank_lt second first above) less.not_gt

theorem le_iff_toRat (hx : x.isFinite) (hy : y.isFinite) : x ≤ y ↔ toRat x ≤ toRat y := by
  have first := isNaN_of_isFinite hx
  have second := isNaN_of_isFinite hy
  have swapped := lt_iff_toRat hy hx
  rw [lt_iff] at swapped
  rw [le_iff, ← not_lt, ← not_lt, ← swapped]
  simp only [first, second, true_and]

theorem beq_iff_toRat (hx : x.isFinite) (hy : y.isFinite) :
    (x == y) = true ↔ toRat x = toRat y := by
  have first := isNaN_of_isFinite hx
  have second := isNaN_of_isFinite hy
  change ((decoded x).compare (decoded y) == some .eq) = true ↔ _
  rw [beq_iff_eq, @compare_eq (decoded x) (decoded y) first second, Option.some.injEq,
    compare_eq_iff_eq]
  constructor
  · exact value_eq_of_rank_eq (storable_decoded hx) (storable_decoded hy)
  · intro same
    have notLess := (lt_iff_toRat hx hy).not.mpr same.not_lt
    have notMore := (lt_iff_toRat hy hx).not.mpr same.not_gt
    rw [lt_iff] at notLess notMore
    simp only [first, second, true_and, not_lt] at notLess notMore
    exact le_antisymm notMore notLess

end RootFinding.Binary64
