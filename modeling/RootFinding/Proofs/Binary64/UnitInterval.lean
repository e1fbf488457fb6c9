import RootFinding.Proofs.Binary64.Operations

namespace RootFinding.Binary64

open Float.Model Float.Model.UnpackedFloat

structure InUnit (x : Float) : Prop where
  finite : x.isFinite
  nonneg : 0 ≤ toRat x
  atMost : toRat x ≤ 1

theorem toRat_zero : toRat 0.0 = 0 := rfl

theorem toRat_one : toRat 1.0 = 1 := by
  have one : decoded 1.0 = .finite .positive (2 ^ 52) (-52) (by decide) := by rfl
  rw [toRat, one, value]
  norm_num [Sign.apply]

variable {x y : Float}

theorem inUnit_zero : InUnit 0.0 := ⟨by decide +kernel, toRat_zero.ge, by norm_num [toRat_zero]⟩

theorem inUnit_one : InUnit 1.0 := ⟨by decide +kernel, by norm_num [toRat_one], toRat_one.le⟩

theorem Rounds.abs_le_one {q : ℚ} {u : UnpackedFloat} (rounds : Rounds q u) (small : |q| ≤ 1) :
    u.isFinite ∧ |value u| ≤ 1 := by
  have finite : u.isFinite := rounds.isFinite_iff.mpr (small.trans_lt one_lt_limit)
  have unit : ((1 : Nat) : ℚ) * 2 ^ (0 : ℤ) = 1 := by norm_num
  have bound := rounds.abs_le (c := 1) (g := 0) (by decide) (by decide) (by rwa [unit]) finite
  rw [unit] at bound
  exact ⟨finite, bound⟩

theorem InUnit.mul (hx : InUnit x) (hy : InUnit y) : InUnit (x * y) := by
  have rounds := mul_rounds hx.finite hy.finite
  have nonneg : 0 ≤ toRat x * toRat y := mul_nonneg hx.nonneg hy.nonneg
  have small : |toRat x * toRat y| ≤ 1 := by
    rw [abs_of_nonneg nonneg]
    exact mul_le_one₀ hx.atMost hy.nonneg hy.atMost
  obtain ⟨finite, bound⟩ := rounds.abs_le_one small
  have positive : 0 ≤ toRat (x * y) := rounds.value_nonneg nonneg
  change |toRat (x * y)| ≤ 1 at bound
  rw [abs_of_nonneg positive] at bound
  exact ⟨finite, positive, bound⟩

theorem isFinite_of_between {z : Float} (hx : x.isFinite) (hz : z.isFinite) (above : x ≤ y)
    (below : y ≤ z) : y.isFinite := by
  obtain ⟨_, defined, low⟩ := le_iff.mp above
  obtain ⟨_, _, high⟩ := le_iff.mp below
  rw [isNaN_eq] at defined
  change (decoded x).isFinite = true at hx
  change (decoded z).isFinite = true at hz
  change (decoded y).isFinite = true
  cases known : decoded y with
  | notANumber =>
    rw [known] at defined
    cases defined
  | zero s | finite s m e pos => rfl
  | infinity s =>
    rw [known] at low high
    cases s with
    | negative =>
      have least : rank (decoded x) ≤ toLex (-2, toLex (0, 0)) := low
      cases left : decoded x with
      | notANumber | infinity s =>
        rw [left] at hx
        cases hx
      | zero s | finite s m e pos =>
        rw [left] at least
        cases s <;> simp [rank, Prod.Lex.toLex_le_toLex] at least
    | positive =>
      have most : toLex (2, toLex (0, 0)) ≤ rank (decoded z) := high
      cases right : decoded z with
      | notANumber | infinity s =>
        rw [right] at hz
        cases hz
      | zero s | finite s m e pos =>
        rw [right] at most
        cases s <;> simp [rank, Prod.Lex.toLex_le_toLex] at most

theorem inUnit_iff : InUnit x ↔ (0.0 ≤ x ∧ x ≤ 1.0) := by
  constructor
  · intro inside
    rw [le_iff_toRat inUnit_zero.finite inside.finite, le_iff_toRat inside.finite inUnit_one.finite,
      toRat_zero, toRat_one]
    exact ⟨inside.nonneg, inside.atMost⟩
  · rintro ⟨above, below⟩
    have finite := isFinite_of_between inUnit_zero.finite inUnit_one.finite above below
    rw [le_iff_toRat inUnit_zero.finite finite, toRat_zero] at above
    rw [le_iff_toRat finite inUnit_one.finite, toRat_one] at below
    exact ⟨finite, above, below⟩

theorem le_abs_mul (hx : x.isFinite) (hy : y.isFinite) {i j : ℤ} (first : 2 ^ i ≤ |toRat x|)
    (second : 2 ^ j ≤ |toRat y|) (least : -1074 ≤ i + j) (finite : (x * y).isFinite) :
    2 ^ (i + j) ≤ |toRat (x * y)| := by
  have product : ((1 : Nat) : ℚ) * 2 ^ (i + j) ≤ |toRat x * toRat y| := by
    rw [Nat.cast_one, one_mul, zpow_add₀ two_ne_zero, abs_mul]
    exact mul_le_mul first second (by positivity) (abs_nonneg _)
  have bound := (mul_rounds hx hy).le_abs (by decide) least product finite
  rwa [Nat.cast_one, one_mul] at bound

theorem exists_multiple {g : ℤ} (finite : x.isFinite) (large : 2 ^ (g + 52) ≤ toRat x) :
    ∃ k : ℤ, toRat x = k * 2 ^ g := by
  have unit : (0 : ℚ) < 2 ^ (g + 52) := by positivity
  have storable := storable_decoded finite
  rw [toRat] at large ⊢
  cases known : decoded x with
  | notANumber | infinity s =>
    rw [known] at storable
    cases storable
  | zero s =>
    rw [known] at large
    exact absurd large unit.not_ge
  | finite s m e pos =>
    rw [known] at large storable
    -- The mantissa has no more than 53 bits, so the exponent is large enough.
    have exponent : g ≤ e := by
      by_contra less
      have short : (m : ℚ) < 2 ^ 53 := by exact_mod_cast storable.short
      have lower : (2 : ℚ) ^ (e + 1) ≤ 2 ^ g := zpow_le_zpow_right₀ one_le_two (by omega)
      have small : value (.finite s m e pos) < 2 ^ (g + 52) := by
        calc
          value (.finite s m e pos) ≤ |value (.finite s m e pos)| := le_abs_self _
          _ = m * 2 ^ e := abs_value s pos
          _ < 2 ^ 53 * 2 ^ e := mul_lt_mul_of_pos_right short (by positivity)
          _ = 2 ^ 52 * 2 ^ (e + 1) := by
            rw [zpow_add_one₀ two_ne_zero]
            ring
          _ ≤ 2 ^ 52 * 2 ^ g := mul_le_mul_of_nonneg_left lower (by positivity)
          _ = 2 ^ (g + 52) := by
            rw [zpow_add₀ two_ne_zero, mul_comm]
            norm_cast
      exact absurd large small.not_ge
    exact ⟨_, value_aligned s pos exponent⟩

theorem InUnit.sub_bounds (hx : InUnit x) (hy : InUnit y) {g : ℤ} (least : -1074 ≤ g)
    (first : 2 ^ (g + 52) ≤ toRat x) (second : 2 ^ (g + 52) ≤ toRat y)
    (different : toRat x ≠ toRat y) :
    (x - y).isFinite ∧ |toRat (x - y)| ≤ 1 ∧ 2 ^ g ≤ |toRat (x - y)| := by
  have rounds := sub_rounds hx.finite hy.finite
  have small : |toRat x - toRat y| ≤ 1 := by
    rw [abs_le]
    constructor
    · linarith [hx.nonneg, hy.atMost]
    · linarith [hx.atMost, hy.nonneg]
  obtain ⟨finite, atMost⟩ := rounds.abs_le_one small
  obtain ⟨k, sameX⟩ := exists_multiple hx.finite first
  obtain ⟨l, sameY⟩ := exists_multiple hy.finite second
  have unit : (0 : ℚ) < 2 ^ g := by positivity
  have spacing : ((1 : Nat) : ℚ) * 2 ^ g ≤ |toRat x - toRat y| := by
    have apart : 1 ≤ |k - l| := by
      refine Int.one_le_abs (sub_ne_zero.mpr fun same => different ?_)
      rw [sameX, sameY, same]
    have cast : (1 : ℚ) ≤ |(k : ℚ) - l| := by exact_mod_cast apart
    rw [sameX, sameY, ← sub_mul, abs_mul, abs_of_pos unit, Nat.cast_one]
    exact mul_le_mul_of_nonneg_right cast unit.le
  have bound := rounds.le_abs (by decide) least spacing finite
  rw [Nat.cast_one, one_mul] at bound
  exact ⟨finite, atMost, bound⟩

theorem InUnit.product_ne_zero (hx : InUnit x) (hy : InUnit y)
    (first : 2 ^ (-200 : ℤ) ≤ toRat x) (second : 2 ^ (-200 : ℤ) ≤ toRat y)
    (different : toRat x ≠ toRat y) : (x * x * y * y * (y - x) == 0.0) = false := by
  have first' : 2 ^ (-200 : ℤ) ≤ |toRat x| := first.trans (le_abs_self _)
  have second' : 2 ^ (-200 : ℤ) ≤ |toRat y| := second.trans (le_abs_self _)
  have square := hx.mul hx
  have third := square.mul hy
  have fourth := third.mul hy
  have lowSquare := le_abs_mul hx.finite hx.finite first' first' (by decide) square.finite
  have lowThird := le_abs_mul square.finite hy.finite lowSquare second' (by decide) third.finite
  have lowFourth := le_abs_mul third.finite hy.finite lowThird second' (by decide) fourth.finite
  have place : (-200 : ℤ) = -252 + 52 := rfl
  rw [place] at first second
  obtain ⟨finite, atMost, low⟩ := hy.sub_bounds hx (by decide) second first different.symm
  have small : |toRat (x * x * y * y) * toRat (y - x)| ≤ 1 := by
    rw [abs_mul, abs_of_nonneg fourth.nonneg]
    exact mul_le_one₀ fourth.atMost (abs_nonneg _) atMost
  obtain ⟨fits, _⟩ := (mul_rounds fourth.finite finite).abs_le_one small
  have lowAll := le_abs_mul fourth.finite finite lowFourth low (by decide) fits
  have positive : 0 < |toRat (x * x * y * y * (y - x))| := lt_of_lt_of_le (by positivity) lowAll
  rw [Bool.eq_false_iff, ne_eq, beq_iff_toRat fits inUnit_zero.finite, toRat_zero]
  exact abs_pos.mp positive

end RootFinding.Binary64
