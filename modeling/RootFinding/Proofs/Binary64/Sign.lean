import RootFinding.Proofs.Binary64.Order
import RootFinding.Proofs.Scalar

namespace RootFinding.Binary64

open Float.Model Float.Model.UnpackedFloat

def sign? : UnpackedFloat → Option Sign
  | .notANumber => none
  | .infinity s | .zero s | .finite s .. => some s

def stored (u : UnpackedFloat) : UnpackedFloat := (Float.Model.pack u).unpack

theorem unpackSign_packComponents (s : Sign) (e : BitVec 11) (m : BitVec 52) :
    Sign.ofBitVec (unpackSign (packComponents Format.binary64 s e m)) = s := by
  have extracted : unpackSign (packComponents Format.binary64 s e m) = s.toBitVec := by
    change (s.toBitVec ++ e ++ m).extractLsb' 63 1 = s.toBitVec
    rw [BitVec.extractLsb'_append_eq_of_le (by decide),
      BitVec.extractLsb'_append_eq_of_le (by decide)]
    cases s <;> rfl
  rw [extracted]
  cases s <;> rfl

theorem implicit_pos (m : BitVec 52) : 0 < (1#1 ++ m).toNat := by
  rw [BitVec.toNat_append]
  exact Nat.lt_of_lt_of_le (by decide) Nat.left_le_or

theorem unpack_packComponents (s : Sign) (e : BitVec 11) (m : BitVec 52) :
    UnpackedFloat.unpack Format.binary64 (packComponents Format.binary64 s e m) =
      if e = -1#11 then if m = 0#52 then .infinity s else .notANumber
      else if e = 0#11 then
        if h : m = 0#52 then .zero s
        else .finite s m.toNat (((e.toNat : ℤ) - (1023 + 52)) + 1)
          (by simpa [BitVec.toNat_pos, BitVec.pos_iff_ne_zero])
      else .finite s (1#1 ++ m).toNat ((e.toNat : ℤ) - (1023 + 52)) (implicit_pos m) := by
  simp only [UnpackedFloat.unpack, unpackExponent_packComponents, unpackMantissa_packComponents,
    unpackSign_packComponents]
  rfl

theorem stored_notANumber : stored .notANumber = .notANumber := rfl

theorem stored_infinity (s : Sign) : stored (.infinity s) = .infinity s := by
  cases s <;> rfl

theorem stored_zero (s : Sign) : stored (.zero s) = .zero s := by
  cases s <;> rfl

theorem stored_eq (u : UnpackedFloat) : stored u =
    UnpackedFloat.unpack Format.binary64 (UnpackedFloat.pack Format.binary64 u) := rfl

theorem sign?_packComponents (s : Sign) {e : BitVec 11} (m : BitVec 52) (small : e ≠ -1#11) :
    sign? (UnpackedFloat.unpack Format.binary64 (packComponents Format.binary64 s e m)) =
      some s := by
  rw [unpack_packComponents, if_neg small]
  split
  · split <;> rfl
  · rfl

theorem biased_ne {biased : Nat} (fits : ¬ 2 ^ 11 ≤ biased + 1) :
    BitVec.ofNat 11 biased ≠ -1#11 := by
  intro full
  have value := congrArg BitVec.toNat full
  have ones : (-1#11).toNat = 2047 := rfl
  rw [BitVec.toNat_ofNat, ones] at value
  omega

theorem sign?_stored (u : UnpackedFloat) : sign? (stored u) = sign? u := by
  cases u with
  | notANumber => rw [stored_notANumber]
  | infinity s => rw [stored_infinity]
  | zero s => rw [stored_zero]
  | finite s m e pos =>
    rw [stored_eq]
    simp only [UnpackedFloat.pack]
    split
    · have infinite : UnpackedFloat.unpack Format.binary64 (packedInfinity Format.binary64 s) =
          .infinity s := stored_infinity s
      rw [infinite]
      rfl
    · rename_i fits
      split
      · exact sign?_packComponents s _ (biased_ne fits)
      · exact sign?_packComponents s _ (by decide)

theorem sign?_roundWithAccuracy (s : Sign) (m : Nat) (e : ℤ) (a : Accuracy) :
    sign? (roundWithAccuracy Format.binary64 s m e a) = some s := by
  simp only [roundWithAccuracy]
  split <;> rfl

theorem sign?_add {u v : UnpackedFloat} (hu : sign? u = some .positive)
    (hv : sign? v = some .positive) :
    sign? (UnpackedFloat.add Format.binary64 u v) = some .positive := by
  cases u <;> cases v <;> simp only [sign?, Option.some.injEq, reduceCtorEq] at hu hv <;>
    subst hu <;> subst hv <;> try rfl
  rename_i m e pos m' e' pos'
  -- The sum of two mantissas is not negative, so the first case of the three does not arise.
  simp only [UnpackedFloat.add, Sign.apply, UnpackedFloat.normalize, decreaseExponent]
  split
  · rename_i less
    rw [compare_lt_iff_lt] at less
    exact absurd less
      (Int.not_lt.mpr (Int.add_nonneg (Int.natCast_nonneg _) (Int.natCast_nonneg _)))
  · rfl
  · exact sign?_roundWithAccuracy _ _ _ _

theorem sign?_mul_self {u : UnpackedFloat} (defined : u.isNaN = false) :
    sign? (UnpackedFloat.mul Format.binary64 u u) = some .positive := by
  cases u with
  | notANumber => cases defined
  | infinity s | zero s => cases s <;> rfl
  | finite s m e pos => cases s <;> exact sign?_roundWithAccuracy _ _ _ _

theorem isNaN_eq_sign? (u : UnpackedFloat) : u.isNaN = (sign? u).isNone := by
  cases u <;> rfl

theorem isNaN_stored (u : UnpackedFloat) : (stored u).isNaN = u.isNaN := by
  rw [isNaN_eq_sign?, isNaN_eq_sign?, sign?_stored]

theorem eq_notANumber {u : UnpackedFloat} (undefined : u.isNaN) : u = .notANumber := by
  cases u with
  | notANumber => rfl
  | infinity _ | zero _ | finite _ _ _ _ => cases undefined

theorem isNaN_operation {op : UnpackedFloat → UnpackedFloat → UnpackedFloat}
    (left : ∀ v, op .notANumber v = .notANumber) (right : ∀ u, op u .notANumber = .notANumber)
    {x y : Float} (undefined : x.isNaN ∨ y.isNaN) :
    (stored (op (decoded x) (decoded y))).isNaN := by
  rw [isNaN_stored]
  rcases undefined with undefined | undefined <;> rw [isNaN_eq] at undefined
  · rw [eq_notANumber undefined, left]
    rfl
  · rw [eq_notANumber undefined, right]
    rfl

theorem isNaN_add {x y : Float} (undefined : x.isNaN ∨ y.isNaN) : (x + y).isNaN :=
  isNaN_operation (fun _ => rfl) (fun u => by cases u <;> rfl) undefined

theorem isNaN_sub {x y : Float} (undefined : x.isNaN ∨ y.isNaN) : (x - y).isNaN :=
  isNaN_operation (fun _ => rfl) (fun u => by cases u <;> rfl) undefined

theorem isNaN_mul {x y : Float} (undefined : x.isNaN ∨ y.isNaN) : (x * y).isNaN :=
  isNaN_operation (fun _ => rfl) (fun u => by cases u <;> rfl) undefined

theorem isNaN_sqrt {x : Float} (undefined : x.isNaN) : x.sqrt.isNaN := by
  change (stored (UnpackedFloat.sqrt Format.binary64 (decoded x))).isNaN
  rw [isNaN_eq] at undefined
  rw [isNaN_stored, eq_notANumber undefined]
  rfl

theorem isNaN_abs (x : Float) : x.abs.isNaN = x.isNaN := by
  change (stored (decoded x).abs).isNaN = (decoded x).isNaN
  rw [isNaN_stored]
  cases decoded x <;> rfl

theorem isNaN_of_isFinite {x : Float} (finite : x.isFinite) : x.isNaN = false := by
  change (decoded x).isFinite = true at finite
  rw [isNaN_eq]
  cases known : decoded x with
  | notANumber => rw [known] at finite; cases finite
  | infinity _ | zero _ | finite _ _ _ _ => rfl

instance [Powers] : LawfulScalar Float where
  isNaN_add _ _ := isNaN_add
  isNaN_sub _ _ := isNaN_sub
  isNaN_mul _ _ := isNaN_mul
  isNaN_sqrt _ := isNaN_sqrt
  isNaN_magnitude := isNaN_abs
  isNaN_zero := (by decide +kernel : Float.isNaN 0.0 = false)
  isNaN_of_isFinite _ := isNaN_of_isFinite
  not_lt_of_isNaN x y undefined less := by
    obtain ⟨hx, hy, _⟩ := lt_iff.mp less
    rcases undefined with undefined | undefined
    · exact Bool.false_ne_true (hx.symm.trans undefined)
    · exact Bool.false_ne_true (hy.symm.trans undefined)
  le_of_not_lt x y hx hy less := by
    rw [lt_iff, not_and, not_and] at less
    exact le_iff.mpr ⟨hy, hx, not_lt.mp (less hx hy)⟩
  le_of_lt x y less := by
    obtain ⟨hx, hy, ranked⟩ := lt_iff.mp less
    exact le_iff.mpr ⟨hx, hy, ranked.le⟩
  le_trans x y z first second := by
    obtain ⟨hx, _, ranked⟩ := le_iff.mp first
    obtain ⟨_, hz, rankedToo⟩ := le_iff.mp second
    exact le_iff.mpr ⟨hx, hz, ranked.trans rankedToo⟩
  lt_of_le_of_lt x y z first second := by
    obtain ⟨hx, _, ranked⟩ := le_iff.mp first
    obtain ⟨_, hz, rankedToo⟩ := lt_iff.mp second
    exact lt_iff.mpr ⟨hx, hz, ranked.trans_lt rankedToo⟩

def NotNegative (x : Float) : Prop := sign? (decoded x) = some .positive

theorem NotNegative.isNaN {x : Float} (known : NotNegative x) : x.isNaN = false := by
  rw [isNaN_eq, isNaN_eq_sign?, known]
  rfl

theorem notNegative_zero : NotNegative 0 := by
  rfl

theorem notNegative_add {x y : Float} (hx : NotNegative x) (hy : NotNegative y) :
    NotNegative (x + y) := by
  change sign? (stored (UnpackedFloat.add Format.binary64 (decoded x) (decoded y))) = _
  rw [sign?_stored, sign?_add hx hy]

theorem notNegative_mul_self {x : Float} (defined : x.isNaN = false) : NotNegative (x * x) := by
  change sign? (stored (UnpackedFloat.mul Format.binary64 (decoded x) (decoded x))) = _
  rw [isNaN_eq] at defined
  rw [sign?_stored, sign?_mul_self defined]

theorem NotNegative.zero_le {x : Float} (known : NotNegative x) : 0.0 ≤ x := by
  rw [le_iff]
  refine ⟨by decide +kernel, known.isNaN, ?_⟩
  have zero : rank (decoded 0.0) = toLex (0, toLex (0, 0)) := rfl
  rw [zero]
  simp only [NotNegative] at known
  cases value : decoded x with
  | notANumber =>
    rw [value] at known
    cases known
  | zero s => exact le_refl _
  | infinity s | finite s m e pos =>
    rw [value] at known
    cases known
    simp [rank, Prod.Lex.toLex_le_toLex]

theorem notNegative_of_pos {x : Float} (positive : 0.0 < x) : NotNegative x := by
  obtain ⟨_, defined, ranked⟩ := lt_iff.mp positive
  have zero : rank (decoded 0.0) = toLex (0, toLex (0, 0)) := rfl
  rw [isNaN_eq] at defined
  rw [zero] at ranked
  simp only [NotNegative]
  cases value : decoded x with
  | notANumber =>
    rw [value] at defined
    cases defined
  | zero s =>
    rw [value] at ranked
    exact absurd ranked (lt_irrefl _)
  | infinity s | finite s m e pos =>
    rw [value] at ranked
    cases s with
    | negative => simp [rank, Prod.Lex.toLex_lt_toLex] at ranked
    | positive => rfl

theorem isNaN_or_notNegative_sqrt {x : Float} (known : x.isNaN ∨ NotNegative x) :
    x.sqrt.isNaN ∨ NotNegative x.sqrt := by
  rcases known with undefined | known
  · exact .inl (isNaN_sqrt undefined)
  · right
    change sign? (stored (UnpackedFloat.sqrt Format.binary64 (decoded x))) = _
    rw [sign?_stored]
    simp only [NotNegative] at known
    cases value : decoded x with
    | notANumber =>
      rw [value] at known
      cases known
    | zero s | infinity s =>
      rw [value] at known
      cases known
      rfl
    | finite s m e pos =>
      rw [value] at known
      cases known
      exact sign?_roundWithAccuracy _ _ _ _

theorem isNaN_or_notNegative_div {x y : Float} (hx : NotNegative x) (hy : NotNegative y) :
    (x / y).isNaN ∨ NotNegative (x / y) := by
  change (stored (UnpackedFloat.div Format.binary64 (decoded x) (decoded y))).isNaN ∨
    sign? (stored (UnpackedFloat.div Format.binary64 (decoded x) (decoded y))) = _
  rw [isNaN_stored, sign?_stored]
  simp only [NotNegative] at hx hy
  generalize decoded x = u at hx ⊢
  generalize decoded y = v at hy ⊢
  cases u with
  | notANumber => cases hx
  | zero s | infinity s =>
    cases hx
    cases v with
    | notANumber => cases hy
    | zero s' | infinity s' | finite s' k f pos' =>
      cases hy
      first
      | exact .inl rfl
      | exact .inr rfl
  | finite s m e pos =>
    cases hx
    cases v with
    | notANumber => cases hy
    | zero s' | infinity s' =>
      cases hy
      exact .inr rfl
    | finite s' k f pos' =>
      cases hy
      exact .inr (sign?_roundWithAccuracy _ _ _ _)

end RootFinding.Binary64
