import RootFinding.Proofs.Binary64.Operations
import RootFinding.Decimal.Text

namespace RootFinding.Binary64

open Float.Model Float.Model.UnpackedFloat Decimal

theorem toBitVec_ofBitVec (b : BitVec 1) : (Sign.ofBitVec b).toBitVec = b := by
  revert b
  decide

theorem packComponents_self (b : BitVec 64) :
    packComponents Format.binary64 (Sign.ofBitVec (@unpackSign Format.binary64 b))
      (@unpackExponent Format.binary64 b) (@unpackMantissa Format.binary64 b) = b := by
  rw [packComponents, toBitVec_ofBitVec]
  change b.extractLsb' 63 1 ++ b.extractLsb' 52 11 ++ b.extractLsb' 0 52 = b
  rw [BitVec.extractLsb'_append_extractLsb'_eq_extractLsb' (by decide),
    BitVec.extractLsb'_append_extractLsb'_eq_extractLsb' (by decide)]
  exact BitVec.extractLsb'_eq_self

theorem implicit_eq (m : BitVec 52) : (1#1 ++ m).toNat = 2 ^ 52 + m.toNat := by
  rw [BitVec.toNat_append, ← Nat.shiftLeft_add_eq_or_of_lt m.isLt]
  rfl

theorem pack_unpack {b : BitVec 64} (valid : Format.binary64.Valid b) :
    UnpackedFloat.pack Format.binary64 (UnpackedFloat.unpack Format.binary64 b) = b := by
  obtain ⟨s, e, m, rfl⟩ : ∃ s e m, b = packComponents Format.binary64 s e m :=
    ⟨_, _, _, (packComponents_self b).symm⟩
  have canonical := valid.eq_packedNaN
  rw [unpackExponent_packComponents, unpackMantissa_packComponents] at canonical
  change BitVec 11 at e
  change BitVec 52 at m
  rw [unpack_packComponents]
  split
  · rename_i full
    split
    · rename_i none
      rw [full, none]
      rfl
    · rename_i more
      exact (canonical full more).symm
  · rename_i small
    have fits : e.toNat ≠ 2047 := fun h => small (BitVec.eq_of_toNat_eq h)
    have range := e.isLt
    split
    · rename_i least
      split
      · rename_i none
        rw [least, none]
        rfl
      · rename_i more
        have long : m.toNat.log2 + 1 ≠ 53 := by
          have some' : m.toNat ≠ 0 := fun h => more (BitVec.eq_of_toNat_eq h)
          have := (Nat.log2_lt some').mpr m.isLt
          omega
        rw [least, pack_finite, if_neg (by decide), if_neg long, BitVec.ofNat_toNat,
          BitVec.setWidth_eq]
    · rename_i normal
      have least : e.toNat ≠ 0 := fun h => normal (BitVec.eq_of_toNat_eq h)
      have bits := implicit_eq m
      have digits : (1#1 ++ m).toNat.log2 + 1 = 53 := by
        have := m.isLt
        rw [log2_eq (show 2 ^ 52 ≤ _ by omega) (by omega)]
      have place : ((e.toNat : ℤ) - (1023 + 52) + 1023 + 52).toNat = e.toNat := by omega
      have low : BitVec.ofNat 52 (1#1 ++ m).toNat = m := by
        apply BitVec.eq_of_toNat_eq
        rw [BitVec.toNat_ofNat, bits, Nat.add_mod_left, Nat.mod_eq_of_lt m.isLt]
      rw [pack_finite, place, if_neg (by omega), if_pos digits, low, BitVec.ofNat_toNat,
        BitVec.setWidth_eq]

theorem decoded_injective : Function.Injective decoded := by
  intro x y same
  have bits {z : Float} :
      UnpackedFloat.pack Format.binary64 (decoded z) = z.toModel.toBits.toBitVec :=
    pack_unpack z.toModel.valid
  have equal : x.toModel.toBits.toBitVec = y.toModel.toBits.toBitVec := by
    rw [← bits, same, bits]
  obtain ⟨⟨⟨b⟩, _⟩⟩ := x
  obtain ⟨⟨⟨b'⟩, _⟩⟩ := y
  obtain rfl : b = b' := equal
  rfl

theorem exponentBits (b : UInt64) :
    ((b >>> 52) &&& 0x7FF).toNat = (@unpackExponent Format.binary64 b.toBitVec).toNat := by
  change _ = (b.toBitVec.extractLsb' 52 11).toNat
  rw [BitVec.extractLsb'_toNat, UInt64.toNat_and, UInt64.toNat_shiftRight]
  exact Nat.and_two_pow_sub_one_eq_mod _ 11

theorem mantissaBits (b : UInt64) :
    (b &&& 0xFFFFFFFFFFFFF).toNat = (@unpackMantissa Format.binary64 b.toBitVec).toNat := by
  change _ = (b.toBitVec.extractLsb' 0 52).toNat
  rw [BitVec.extractLsb'_toNat, UInt64.toNat_and]
  exact Nat.and_two_pow_sub_one_eq_mod _ 52

theorem topBit (b : UInt64) :
    (b >>> 63 == 1) = (Sign.ofBitVec (@unpackSign Format.binary64 b.toBitVec) == .negative) := by
  change _ = (Sign.ofBitVec (b.toBitVec.extractLsb' 63 1) == .negative)
  have range := b.toNat_lt
  have bit : (b.toBitVec.extractLsb' 63 1).toNat = b.toNat / 2 ^ 63 := by
    rw [BitVec.extractLsb'_toNat, UInt64.toNat_toBitVec, Nat.shiftRight_eq_div_pow]
    omega
  have same : (b >>> 63).toNat = b.toNat / 2 ^ 63 := by
    rw [UInt64.toNat_shiftRight]
    exact Nat.shiftRight_eq_div_pow _ 63
  rw [Sign.ofBitVec]
  by_cases zero : b.toNat / 2 ^ 63 = 0
  · have first : b >>> 63 = 0 := UInt64.toNat_inj.mp (same.trans zero)
    have second : b.toBitVec.extractLsb' 63 1 = 0#1 := BitVec.eq_of_toNat_eq (bit.trans zero)
    rw [first, if_pos second]
    rfl
  · have first : b >>> 63 = 1 := UInt64.toNat_inj.mp (same.trans (by change _ = 1; omega))
    have second : b.toBitVec.extractLsb' 63 1 ≠ 0#1 := by
      intro none
      rw [none] at bit
      exact zero bit.symm
    rw [first, if_neg second]
    rfl

theorem ofFloat_eq {v : Float} {s : Sign} {m : Nat} {e : ℤ} {pos : 0 < m}
    (known : decoded v = .finite s m e pos) :
    Binary.ofFloat v = ⟨m, e, decide (m = 2 ^ 52 ∧ -1074 < e)⟩ ∧
      isNegative v = (s == .negative) := by
  simp only [Binary.ofFloat, Binary.ofBits, isNegative, Float.toBits, exponentBits, mantissaBits,
    topBit]
  simp only [decoded, Float.Model.unpack, UnpackedFloat.unpack] at known
  have bias : (Format.binary64.exponentBias : ℤ) = 1023 := rfl
  have short := (@unpackMantissa Format.binary64 v.toModel.toBits.toBitVec).isLt
  change _ < 2 ^ 52 at short
  split at known
  · split at known <;> cases known
  · split at known
    · rename_i least
      split at known
      · cases known
      · cases known
        rw [least, bias]
        refine ⟨?_, rfl⟩
        simp
    · rename_i normal
      cases known
      have least : (@unpackExponent Format.binary64 v.toModel.toBits.toBitVec).toNat ≠ 0 :=
        fun h => normal (BitVec.eq_of_toNat_eq h)
      have bits := implicit_eq (@unpackMantissa Format.binary64 v.toModel.toBits.toBitVec)
      refine ⟨?_, rfl⟩
      rw [bias, bits, if_neg (by simpa using least)]
      have narrow : ((@unpackMantissa Format.binary64 v.toModel.toBits.toBitVec).toNat == 0 &&
            decide ((@unpackExponent Format.binary64 v.toModel.toBits.toBitVec).toNat > 1)) =
          decide (2 ^ 52 + (@unpackMantissa Format.binary64 v.toModel.toBits.toBitVec).toNat =
              2 ^ 52 ∧
            -1074 < ((@unpackExponent Format.binary64 v.toModel.toBits.toBitVec).toNat : ℤ) -
              (1023 + 52)) := by
        rw [Bool.eq_iff_iff, Bool.and_eq_true, beq_iff_eq, decide_eq_true_iff, decide_eq_true_iff]
        omega
      rw [narrow]
      rfl

end RootFinding.Binary64
