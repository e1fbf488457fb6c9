import RootFinding.Proofs.Decimal.Numeral
import RootFinding.Proofs.Decimal.Shortest
import RootFinding.Decimal.Text

namespace RootFinding.Decimal

theorem digitsValue_append (ds es : List Char) :
    digitsValue (ds ++ es) = digitsValue ds * 10 ^ es.length + digitsValue es := by
  change Nat.ofDigitChars 10 (ds ++ es) 0 = Nat.ofDigitChars 10 ds 0 * _ + Nat.ofDigitChars 10 es 0
  rw [Nat.ofDigitChars_append, Nat.ofDigitChars_eq_ofDigitChars_zero, Nat.mul_comm]

theorem digitsValue_zeros (k : Nat) : digitsValue (List.replicate k '0') = 0 :=
  (Nat.ofDigitChars_replicate_zero).trans (Nat.mul_zero _)

theorem digitsValue_toDigits (n : Nat) : digitsValue (Nat.toDigits 10 n) = n :=
  Nat.ofDigitChars_ten_toDigits

theorem all_toDigits (n : Nat) : (Nat.toDigits 10 n).all Char.isDigit :=
  List.all_eq_true.mpr fun _ => Nat.isDigit_of_mem_toDigits (by decide) (by decide)

theorem all_zeros (k : Nat) : (List.replicate k '0').all Char.isDigit := by
  simp

theorem all_zeroPad (width : Nat) {digits : List Char} (all : digits.all Char.isDigit) :
    (zeroPad width digits).all Char.isDigit := by
  rw [zeroPad, List.all_append, all_zeros, all]
  rfl

theorem digitsValue_zeroPad (width : Nat) (digits : List Char) :
    digitsValue (zeroPad width digits) = digitsValue digits := by
  rw [zeroPad, digitsValue_append, digitsValue_zeros, Nat.zero_mul, Nat.zero_add]

structure Significant (digits : List Char) : Prop where
  all : digits.all Char.isDigit
  leading : ∃ c cs, digits = c :: cs ∧ c ≠ '0'

theorem significant_toDigits {n : Nat} (pos : 0 < n) : Significant (Nat.toDigits 10 n) := by
  refine ⟨all_toDigits n, ?_⟩
  induction n using Nat.strongRecOn with
  | ind n ih =>
    by_cases short : n < 10
    · rw [Nat.toDigits_of_lt_base short]
      refine ⟨n.digitChar, [], rfl, ?_⟩
      interval_cases n <;> decide
    · obtain ⟨c, cs, shorter, other⟩ := ih (n / 10) (by omega) (by omega)
      rw [Nat.toDigits_of_base_le (by decide) (by omega), shorter]
      exact ⟨c, cs ++ [(n % 10).digitChar], rfl, other⟩

theorem dropTrailingZeros_append (digits : List Char) :
    ∃ k, digits = dropTrailingZeros digits ++ List.replicate k '0' := by
  refine ⟨(digits.reverse.takeWhile (· == '0')).length, ?_⟩
  have zeros : digits.reverse.takeWhile (· == '0') =
      List.replicate (digits.reverse.takeWhile (· == '0')).length '0' := by
    refine List.eq_replicate_of_mem fun c inside => ?_
    simpa using List.mem_takeWhile_imp inside
  calc
    digits = digits.reverse.reverse := (List.reverse_reverse digits).symm
    _ = (digits.reverse.takeWhile (· == '0') ++ digits.reverse.dropWhile (· == '0')).reverse := by
      rw [List.takeWhile_append_dropWhile]
    _ = dropTrailingZeros digits ++ (digits.reverse.takeWhile (· == '0')).reverse :=
      List.reverse_append
    _ = _ := by
      rw [zeros, List.reverse_replicate, List.length_replicate]

theorem Significant.dropTrailingZeros {digits : List Char} (significant : Significant digits) :
    Significant (dropTrailingZeros digits) := by
  obtain ⟨all, c, cs, long, other⟩ := significant
  obtain ⟨k, same⟩ := dropTrailingZeros_append digits
  refine ⟨?_, ?_⟩
  · rw [same, List.all_append, Bool.and_eq_true] at all
    exact all.1
  · cases kept : Decimal.dropTrailingZeros digits with
    | nil =>
      rw [kept, List.nil_append, long] at same
      have zero : c ∈ List.replicate k '0' := same ▸ List.mem_cons_self
      exact absurd (List.eq_of_mem_replicate zero) other
    | cons d ds =>
      rw [kept, long] at same
      obtain ⟨rfl, _⟩ := List.cons.inj same
      exact ⟨c, ds, rfl, other⟩

namespace Numeral

def positional (digits : List Char) (k : Int) : Numeral where
  whole := if k ≤ 0 then ['0'] else
    digits.take k.toNat ++ List.replicate (k.toNat - digits.length) '0'
  fraction :=
    let fraction := List.replicate (-k).toNat '0' ++ digits.drop k.toNat
    if fraction.isEmpty then ['0'] else fraction
  exponent := none

def scientific (digits : List Char) (e : Int) : Numeral where
  whole := digits.take 1
  fraction := digits.drop 1
  exponent := some (e < 0, zeroPad 2 (Nat.toDigits 10 e.natAbs))

theorem text_positional (digits : List Char) (k : Int) :
    (positional digits k).text = (Decimal.positional digits k).toList := by
  have some' : (positional digits k).fraction.isEmpty = false := by
    simp only [positional]
    split
    · rfl
    · rename_i more
      exact Bool.eq_false_iff.mpr more
  rw [text, fractionText, exponentText, some', Decimal.positional, String.toList_ofList]
  simp only [positional, Bool.false_eq_true, if_false, List.append_nil]

theorem text_scientific {digits : List Char} (some' : digits ≠ []) (e : Int) :
    (scientific digits e).text = (Decimal.scientific digits e).toList := by
  have mark : (scientific digits e).exponentText = (Decimal.exponentText e).toList := by
    simp only [scientific, exponentText, Decimal.exponentText, String.toList_append,
      String.toList_ofList]
    by_cases negative : e < 0
    · rw [if_pos (decide_eq_true negative), if_pos negative]
      rfl
    · rw [if_neg (by simpa using negative), if_neg negative]
      rfl
  rw [text, mark]
  cases digits with
  | nil => exact absurd rfl some'
  | cons d ds =>
    cases ds with
    | nil =>
      rw [Decimal.scientific, String.toList_append, String.toList_ofList]
      rfl
    | cons d' ds =>
      change _ = (String.ofList (d :: '.' :: d' :: ds) ++ Decimal.exponentText e).toList
      rw [String.toList_append, String.toList_ofList]
      rfl

variable {digits : List Char}

theorem wellFormed_positional (significant : Significant digits) (k : Int) :
    (positional digits k).WellFormed := by
  obtain ⟨all, c, cs, long, other⟩ := significant
  have part (n : Nat) : (digits.take n).all Char.isDigit ∧ (digits.drop n).all Char.isDigit := by
    rw [← Bool.and_eq_true, ← List.all_append, List.take_append_drop]
    exact all
  refine ⟨?_, ?_, ?_, ?_, .inl ?_⟩
  · simp only [positional]
    split
    · rfl
    · rw [List.all_append, (part _).1, all_zeros]
      rfl
  · simp only [positional]
    split
    · exact .inl rfl
    · rename_i positive
      obtain ⟨j, same⟩ : ∃ j, k.toNat = j + 1 := ⟨k.toNat - 1, by omega⟩
      rw [same, long]
      exact .inr ⟨c, _, rfl, other⟩
  · simp only [positional]
    split
    · rfl
    · rw [List.all_append, (part _).2, all_zeros]
      rfl
  · rintro negative ds ⟨⟩
  · simp only [positional]
    split
    · exact List.cons_ne_nil _ _
    · rename_i more
      simpa using more

theorem wellFormed_scientific (significant : Significant digits) (e : Int) :
    (scientific digits e).WellFormed := by
  obtain ⟨all, c, cs, rfl, other⟩ := significant
  rw [List.all_cons, Bool.and_eq_true] at all
  refine ⟨?_, .inr ⟨c, [], rfl, other⟩, all.2, ?_, .inr (Option.some_ne_none _)⟩
  · simp only [scientific, List.take_succ_cons, List.take_zero, List.all_cons, all.1]
    rfl
  · rintro negative ds ⟨⟩
    refine ⟨?_, all_zeroPad 2 (all_toDigits _)⟩
    rw [zeroPad]
    exact List.append_ne_nil_of_right_ne_nil _ Nat.toDigits_ne_nil

theorem value_positional (some' : digits ≠ []) (k : Int) :
    (positional digits k).scaled.value = digitsValue digits * 10 ^ (k - digits.length) := by
  have zeros : digitsValue ['0'] = 0 := by decide
  rcases le_or_gt k 0 with low | high
  · -- Zeros on both sides of the point precede the digits.
    have whole : (positional digits k).whole = ['0'] := if_pos low
    have fraction : (positional digits k).fraction =
        List.replicate (-k).toNat '0' ++ digits := by
      have first : k.toNat = 0 := by omega
      simp only [positional, first, List.drop_zero]
      exact if_neg (by simp [some'])
    have exponent : (0 : Int) - ((-k).toNat + digits.length : Nat) = k - digits.length := by omega
    simp only [scaled, Scaled.value, whole, fraction, digitsValue_append, digitsValue_zeros, zeros,
      Nat.zero_mul, Nat.zero_add, exponentValue, List.length_append, List.length_replicate]
    rw [show (positional digits k).exponent = none from rfl]
    simp only [exponent]
  · have before : List.replicate (-k).toNat '0' = [] := by
      rw [Int.toNat_of_nonpos (by omega)]
      rfl
    have whole : (positional digits k).whole =
        digits.take k.toNat ++ List.replicate (k.toNat - digits.length) '0' := if_neg (by omega)
    have exponent : (positional digits k).exponentValue = 0 := rfl
    rcases Nat.lt_or_ge k.toNat digits.length with inside | beyond
    · have fraction : (positional digits k).fraction = digits.drop k.toNat := by
        simp only [positional, before, List.nil_append]
        exact if_neg (by simpa using inside)
      have after : k.toNat - digits.length = 0 := by omega
      have place : (0 : Int) - (digits.length - k.toNat : Nat) = k - digits.length := by omega
      simp only [scaled, Scaled.value, whole, fraction, exponent, after, List.replicate_zero,
        List.append_nil, List.take_append_drop, List.length_drop, place]
    · -- No digit is left for the fraction, which gets a zero.
      have fraction : (positional digits k).fraction = ['0'] := by
        simp only [positional, before, List.nil_append]
        exact if_pos (by simpa using beyond)
      have place : k - digits.length = (k.toNat - digits.length : Nat) := by omega
      simp only [scaled, Scaled.value, whole, fraction, exponent, List.take_of_length_le beyond,
        digitsValue_append, digitsValue_zeros, zeros, place, List.length_replicate,
        List.length_singleton, Nat.add_zero, zpow_natCast]
      push_cast
      rw [zpow_neg_one]
      ring

theorem value_scientific (some' : digits ≠ []) (e : Int) :
    (scientific digits e).scaled.value = digitsValue digits * 10 ^ (e + 1 - digits.length) := by
  have exponent : (scientific digits e).exponentValue = e := by
    simp only [exponentValue, scientific, digitsValue_zeroPad, digitsValue_toDigits,
      decide_eq_true_eq]
    split <;> omega
  have some'' := List.length_pos_iff.mpr some'
  have place : e - (digits.length - 1 : Nat) = e + 1 - digits.length := by omega
  rw [scaled, exponent]
  simp only [scientific, Scaled.value, List.take_append_drop, List.length_drop, place]

end Numeral

def Scaled.numeral (d : Scaled) : Numeral :=
  let written := Nat.toDigits 10 d.digits
  let k := d.exponent + written.length
  let digits := dropTrailingZeros written
  if -4 < k && k ≤ 16 then .positional digits k else .scientific digits (k - 1)

theorem Scaled.significant {d : Scaled} (pos : 0 < d.digits) :
    Significant (dropTrailingZeros (Nat.toDigits 10 d.digits)) :=
  (significant_toDigits pos).dropTrailingZeros

theorem Scaled.wellFormed_numeral {d : Scaled} (pos : 0 < d.digits) : d.numeral.WellFormed := by
  simp only [numeral]
  split
  · exact Numeral.wellFormed_positional (significant pos) _
  · exact Numeral.wellFormed_scientific (significant pos) _

theorem Scaled.value_numeral {d : Scaled} (pos : 0 < d.digits) :
    d.numeral.scaled.value = d.value := by
  obtain ⟨c, cs, long, _⟩ := (significant pos).leading
  have some' : dropTrailingZeros (Nat.toDigits 10 d.digits) ≠ [] := by
    rw [long]
    exact List.cons_ne_nil _ _
  obtain ⟨z, same⟩ := dropTrailingZeros_append (Nat.toDigits 10 d.digits)
  have whole : d.value =
      digitsValue (dropTrailingZeros (Nat.toDigits 10 d.digits)) *
        10 ^ (d.exponent + (Nat.toDigits 10 d.digits).length -
          (dropTrailingZeros (Nat.toDigits 10 d.digits)).length) := by
    have digits := digitsValue_toDigits d.digits
    have length := congrArg List.length same
    rw [same, digitsValue_append, digitsValue_zeros, List.length_replicate, Nat.add_zero] at digits
    rw [List.length_append, List.length_replicate] at length
    have exponent : d.exponent + (Nat.toDigits 10 d.digits).length -
        (dropTrailingZeros (Nat.toDigits 10 d.digits)).length = z + d.exponent := by omega
    rw [exponent, zpow_add₀ (by norm_num), zpow_natCast, ← mul_assoc, Scaled.value]
    congr 1
    exact_mod_cast digits.symm
  rw [whole]
  simp only [numeral]
  split
  · exact Numeral.value_positional some' _
  · rw [Numeral.value_scientific some', sub_add_cancel]

theorem Scaled.text_numeral {d : Scaled} (pos : 0 < d.digits) :
    d.numeral.text =
      (let written := Nat.toDigits 10 d.digits
      let k := d.exponent + written.length
      let digits := dropTrailingZeros written
      if -4 < k && k ≤ 16 then positional digits k else scientific digits (k - 1)).toList := by
  obtain ⟨c, cs, long, _⟩ := (significant pos).leading
  have some' : dropTrailingZeros (Nat.toDigits 10 d.digits) ≠ [] := by
    rw [long]
    exact List.cons_ne_nil _ _
  simp only [numeral]
  split
  · exact Numeral.text_positional _ _
  · exact Numeral.text_scientific some' _

end RootFinding.Decimal
