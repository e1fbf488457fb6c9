import RootFinding.Proofs.Decimal.Rounding
import RootFinding.Proofs.Decimal.Text
import RootFinding.Proofs.Json.Fits
import RootFinding.Json.Printer

namespace RootFinding

open Float.Model Float.Model.UnpackedFloat Binary64

namespace Decimal

variable {v : Float} {s : Sign} {m : Nat} {e : ℤ} {pos : 0 < m}

theorem isNaN_of_finite (known : decoded v = .finite s m e pos) : v.isNaN = false := by
  rw [isNaN_eq, known]
  rfl

theorem isInf_of_finite (known : decoded v = .finite s m e pos) : v.isInf = false := by
  change (decoded v).isInf = false
  rw [known]
  rfl

theorem toList_signed (negative : Bool) (text : String) :
    (signed negative text).toList = (if negative then ['-'] else []) ++ text.toList := by
  cases negative with
  | true =>
    rw [signed, if_pos rfl, String.toList_append]
    rfl
  | false => rfl

theorem shortestText_eq (known : decoded v = .finite s m e pos) :
    (shortestText v).toList =
      (if s == .negative then ['-'] else []) ++ (Binary.ofParts m e).shortest.numeral.text := by
  have parts : Binary.ofFloat v = .ofParts m e := (ofFloat_eq known).1
  have sign := (ofFloat_eq known).2
  have nonzero : (v == 0.0) = false := by
    change ((decoded v).compare (decoded 0.0) == some .eq) = false
    rw [known]
    cases s <;> rfl
  have digits : 0 < (Binary.ofParts m e).shortest.digits :=
    (Binary.within_shortest pos e).digits_pos pos (decoded_canonical known).least
  rw [shortestText, if_neg (Bool.eq_false_iff.mp (isNaN_of_finite known)),
    if_neg (Bool.eq_false_iff.mp (isInf_of_finite known)),
    if_neg (Bool.eq_false_iff.mp nonzero), toList_signed, parts, sign, Scaled.text_numeral digits]

end Decimal

namespace Json

open Decimal Numeral

theorem readValue_number [Limits] (level : Nat) (negative : Bool) {c : Char} (digit : c.isDigit)
    (cs : List Char) (position fuel : Nat) :
    readValue level (fuel + 1) ⟨position, (if negative then ['-'] else []) ++ c :: cs⟩ =
      readNumber ⟨position, (if negative then ['-'] else []) ++ c :: cs⟩ := by
  cases negative with
  | true =>
    simp only [if_true, List.cons_append, List.nil_append, readValue]
    split
    all_goals first
      | rename_i same
        cases same
        exact absurd digit (by decide)
      | rename_i same
        cases same
      | rfl
  | false =>
    simp only [Bool.false_eq_true, if_false, List.nil_append, readValue]
    split
    all_goals first
      | rename_i same
        cases same
        exact absurd digit (by decide)
      | rfl

theorem readValue_numeral [Limits] (level : Nat) {n : Numeral} (wellFormed : n.WellFormed)
    (negative : Bool) {rest : List Char} (follows : Follows rest) (position fuel : Nat) :
    ∃ after, readValue level (fuel + 1)
        ⟨position, (if negative then ['-'] else []) ++ n.text ++ rest⟩ =
      .ok (.float (Decimal.toFloat negative n.scaled.digits n.scaled.exponent), ⟨after, rest⟩) := by
  obtain ⟨c, cs, long, digit⟩ := wellFormed.whole_cons
  have spread : n.text ++ rest = c :: (cs ++ (n.fractionText ++ n.exponentText) ++ rest) := by
    rw [text, long]
    rfl
  have number := readNumber_text wellFormed negative follows position
  rw [spread, ← readValue_number level negative digit _ position fuel, ← spread] at number
  rw [List.append_assoc]
  exact number

inductive NumberText : Float → List Char → Prop
  | undefined : NumberText (0.0 / 0.0) "NaN".toList
  | infinite : NumberText (1.0 / 0.0) "Infinity".toList
  | negativeInfinite : NumberText (-(1.0 / 0.0)) "-Infinity".toList
  | numeral (negative : Bool) (n : Numeral) (wellFormed : n.WellFormed) :
      NumberText (Decimal.toFloat negative n.scaled.digits n.scaled.exponent)
        ((if negative then ['-'] else []) ++ n.text)

theorem numberText (v : Float) : NumberText v (floatText v) := by
  cases known : decoded v with
  | notANumber =>
    obtain rfl : v = 0.0 / 0.0 := decoded_injective known
    exact .undefined
  | infinity s =>
    cases s with
    | negative =>
      obtain rfl : v = -(1.0 / 0.0) := decoded_injective known
      exact .negativeInfinite
    | positive =>
      obtain rfl : v = 1.0 / 0.0 := decoded_injective known
      exact .infinite
  | zero s =>
    have wellFormed : (Numeral.mk ['0'] ['0'] none).WellFormed :=
      ⟨rfl, .inl rfl, rfl, fun _ _ none => (nomatch none), .inl (List.cons_ne_nil _ _)⟩
    have digits : (Numeral.mk ['0'] ['0'] none).scaled.digits = 0 := rfl
    have number (negative : Bool) := NumberText.numeral negative _ wellFormed
    simp only [digits, Decimal.toFloat, beq_self_eq_true, if_true] at number
    cases s with
    | negative =>
      obtain rfl : v = -0.0 := decoded_injective known
      exact number true
    | positive =>
      obtain rfl : v = 0.0 := decoded_injective known
      exact number false
  | finite s m e pos =>
    have within := Binary.within_shortest pos e
    have digits := within.digits_pos pos (decoded_canonical known).least
    have text : floatText v =
        (if s == .negative then ['-'] else []) ++ (Binary.ofParts m e).shortest.numeral.text := by
      rw [floatText, if_neg (Bool.eq_false_iff.mp (isNaN_of_finite known)),
        if_neg (Bool.eq_false_iff.mp (isInf_of_finite known)), shortestText_eq known]
    rw [← Scaled.value_numeral digits] at within
    rw [text]
    have number := NumberText.numeral (s == .negative) _ (Scaled.wellFormed_numeral digits)
    rwa [toFloat_of_within known within] at number

theorem readValue_floatText [Limits] (level : Nat) (v : Float) {rest : List Char}
    (follows : Follows rest) (position fuel : Nat) :
    ∃ after, readValue level (fuel + 1) ⟨position, floatText v ++ rest⟩ =
      .ok (.float v, ⟨after, rest⟩) := by
  have number := numberText v
  generalize floatText v = text at number
  cases number with
  | undefined | infinite | negativeInfinite => exact ⟨_, rfl⟩
  | numeral negative n wellFormed =>
    exact readValue_numeral level wellFormed negative follows position fuel

theorem readNumber_digits [Limits] {digits : List Char} (all : digits.all Char.isDigit)
    (few : Limits.admitsDigits digits.length)
    (leading : digits = ['0'] ∨ ∃ c cs, digits = c :: cs ∧ c ≠ '0') (negative : Bool)
    {rest : List Char} (follows : Follows rest) (position : Nat) :
    ∃ after, readNumber ⟨position, (if negative then ['-'] else []) ++ (digits ++ rest)⟩ =
      .ok (.int (Decimal.withSign negative (digitsValue digits)), ⟨after, rest⟩) := by
  have whole := wholeLength_eq all leading follows.stops
  have fraction : fractionLength rest = 0 := by
    cases rest with
    | nil => rfl
    | cons c rest => rcases follows c rfl with rfl | rfl <;> rfl
  have exponent : exponentLength rest = 0 := by
    cases rest with
    | nil => rfl
    | cons c rest => rcases follows c rfl with rfl | rfl <;> rfl
  have digit := cons_of_leading all leading
  have some' : digits.length ≠ 0 := by
    obtain ⟨c, cs, rfl, _⟩ := digit
    exact Nat.succ_ne_zero _
  have parts : PartLengths digits rest digits.length 0 0 := by
    refine ⟨whole, ?_, ?_, rfl⟩
    · rw [List.drop_left, fraction]
    · rw [Nat.add_zero, List.drop_left, exponent]
  have read : intOfDigits negative digits = .ok (Decimal.withSign negative (digitsValue digits)) :=
    if_pos few
  obtain ⟨after, number⟩ := readNumber_parts negative digit some' parts position
  rw [if_pos rfl, read] at number
  exact ⟨after, number⟩

theorem readValue_intText [Limits] (level : Nat) {i : Int} (few : intFits i) {rest : List Char}
    (follows : Follows rest) (position fuel : Nat) :
    ∃ after, readValue level (fuel + 1) ⟨position, intText i ++ rest⟩ =
      .ok (.int i, ⟨after, rest⟩) := by
  have leading : Nat.toDigits 10 i.natAbs = ['0'] ∨
      ∃ c cs, Nat.toDigits 10 i.natAbs = c :: cs ∧ c ≠ '0' := by
    rcases Nat.eq_zero_or_pos i.natAbs with zero | pos
    · rw [zero]
      exact .inl rfl
    · exact .inr (significant_toDigits pos).leading
  have text : intText i = (if decide (i < 0) then ['-'] else []) ++ Nat.toDigits 10 i.natAbs := by
    rw [intText]
    by_cases negative : i < 0
    · rw [if_pos negative, if_pos (decide_eq_true negative)]
      rfl
    · rw [if_neg negative, if_neg (by simpa using negative)]
      rfl
  have number :=
    readNumber_digits (all_toDigits i.natAbs) few leading (decide (i < 0)) follows position
  have value : Decimal.withSign (decide (i < 0)) i.natAbs = i := by
    simp only [Decimal.withSign, decide_eq_true_eq]
    split <;> omega
  rw [digitsValue_toDigits, value] at number
  obtain ⟨c, cs, long, digit⟩ := cons_of_leading (all_toDigits i.natAbs) leading
  rw [long, List.cons_append, ← readValue_number level _ digit _ position fuel, ← List.cons_append,
    ← long] at number
  rw [text, List.append_assoc]
  exact number

end Json

end RootFinding
