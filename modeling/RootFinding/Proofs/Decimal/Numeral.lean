import Mathlib
import RootFinding.Json.Reader

namespace RootFinding.Decimal

def Stops (cs : List Char) : Prop := ∀ c ∈ cs.head?, c.isDigit = false

theorem takeWhile_digits {digits rest : List Char} (all : digits.all Char.isDigit)
    (stops : Stops rest) : (digits ++ rest).takeWhile Char.isDigit = digits := by
  rw [List.takeWhile_append_of_pos (List.all_eq_true.mp all)]
  cases rest with
  | nil => simp
  | cons c rest =>
    have none := stops c rfl
    simp [none]

theorem dropWhile_digits {digits rest : List Char} (all : digits.all Char.isDigit)
    (stops : Stops rest) : (digits ++ rest).dropWhile Char.isDigit = rest := by
  rw [List.dropWhile_append_of_pos (List.all_eq_true.mp all)]
  cases rest with
  | nil => rfl
  | cons c rest =>
    have none := stops c rfl
    simp [none]

theorem cons_of_leading {digits : List Char} (all : digits.all Char.isDigit)
    (leading : digits = ['0'] ∨ ∃ c cs, digits = c :: cs ∧ c ≠ '0') :
    ∃ c cs, digits = c :: cs ∧ c.isDigit := by
  rcases leading with zero | ⟨c, cs, long, _⟩
  · exact ⟨'0', [], zero, by decide⟩
  · rw [long, List.all_cons, Bool.and_eq_true] at all
    exact ⟨c, cs, long, all.1⟩

def Follows (rest : List Char) : Prop := ∀ c ∈ rest.head?, c = ',' ∨ c = '\n'

theorem Follows.stops {rest : List Char} (follows : Follows rest) : Stops rest := by
  intro c first
  rcases follows c first with rfl | rfl <;> rfl

open Json in
/-- The lengths of the parts of a number, which are found one after the other. -/
structure PartLengths (body rest : List Char) (whole fraction exponent : Nat) : Prop where
  first : wholeLength (body ++ rest) = whole
  second : fractionLength ((body ++ rest).drop whole) = fraction
  third : exponentLength ((body ++ rest).drop (whole + fraction)) = exponent
  length : whole + fraction + exponent = body.length

open Json in
theorem takeMinus_append (negative : Bool) {body : List Char}
    (digit : ∃ c cs, body = c :: cs ∧ c.isDigit) (rest : List Char) :
    takeMinus ((if negative then ['-'] else []) ++ (body ++ rest)) = (negative, body ++ rest) := by
  cases negative with
  | true => rfl
  | false =>
    obtain ⟨c, cs, rfl, digit⟩ := digit
    rw [takeMinus]
    · rfl
    · rintro _ ⟨⟩
      exact absurd digit (by decide)

open Json in
theorem readNumber_parts [Limits] (negative : Bool) {body rest : List Char}
    {whole fraction exponent : Nat} (digit : ∃ c cs, body = c :: cs ∧ c.isDigit)
    (some' : whole ≠ 0) (parts : PartLengths body rest whole fraction exponent) (position : Nat) :
    ∃ after, readNumber ⟨position, (if negative then ['-'] else []) ++ (body ++ rest)⟩ =
      if fraction + exponent = 0 then
        ((intOfDigits negative body).mapError .fault).map fun i => (.int i, ⟨after, rest⟩)
      else match unsignedFloat? negative body with
        | some v => .ok (.float v, ⟨after, rest⟩)
        | none => Cursor.fail ⟨position, (if negative then ['-'] else []) ++ (body ++ rest)⟩
            .expectedValue := by
  obtain ⟨first, second, third, length⟩ := parts
  have some'' : (whole == 0) = false := beq_eq_false_iff_ne.mpr some'
  have all : (body ++ rest).take (whole + fraction + exponent) = body := by
    rw [length, List.take_left]
  have integral (none : fraction + exponent = 0) : (body ++ rest).take whole = body := by
    have same : whole = body.length := by omega
    rw [same, List.take_left]
  generalize minus : (if negative then ['-'] else []) = sign
  have split := takeMinus_append negative digit rest
  have after : (sign ++ (body ++ rest)).drop
      ((sign ++ (body ++ rest)).length - (body ++ rest).length + whole + fraction + exponent) =
        rest := by
    have next : (sign ++ (body ++ rest)).length - (body ++ rest).length + whole + fraction +
        exponent = sign.length + body.length := by
      rw [List.length_append]
      omega
    rw [next, ← List.drop_drop, List.drop_left, List.drop_left]
  rw [minus] at split
  refine ⟨position + ((sign ++ (body ++ rest)).length - (body ++ rest).length + whole + fraction +
    exponent), ?_⟩
  simp only [readNumber, split, first, second, third, some'', all, Bool.false_eq_true, if_false,
    Cursor.advance, after, beq_iff_eq]
  split
  · rw [integral ‹_›]
    cases intOfDigits negative body <;> rfl
  · rfl

/-- The parts of a number; a fraction without digits has no point. -/
structure Numeral where
  whole : List Char
  fraction : List Char
  exponent : Option (Bool × List Char)

namespace Numeral

def fractionText (n : Numeral) : List Char :=
  if n.fraction.isEmpty then [] else '.' :: n.fraction

def exponentText (n : Numeral) : List Char :=
  match n.exponent with
  | none => []
  | some (negative, digits) => 'e' :: (if negative then '-' else '+') :: digits

def text (n : Numeral) : List Char := n.whole ++ (n.fractionText ++ n.exponentText)

def exponentValue (n : Numeral) : Int :=
  match n.exponent with
  | none => 0
  | some (negative, digits) =>
    if negative then -(digitsValue digits : Int) else digitsValue digits

def scaled (n : Numeral) : Scaled :=
  ⟨digitsValue (n.whole ++ n.fraction), n.exponentValue - n.fraction.length⟩

/-- There are digits in each part, the first of several is not zero, and it is no integer. -/
structure WellFormed (n : Numeral) : Prop where
  whole : n.whole.all Char.isDigit
  leading : n.whole = ['0'] ∨ ∃ c cs, n.whole = c :: cs ∧ c ≠ '0'
  fraction : n.fraction.all Char.isDigit
  exponent : ∀ negative digits, n.exponent = some (negative, digits) →
    digits ≠ [] ∧ digits.all Char.isDigit
  real : n.fraction ≠ [] ∨ n.exponent ≠ none

variable {n : Numeral}

theorem stops_exponentText (n : Numeral) {rest : List Char} (follows : Follows rest) :
    Stops (n.exponentText ++ rest) := by
  rw [exponentText]
  split
  · exact follows.stops
  · rintro c ⟨⟩
    rfl

theorem stops_fractionText (n : Numeral) {rest : List Char} (follows : Follows rest) :
    Stops (n.fractionText ++ (n.exponentText ++ rest)) := by
  rw [fractionText]
  split
  · exact n.stops_exponentText follows
  · rintro c ⟨⟩
    rfl

open Json in
theorem wholeLength_eq {digits rest : List Char} (all : digits.all Char.isDigit)
    (leading : digits = ['0'] ∨ ∃ c cs, digits = c :: cs ∧ c ≠ '0') (stops : Stops rest) :
    wholeLength (digits ++ rest) = digits.length := by
  rcases leading with zero | ⟨c, cs, long, other⟩
  · rw [zero]
    rfl
  · have kept := takeWhile_digits all stops
    rw [long] at kept ⊢
    unfold wholeLength
    split
    · rename_i same
      cases same
      exact absurd rfl other
    · rw [kept]

open Json in
theorem fractionLength_eq (wellFormed : n.WellFormed) {rest : List Char} (follows : Follows rest) :
    fractionLength (n.fractionText ++ (n.exponentText ++ rest)) = n.fractionText.length := by
  have digits := takeWhile_digits wellFormed.fraction (n.stops_exponentText follows)
  rw [fractionText]
  cases parts : n.fraction with
  | nil =>
    obtain ⟨⟨negative, ds⟩, some'⟩ :=
      Option.ne_none_iff_exists'.mp (wellFormed.real.resolve_left (not_not.mpr parts))
    rw [exponentText, some']
    rfl
  | cons c cs =>
    rw [parts] at digits
    simp only [List.isEmpty_cons, Bool.false_eq_true, if_false, List.cons_append, fractionLength]
    rw [← List.cons_append, digits]
    rfl

open Json in
theorem exponentLength_eq (wellFormed : n.WellFormed) {rest : List Char} (follows : Follows rest) :
    exponentLength (n.exponentText ++ rest) = n.exponentText.length := by
  rw [exponentText]
  split
  · cases rest with
    | nil => rfl
    | cons c rest => rcases follows c rfl with rfl | rfl <;> rfl
  · rename_i negative ds some'
    obtain ⟨more, all⟩ := wellFormed.exponent negative ds some'
    have digits := takeWhile_digits all follows.stops
    have sign : takeSign ((if negative then '-' else '+') :: (ds ++ rest)) =
        (negative, ds ++ rest) := by
      cases negative <;> rfl
    simp only [List.cons_append, exponentLength, sign, digits]
    rw [if_pos (by decide)]
    cases ds with
    | nil => exact absurd rfl more
    | cons d ds =>
      simp only [List.length_cons]
      omega

theorem exponentPart?_eq (wellFormed : n.WellFormed) :
    exponentPart? n.exponentText = some n.exponentValue := by
  rw [exponentText, exponentValue]
  cases part : n.exponent with
  | none => rfl
  | some both =>
    obtain ⟨negative, ds⟩ := both
    obtain ⟨more, all⟩ := wellFormed.exponent negative ds part
    have sign : takeSign ((if negative then '-' else '+') :: ds) = (negative, ds) := by
      cases negative <;> rfl
    simp only [exponentPart?, sign, all]
    simp [more]

theorem WellFormed.whole_cons (wellFormed : n.WellFormed) :
    ∃ c cs, n.whole = c :: cs ∧ c.isDigit :=
  cons_of_leading wellFormed.whole wellFormed.leading

theorem unsignedFloat?_text (wellFormed : n.WellFormed) (negative : Bool) :
    unsignedFloat? negative n.text =
      some (toFloat negative n.scaled.digits n.scaled.exponent) := by
  have follows : Follows [] := fun _ none => nomatch none
  have first := n.stops_fractionText follows
  have second := n.stops_exponentText follows
  rw [List.append_nil] at first second
  have whole : n.whole.isEmpty = false := by
    obtain ⟨c, cs, long, _⟩ := wellFormed.whole_cons
    rw [long]
    rfl
  have exponent := n.exponentPart?_eq wellFormed
  simp only [unsignedFloat?, takeDigits, text, takeWhile_digits wellFormed.whole first,
    dropWhile_digits wellFormed.whole first, whole, Bool.false_and, Bool.false_eq_true, if_false]
  rw [fractionText]
  cases parts : n.fraction with
  | nil =>
    obtain ⟨⟨sign, ds⟩, some''⟩ :=
      Option.ne_none_iff_exists'.mp (wellFormed.real.resolve_left (not_not.mpr parts))
    have mark : n.exponentText = 'e' :: (if sign then '-' else '+') :: ds := by
      rw [exponentText, some'']
    rw [mark] at exponent ⊢
    change (exponentPart? ('e' :: (if sign then '-' else '+') :: ds)).map (fun e =>
      toFloat negative (digitsValue (n.whole ++ [])) (e - ([] : List Char).length)) = _
    rw [exponent]
    simp only [Option.map_some, scaled, parts]
  | cons c cs =>
    have digits := takeWhile_digits wellFormed.fraction second
    have after := dropWhile_digits wellFormed.fraction second
    rw [parts] at digits after
    simp only [List.isEmpty_cons, Bool.false_eq_true, if_false, List.cons_append]
    rw [← List.cons_append, digits, after, exponent]
    simp only [Option.map_some, scaled, parts]

theorem fractionText_pos (n : Numeral) (some' : n.fraction ≠ []) : n.fractionText.length ≠ 0 := by
  rw [fractionText]
  cases parts : n.fraction with
  | nil => exact absurd parts some'
  | cons c cs => exact Nat.succ_ne_zero _

theorem exponentText_pos (n : Numeral) (some' : n.exponent ≠ none) : n.exponentText.length ≠ 0 := by
  rw [exponentText]
  cases part : n.exponent with
  | none => exact absurd part some'
  | some both => exact Nat.succ_ne_zero _

open Json in
theorem readNumber_text [Limits] (wellFormed : n.WellFormed) (negative : Bool) {rest : List Char}
    (follows : Follows rest) (position : Nat) :
    ∃ after, readNumber ⟨position, (if negative then ['-'] else []) ++ (n.text ++ rest)⟩ =
      .ok (.float (toFloat negative n.scaled.digits n.scaled.exponent), ⟨after, rest⟩) := by
  have spread : n.text ++ rest = n.whole ++ (n.fractionText ++ (n.exponentText ++ rest)) := by
    simp only [text, List.append_assoc]
  have whole : wholeLength (n.text ++ rest) = n.whole.length := by
    rw [spread]
    exact wholeLength_eq wellFormed.whole wellFormed.leading (n.stops_fractionText follows)
  have fraction : fractionLength ((n.text ++ rest).drop n.whole.length) =
      n.fractionText.length := by
    rw [spread, List.drop_left]
    exact fractionLength_eq wellFormed follows
  have exponent : exponentLength ((n.text ++ rest).drop
      (n.whole.length + n.fractionText.length)) = n.exponentText.length := by
    rw [spread, ← List.drop_drop, List.drop_left, List.drop_left]
    exact exponentLength_eq wellFormed follows
  have length : n.whole.length + n.fractionText.length + n.exponentText.length =
      n.text.length := by
    simp only [text, List.length_append, Nat.add_assoc]
  have digit : ∃ c cs, n.text = c :: cs ∧ c.isDigit := by
    obtain ⟨c, cs, long, digit⟩ := wellFormed.whole_cons
    exact ⟨c, cs ++ (n.fractionText ++ n.exponentText), by rw [text, long, List.cons_append], digit⟩
  have real : n.fractionText.length + n.exponentText.length ≠ 0 := by
    have either := wellFormed.real.imp n.fractionText_pos n.exponentText_pos
    omega
  have some' : n.whole.length ≠ 0 := by
    obtain ⟨c, cs, long, _⟩ := wellFormed.whole_cons
    rw [long]
    exact Nat.succ_ne_zero _
  obtain ⟨after, read⟩ :=
    readNumber_parts negative digit some' ⟨whole, fraction, exponent, length⟩ position
  rw [if_neg real, unsignedFloat?_text wellFormed] at read
  exact ⟨after, read⟩

end Numeral

end RootFinding.Decimal
