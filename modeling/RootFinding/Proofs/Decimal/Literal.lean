import RootFinding.Proofs.Decimal.Groups

namespace RootFinding.Decimal

open Text

def Padded (s : String) (text : List Char) : Prop :=
  ∃ before after, before.all isBlank ∧ after.all isBlank ∧ s.toList = before ++ text ++ after

/-- A text with an optional sign, whether it is a minus, and what follows it. -/
inductive Signed : List Char → Bool → List Char → Prop
  | none (body : List Char) : Signed body false body
  | plus (body : List Char) : Signed ('+' :: body) false body
  | minus (body : List Char) : Signed ('-' :: body) true body

/-- Digits between blanks, with an optional sign, as many as the limits admit. -/
inductive IntegerLiteral [Limits] (s : String) : Int → Prop
  | intro {text body : List Char} {negative : Bool} {ds : List Nat} (padded : Padded s text)
      (sign : Signed text negative body) (digits : Digits body ds) (some' : ds ≠ [])
      (few : Limits.admitsDigits ds.length) : IntegerLiteral s (withSign negative (number ds))

section Signs

variable {s : String} {t text body w : List Char} {negative : Bool}

theorem padded_trimBlank (s : String) : Padded s (trimBlank s.toList) := by
  obtain ⟨before, after, blank, blankToo, same⟩ := trimBlank_spec s.toList
  exact ⟨before, after, blank, blankToo, same⟩

theorem Padded.trimBlank_eq (padded : Padded s text)
    (none : ∀ c ∈ text, isBlank c = false) : trimBlank s.toList = text := by
  obtain ⟨before, after, blank, blankToo, same⟩ := padded
  rw [same, Text.trimBlank_eq blank blankToo none]

theorem takeSign_of_head (first : ∀ c ∈ t.head?, c ≠ '-' ∧ c ≠ '+') :
    takeSign t = (false, t) := by
  cases t with
  | nil => rfl
  | cons c t =>
    obtain ⟨minus, plus⟩ := first c rfl
    rw [takeSign]
    · exact fun _ same => minus (List.cons.inj same).1
    · exact fun _ same => plus (List.cons.inj same).1

theorem asciiDigit_eq_minus {c : Char} : asciiDigit c = '-' ↔ c = '-' :=
  asciiDigit_eq_iff rfl (by decide +kernel)

theorem asciiDigit_eq_plus {c : Char} : asciiDigit c = '+' ↔ c = '+' :=
  asciiDigit_eq_iff rfl (by decide +kernel)

theorem exists_signed (text : List Char) : ∃ negative body, Signed text negative body ∧
    takeSign (text.map asciiDigit) = (negative, body.map asciiDigit) := by
  cases text with
  | nil => exact ⟨false, [], .none [], rfl⟩
  | cons c text =>
    by_cases minus : c = '-'
    · subst minus
      exact ⟨true, text, .minus text, by rw [List.map_cons, asciiDigit_eq_minus.mpr rfl]; rfl⟩
    · by_cases plus : c = '+'
      · subst plus
        exact ⟨false, text, .plus text, by rw [List.map_cons, asciiDigit_eq_plus.mpr rfl]; rfl⟩
      · refine ⟨false, c :: text, .none _, takeSign_of_head ?_⟩
        rintro _ ⟨⟩
        exact ⟨minus ∘ asciiDigit_eq_minus.mp, plus ∘ asciiDigit_eq_plus.mp⟩

theorem Signed.takeSign_eq (sign : Signed text negative body)
    (first : ∀ c ∈ body.head?, c ≠ '-' ∧ c ≠ '+') :
    takeSign (text.map asciiDigit) = (negative, body.map asciiDigit) := by
  cases sign with
  | none =>
    apply takeSign_of_head
    intro c head
    rw [List.head?_map] at head
    obtain ⟨a, inside, rfl⟩ := Option.mem_map.mp head
    exact (first a inside).imp (· ∘ asciiDigit_eq_minus.mp) (· ∘ asciiDigit_eq_plus.mp)
  | plus => rw [List.map_cons, asciiDigit_eq_plus.mpr rfl]; rfl
  | minus => rw [List.map_cons, asciiDigit_eq_minus.mpr rfl]; rfl

theorem Signed.not_blank (sign : Signed text negative body) (none : ∀ c ∈ body, isBlank c = false) :
    ∀ c ∈ text, isBlank c = false := by
  cases sign with
  | none => exact none
  | plus | minus => exact List.forall_mem_cons.mpr ⟨rfl, none⟩

theorem joinGroups_takeSign (t : List Char) :
    (joinGroups ' ' t).map takeSign =
      (joinGroups ' ' (takeSign t).2).map fun w => ((takeSign t).1, w) := by
  cases t with
  | nil => rfl
  | cons c t =>
    by_cases known : c = '-' ∨ c = '+'
    · rcases known with rfl | rfl
      · rw [joinGroups_cons (by decide), joinGroups_previous (p := '-') (q := ' ') rfl,
          Option.map_map]
        rfl
      · rw [joinGroups_cons (by decide), joinGroups_previous (p := '+') (q := ' ') rfl,
          Option.map_map]
        rfl
    · rw [not_or] at known
      have none (w : List Char) : takeSign (c :: w) = (false, c :: w) := by
        apply takeSign_of_head
        rintro _ ⟨⟩
        exact known
      rw [none]
      by_cases mark : c = '_'
      · rw [mark]
        rfl
      · rw [joinGroups_cons mark, Option.map_map, Option.map_map]
        exact congrArg (Option.map · _) (funext none)

end Signs

section Integers

variable {s : String} {body : List Char} {negative : Bool} {i : Int}

theorem not_sign_of_isDigit {c : Char} {d : Nat} (digit : IsDigit c d) : c ≠ '-' ∧ c ≠ '+' :=
  ⟨digit.ne (by decide +kernel), digit.ne (by decide +kernel)⟩

theorem Digits.not_sign {ds : List Nat} (digits : Digits body ds) (some' : ds ≠ []) :
    ∀ c ∈ body.head?, c ≠ '-' ∧ c ≠ '+' := by
  obtain ⟨c, d, cs, rfl, digit⟩ := digits.exists_cons some'
  rintro _ ⟨⟩
  exact not_sign_of_isDigit digit

theorem filter_joinGroups {w : List Char} :
    (joinGroups ' ' (body.map asciiDigit)).filter isDigits = some w ↔
      ∃ ds, Digits body ds ∧ ds ≠ [] ∧ w = ascii ds := by
  rw [Option.filter_eq_some_iff, isDigits, Bool.and_eq_true, Bool.not_eq_true',
    List.isEmpty_eq_false_iff]
  constructor
  · rintro ⟨joined, some', all⟩
    rw [← List.append_nil w] at joined
    obtain ⟨cs, ds, t, rfl, digits, rfl, none⟩ := exists_digits all (by rintro _ ⟨⟩) joined
    obtain rfl := List.map_eq_nil_iff.mp (eq_nil_of_joinGroups none)
    exact ⟨ds, by rwa [List.append_nil], fun none => some' (by rw [none]; rfl), rfl⟩
  · rintro ⟨ds, digits, some', rfl⟩
    have joined := digits.joinGroups (show joinGroups ' ' [] = some [] from rfl)
    rw [List.append_nil, List.append_nil] at joined
    exact ⟨joined, some' ∘ List.map_eq_nil_iff.mp, all_ascii digits.small⟩

theorem intDigits?_eq_some {w : List Char} :
    intDigits? s = some (negative, w) ↔ ∃ text body ds, Padded s text ∧
      Signed text negative body ∧ Digits body ds ∧ ds ≠ [] ∧ w = ascii ds := by
  change ((joinGroups ' ' (takeSign _).2).filter isDigits).map ((takeSign _).1, ·) = _ ↔ _
  constructor
  · intro read
    obtain ⟨sign, body, signed, same⟩ := exists_signed (trimBlank s.toList)
    obtain ⟨v, kept, pair⟩ := Option.map_eq_some_iff.mp read
    rw [same] at kept pair
    cases pair
    exact ⟨_, body, _, padded_trimBlank s, signed, (filter_joinGroups.mp kept).choose_spec⟩
  · rintro ⟨text, body, ds, padded, sign, digits, some', rfl⟩
    rw [padded.trimBlank_eq (sign.not_blank digits.not_blank),
      sign.takeSign_eq (digits.not_sign some'),
      filter_joinGroups.mpr ⟨ds, digits, some', rfl⟩]
    rfl

theorem intOfDigits_eq_ok [Limits] {w : List Char} :
    intOfDigits negative w = .ok i ↔
      Limits.admitsDigits w.length ∧ withSign negative (digitsValue w) = i := by
  rw [intOfDigits]
  split
  · rename_i few
    simp [few]
  · rename_i many
    simp [many]

theorem readInt_eq_ok [Limits] : readInt s = .ok i ↔ IntegerLiteral s i := by
  have length (ds : List Nat) : (ascii ds).length = ds.length := List.length_map ..
  rw [readInt]
  constructor
  · intro read
    split at read
    · rename_i negative w found
      obtain ⟨text, body, ds, padded, sign, digits, some', rfl⟩ := intDigits?_eq_some.mp found
      obtain ⟨few, rfl⟩ := intOfDigits_eq_ok.mp read
      rw [digitsValue_ascii digits.small]
      exact .intro padded sign digits some' (length ds ▸ few)
    · cases read
  · rintro ⟨padded, sign, digits, some', few⟩
    rw [intDigits?_eq_some.mpr ⟨_, _, _, padded, sign, digits, some', rfl⟩]
    exact intOfDigits_eq_ok.mpr
      ⟨(length _).symm ▸ few, congrArg (withSign _) (digitsValue_ascii digits.small)⟩

example : readInt " -1_000 " = .ok (-1000) := rfl

example : readInt "1__0" = .error (.notIntText "1__0") := rfl

end Integers

end RootFinding.Decimal
