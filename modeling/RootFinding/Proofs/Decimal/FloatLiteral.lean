import RootFinding.Proofs.Decimal.Literal
import RootFinding.Proofs.Decimal.Rounding

namespace RootFinding.Decimal

open Text Binary64 Float.Model Float.Model.UnpackedFloat

/-- Digits with an optional point among them, those before it and those after it. -/
inductive Mantissa : List Char → List Nat → List Nat → Prop
  | whole {cs : List Char} {ds : List Nat} (digits : Digits cs ds) : Mantissa cs ds []
  | pointed {cs cs' : List Char} {ds ds' : List Nat} (whole : Digits cs ds)
      (fraction : Digits cs' ds') : Mantissa (cs ++ '.' :: cs') ds ds'

inductive Exponent : List Char → Int → Prop
  | none : Exponent [] 0
  | marked {mark : Char} {text body : List Char} {negative : Bool} {ds : List Nat}
      (known : mark = 'e' ∨ mark = 'E') (sign : Signed text negative body)
      (digits : Digits body ds) (some' : ds ≠ []) :
      Exponent (mark :: text) (withSign negative (number ds))

/-- A decimal, correctly rounded, or a word in small or capital letters. -/
inductive UnsignedLiteral (s : Sign) : List Char → UnpackedFloat → Prop
  | decimal {cs es : List Char} {ds ds' : List Nat} {e : Int} {u : UnpackedFloat}
      (mantissa : Mantissa cs ds ds') (some' : ds ++ ds' ≠ []) (exponent : Exponent es e)
      (correct : Correct s (number (ds ++ ds') * 10 ^ (e - ds'.length)) u) :
      UnsignedLiteral s (cs ++ es) u
  | infinite {cs : List Char} (word : cs.map Char.toLower = "inf".toList ∨
      cs.map Char.toLower = "infinity".toList) : UnsignedLiteral s cs (.infinity s)
  | undefined {cs : List Char} (word : cs.map Char.toLower = "nan".toList) :
      UnsignedLiteral s cs .notANumber

inductive FloatLiteral (s : String) (v : Float) : Prop
  | intro {text body : List Char} {negative : Bool} (padded : Padded s text)
      (sign : Signed text negative body)
      (literal : UnsignedLiteral (signFor negative) body (decoded v)) : FloatLiteral s v

section Decimals

variable {s : String} {v : Float} {t body w : List Char} {negative : Bool} {e : Int}

theorem exponentPart?_head (value : exponentPart? w = some e) :
    ∀ c ∈ w.head?, c = 'e' ∨ c = 'E' := by
  cases w with
  | nil => exact nofun
  | cons c w =>
    rintro _ ⟨⟩
    rw [exponentPart?] at value
    split at value
    · rename_i mark
      rwa [Bool.or_eq_true, beq_iff_eq, beq_iff_eq] at mark
    · cases value

def joinedInt? (negative : Bool) (w : List Char) : Option Int :=
  if w.isEmpty || !w.all Char.isDigit then none else some (withSign negative (digitsValue w))

theorem bind_joinedInt? :
    (joinGroups ' ' (body.map asciiDigit)).bind (joinedInt? negative) = some e ↔
      ∃ ds, Digits body ds ∧ ds ≠ [] ∧ withSign negative (number ds) = e := by
  have value (w : List Char) :
      joinedInt? negative w = some e ↔ isDigits w ∧ withSign negative (digitsValue w) = e := by
    rw [joinedInt?, isDigits]
    cases w.isEmpty <;> cases w.all Char.isDigit <;> simp
  rw [Option.bind_eq_some_iff]
  constructor
  · rintro ⟨w, joined, read⟩
    obtain ⟨all, rfl⟩ := (value w).mp read
    obtain ⟨ds, digits, some', rfl⟩ :=
      filter_joinGroups.mp (Option.filter_eq_some_iff.mpr ⟨joined, all⟩)
    exact ⟨ds, digits, some', congrArg _ (digitsValue_ascii digits.small).symm⟩
  · rintro ⟨ds, digits, some', rfl⟩
    obtain ⟨joined, all⟩ := Option.filter_eq_some_iff.mp
      (filter_joinGroups.mpr ⟨ds, digits, some', rfl⟩)
    exact ⟨_, joined, (value _).mpr ⟨all, congrArg _ (digitsValue_ascii digits.small)⟩⟩

theorem bind_exponentPart? {mark : Char} (known : mark = 'e' ∨ mark = 'E') (t : List Char) :
    (joinGroups ' ' (mark :: t)).bind exponentPart? =
      (joinGroups ' ' (takeSign t).2).bind (joinedInt? (takeSign t).1) := by
  have other : mark.isDigit = false ∧ mark ≠ '_' ∧ (mark == 'e' || mark == 'E') = true := by
    rcases known with rfl | rfl <;> decide
  have marked (w : List Char) :
      exponentPart? (mark :: w) = joinedInt? (takeSign w).1 (takeSign w).2 := if_pos other.2.2
  calc
    _ = ((joinGroups ' ' t).map (mark :: ·)).bind exponentPart? := by
      rw [joinGroups_cons other.2.1, joinGroups_previous (p := mark) (q := ' ') other.1]
    _ = ((joinGroups ' ' t).map takeSign).bind fun p => joinedInt? p.1 p.2 := by
      rw [Option.bind_map, Option.bind_map]
      exact congrArg _ (funext marked)
    _ = _ := by
      rw [joinGroups_takeSign, Option.bind_map]
      rfl

theorem joined_exponent :
    (joinGroups ' ' (t.map asciiDigit)).bind exponentPart? = some e ↔ Exponent t e := by
  cases t with
  | nil =>
    constructor
    · rintro ⟨⟩
      exact .none
    · rintro ⟨⟩
      rfl
  | cons c t =>
    by_cases known : c = 'e' ∨ c = 'E'
    · have kept : asciiDigit c = c := by rcases known with rfl | rfl <;> decide +kernel
      rw [List.map_cons, kept, bind_exponentPart? known]
      constructor
      · intro read
        obtain ⟨negative, body, sign, same⟩ := exists_signed t
        rw [same] at read
        obtain ⟨ds, digits, some', rfl⟩ := bind_joinedInt?.mp read
        exact .marked known sign digits some'
      · intro exponent
        cases exponent with
        | marked _ sign digits some' =>
          rw [sign.takeSign_eq (digits.not_sign some')]
          exact bind_joinedInt?.mpr ⟨_, digits, some', rfl⟩
    · refine ⟨fun read => ?_, fun exponent => ?_⟩
      · obtain ⟨w, joined, value⟩ := Option.bind_eq_some_iff.mp read
        obtain ⟨_, w, rfl, _⟩ := joinGroups_cons_eq_some.mp joined
        have marks := exponentPart?_head value _ rfl
        rw [asciiDigit_eq_iff rfl (by decide +kernel), asciiDigit_eq_iff rfl (by decide +kernel)]
          at marks
        exact absurd marks known
      · cases exponent with
        | marked marks => exact absurd marks known

/-- The digits before a point, those after it, and what follows them. -/
inductive Parts : List Char → List Char → List Char → List Char → Prop
  | whole {whole rest : List Char} (all : whole.all Char.isDigit) (stops : Stops rest)
      (other : ∀ c ∈ rest.head?, c ≠ '.') : Parts (whole ++ rest) whole [] rest
  | pointed {whole fraction rest : List Char} (all : whole.all Char.isDigit)
      (allToo : fraction.all Char.isDigit) (stops : Stops rest) :
      Parts (whole ++ '.' :: (fraction ++ rest)) whole fraction rest

theorem Parts.unsignedFloat?_eq {whole fraction rest : List Char}
    (parts : Parts w whole fraction rest) :
    unsignedFloat? negative w =
      if whole.isEmpty && fraction.isEmpty then none
      else (exponentPart? rest).map fun e =>
        toFloat negative (digitsValue (whole ++ fraction)) (e - fraction.length) := by
  cases parts with
  | whole all stops other =>
    rw [unsignedFloat?, takeDigits, takeWhile_digits all stops, dropWhile_digits all stops]
    dsimp only
    split
    · exact absurd rfl (other '.' rfl)
    · rfl
  | pointed all allToo stops =>
    have point : Stops ('.' :: (fraction ++ rest)) := by
      rintro _ ⟨⟩
      rfl
    rw [unsignedFloat?, takeDigits, takeWhile_digits all point, dropWhile_digits all point]
    simp only [takeDigits, takeWhile_digits allToo stops, dropWhile_digits allToo stops]

theorem stops_dropWhile (w : List Char) : Stops (w.dropWhile Char.isDigit) := by
  intro c first
  have known := List.head?_dropWhile_not Char.isDigit w
  rw [Option.mem_def.mp first] at known
  exact known

theorem exists_parts (w : List Char) : ∃ whole fraction rest, Parts w whole fraction rest := by
  have split := List.takeWhile_append_dropWhile (p := Char.isDigit) (l := w)
  have all : (w.takeWhile Char.isDigit).all Char.isDigit := List.all_takeWhile
  have stops := stops_dropWhile w
  generalize w.takeWhile Char.isDigit = whole, w.dropWhile Char.isDigit = rest at *
  subst split
  by_cases point : ∃ after, rest = '.' :: after
  · obtain ⟨after, rfl⟩ := point
    refine ⟨whole, after.takeWhile Char.isDigit, after.dropWhile Char.isDigit, ?_⟩
    have digits : (after.takeWhile Char.isDigit).all Char.isDigit := List.all_takeWhile
    have parts := Parts.pointed all digits (stops_dropWhile after)
    rwa [List.takeWhile_append_dropWhile] at parts
  · refine ⟨whole, [], rest, .whole all stops fun c first mark => point ?_⟩
    obtain ⟨after, same⟩ := List.head?_eq_some_iff.mp first
    exact ⟨after, mark ▸ same⟩

theorem Parts.exists_mantissa {whole fraction rest : List Char}
    (parts : Parts w whole fraction rest) (joined : joinGroups ' ' (body.map asciiDigit) = some w) :
    ∃ cs es ds ds', body = cs ++ es ∧ Mantissa cs ds ds' ∧ ascii ds = whole ∧
      ascii ds' = fraction ∧ joinGroups ' ' (es.map asciiDigit) = some rest := by
  cases parts with
  | whole all stops _ =>
    obtain ⟨cs, ds, es, rfl, digits, rfl, after⟩ := exists_digits all stops joined
    exact ⟨cs, es, ds, [], rfl, .whole digits, rfl, rfl, after⟩
  | pointed all allToo stops =>
    obtain ⟨cs, ds, t, rfl, digits, rfl, after⟩ := exists_digits all (by rintro _ ⟨⟩; rfl) joined
    cases t with
    | nil => cases after
    | cons c t =>
      obtain ⟨_, _, same, joined'⟩ := joinGroups_cons_eq_some.mp after
      obtain ⟨point, rfl⟩ := List.cons.inj same
      obtain rfl := (asciiDigit_eq_iff rfl (by decide +kernel)).mp point.symm
      rw [joinGroups_previous (q := ' ') (by rw [← point]; rfl)] at joined'
      obtain ⟨cs', ds', es, rfl, digits', rfl, after'⟩ := exists_digits allToo stops joined'
      exact ⟨cs ++ '.' :: cs', es, ds, ds', by rw [List.append_assoc]; rfl, .pointed digits digits',
        rfl, rfl, after'⟩

theorem Mantissa.digitsValue_eq {cs : List Char} {ds ds' : List Nat}
    (mantissa : Mantissa cs ds ds') : digitsValue (ascii ds ++ ascii ds') = number (ds ++ ds') := by
  have joined : ascii ds ++ ascii ds' = ascii (ds ++ ds') := List.map_append.symm
  rw [joined, digitsValue_ascii]
  cases mantissa with
  | whole digits => simpa using digits.small
  | pointed whole fraction =>
    intro d inside
    exact (List.mem_append.mp inside).elim (whole.small d) (fraction.small d)

theorem Mantissa.exists_parts {cs es rest : List Char} {ds ds' : List Nat}
    (mantissa : Mantissa cs ds ds') (after : joinGroups ' ' (es.map asciiDigit) = some rest)
    (marks : ∀ c ∈ rest.head?, c = 'e' ∨ c = 'E') :
    ∃ w, joinGroups ' ' ((cs ++ es).map asciiDigit) = some w ∧
      Parts w (ascii ds) (ascii ds') rest := by
  have stops : Stops rest := by
    intro c first
    rcases marks c first with rfl | rfl <;> rfl
  rw [List.map_append]
  cases mantissa with
  | whole digits =>
    refine ⟨_, digits.joinGroups after, .whole (all_ascii digits.small) stops ?_⟩
    intro c first
    rcases marks c first with rfl | rfl <;> decide
  | pointed whole fraction =>
    have point : asciiDigit '.' = '.' := by decide +kernel
    have joined := (joinGroups_other (c := '.') rfl).mpr
      ⟨by decide, _, rfl, fraction.joinGroups after⟩
    refine ⟨_, ?_, .pointed (all_ascii whole.small) (all_ascii fraction.small) stops⟩
    rw [List.map_append, List.append_assoc, List.map_cons, point]
    exact whole.joinGroups joined

theorem bind_unsignedFloat? :
    (joinGroups ' ' (body.map asciiDigit)).bind (unsignedFloat? negative) = some v ↔
      ∃ cs es ds ds' e, body = cs ++ es ∧ Mantissa cs ds ds' ∧ ds ++ ds' ≠ [] ∧ Exponent es e ∧
        toFloat negative (number (ds ++ ds')) (e - ds'.length) = v := by
  rw [Option.bind_eq_some_iff]
  constructor
  · rintro ⟨w, joined, value⟩
    obtain ⟨whole, fraction, rest, parts⟩ := exists_parts w
    obtain ⟨cs, es, ds, ds', rfl, mantissa, rfl, rfl, after⟩ := parts.exists_mantissa joined
    rw [parts.unsignedFloat?_eq] at value
    split at value
    · cases value
    · rename_i some'
      obtain ⟨e, known, rfl⟩ := Option.map_eq_some_iff.mp value
      refine ⟨cs, es, ds, ds', e, rfl, mantissa, ?_,
        joined_exponent.mp (Option.bind_eq_some_iff.mpr ⟨rest, after, known⟩), ?_⟩
      · rintro none
        obtain ⟨rfl, rfl⟩ := List.append_eq_nil_iff.mp none
        exact some' rfl
      · rw [mantissa.digitsValue_eq, ascii, List.length_map]
  · rintro ⟨cs, es, ds, ds', e, rfl, mantissa, some', exponent, rfl⟩
    obtain ⟨rest, after, value⟩ := Option.bind_eq_some_iff.mp (joined_exponent.mpr exponent)
    obtain ⟨w, joined, parts⟩ := mantissa.exists_parts after (exponentPart?_head value)
    refine ⟨w, joined, ?_⟩
    have more : ¬ ((ascii ds).isEmpty && (ascii ds').isEmpty) := by
      rw [Bool.and_eq_true, List.isEmpty_iff, List.isEmpty_iff, ← List.append_eq_nil_iff, ascii,
        ascii, ← List.map_append, List.map_eq_nil_iff]
      exact some'
    rw [parts.unsignedFloat?_eq, if_neg more, value, mantissa.digitsValue_eq, ascii,
      List.length_map]
    rfl

end Decimals

section Words

variable {s : String} {v : Float} {body : List Char} {negative : Bool}

theorem map_asciiDigit_eq_iff {t w : List Char}
    (kept : w.all fun x => !x.isDigit && asciiDigit x == x) : t.map asciiDigit = w ↔ t = w := by
  induction w generalizing t with
  | nil => exact List.map_eq_nil_iff
  | cons x w ih =>
    rw [List.all_cons, Bool.and_eq_true, Bool.and_eq_true, Bool.not_eq_true', beq_iff_eq] at kept
    cases t with
    | nil => exact ⟨nofun, nofun⟩
    | cons c t =>
      rw [List.map_cons, List.cons.injEq, List.cons.injEq, asciiDigit_eq_iff kept.1.1 kept.1.2,
        ih kept.2]

theorem infinite_iff :
    (if negative then -(1.0 / 0.0) else 1.0 / 0.0 : Float) = v ↔
      decoded v = .infinity (signFor negative) := by
  have known : decoded (if negative then -(1.0 / 0.0) else 1.0 / 0.0) =
      .infinity (signFor negative) := by
    cases negative <;> rfl
  rw [← known, eq_comm]
  exact ⟨congrArg decoded, fun same => decoded_injective same⟩

theorem undefined_iff : (0.0 / 0.0 : Float) = v ↔ decoded v = .notANumber :=
  ⟨by rintro rfl; rfl, fun known => (decoded_injective known).symm⟩

theorem specialFloat?_eq_some :
    specialFloat? negative (body.map asciiDigit) = some v ↔
      ((body.map Char.toLower = "inf".toList ∨ body.map Char.toLower = "infinity".toList) ∧
        decoded v = .infinity (signFor negative)) ∨
      (body.map Char.toLower = "nan".toList ∧ decoded v = .notANumber) := by
  have lower : (body.map asciiDigit).map Char.toLower = (body.map Char.toLower).map asciiDigit := by
    rw [List.map_map, List.map_map]
    exact List.map_congr_left fun c _ => toLower_asciiDigit c
  have word (t : String) (kept : t.toList.all fun x => !x.isDigit && asciiDigit x == x) :
      String.ofList ((body.map asciiDigit).map Char.toLower) = t ↔
        body.map Char.toLower = t.toList := by
    rw [← String.toList_inj, String.toList_ofList, lower, map_asciiDigit_eq_iff kept]
  rw [← word "inf" (by decide +kernel), ← word "infinity" (by decide +kernel),
    ← word "nan" (by decide +kernel), specialFloat?]
  split
  · rename_i same
    simp only [same, infinite_iff, Option.some.injEq, String.reduceEq, true_and, false_and,
      or_false]
  · rename_i same
    simp only [same, infinite_iff, Option.some.injEq, String.reduceEq, or_true, true_and, false_and,
      or_false]
  · rename_i same
    simp only [same, undefined_iff, Option.some.injEq, String.reduceEq, or_self, true_and,
      false_and, false_or]
  · rename_i inf infinity nan
    constructor
    · rintro ⟨⟩
    · rintro (⟨same | same, _⟩ | ⟨same, _⟩)
      · exact (inf same).elim
      · exact (infinity same).elim
      · exact (nan same).elim

theorem Mantissa.exists_cons {cs : List Char} {ds ds' : List Nat} (mantissa : Mantissa cs ds ds')
    (some' : ds ++ ds' ≠ []) : ∃ c t, cs = c :: t ∧ (c = '.' ∨ ∃ d, IsDigit c d) := by
  cases mantissa with
  | whole digits =>
    rw [List.append_nil] at some'
    obtain ⟨c, d, t, rfl, digit⟩ := digits.exists_cons some'
    exact ⟨c, t, rfl, .inr ⟨d, digit⟩⟩
  | pointed whole fraction =>
    cases ds with
    | nil =>
      cases whole
      exact ⟨'.', _, rfl, .inl rfl⟩
    | cons d ds =>
      obtain ⟨c, d, t, rfl, digit⟩ := whole.exists_cons (List.cons_ne_nil _ _)
      exact ⟨c, _, rfl, .inr ⟨d, digit⟩⟩

theorem specialFloat?_eq_none {c : Char} (first : c = '.' ∨ ∃ d, IsDigit c d) (t : List Char) :
    specialFloat? negative ((c :: t).map asciiDigit) = none := by
  have small : c.toLower = c := by
    rcases first with rfl | ⟨d, digit⟩
    · rfl
    · exact digit.toLower_eq
  have letter : c ≠ 'i' ∧ c ≠ 'n' := by
    rcases first with rfl | ⟨d, digit⟩
    · decide
    · exact ⟨digit.ne (by decide +kernel), digit.ne (by decide +kernel)⟩
  rw [Option.eq_none_iff_forall_ne_some]
  intro v some'
  rw [specialFloat?_eq_some, List.map_cons, small] at some'
  rcases some' with ⟨word | word, _⟩ | ⟨word, _⟩
  · exact letter.1 (List.cons.inj word).1
  · exact letter.1 (List.cons.inj word).1
  · exact letter.2 (List.cons.inj word).1

theorem not_blank_of_word {t w : List Char} (none : w.all fun x => !isBlank x)
    (word : t.map Char.toLower = w) : ∀ c ∈ t, isBlank c = false := by
  intro c inside
  have lower : c.toLower ∈ w := word ▸ List.mem_map_of_mem inside
  have known := List.all_eq_true.mp none _ lower
  rwa [Bool.not_eq_true', isBlank_toLower] at known

theorem not_sign_of_word {t w : List Char} (minus : '-' ∉ w) (plus : '+' ∉ w)
    (word : t.map Char.toLower = w) : ∀ c ∈ t.head?, c ≠ '-' ∧ c ≠ '+' := by
  intro c first
  have lower : c.toLower ∈ w := word ▸ List.mem_map_of_mem (List.mem_of_mem_head? first)
  constructor
  · rintro rfl
    exact minus lower
  · rintro rfl
    exact plus lower

theorem Mantissa.not_blank {cs : List Char} {ds ds' : List Nat} (mantissa : Mantissa cs ds ds') :
    ∀ c ∈ cs, isBlank c = false := by
  cases mantissa with
  | whole digits => exact digits.not_blank
  | pointed whole fraction =>
    rw [List.forall_mem_append, List.forall_mem_cons]
    exact ⟨whole.not_blank, rfl, fraction.not_blank⟩

theorem Exponent.not_blank {es : List Char} {e : Int} (exponent : Exponent es e) :
    ∀ c ∈ es, isBlank c = false := by
  cases exponent with
  | none => exact fun _ inside => nomatch inside
  | marked known sign digits =>
    refine List.forall_mem_cons.mpr ⟨?_, sign.not_blank digits.not_blank⟩
    rcases known with rfl | rfl <;> rfl

theorem UnsignedLiteral.not_blank {sign : Sign} {u : UnpackedFloat}
    (literal : UnsignedLiteral sign body u) : ∀ c ∈ body, isBlank c = false := by
  cases literal with
  | decimal mantissa _ exponent =>
    exact List.forall_mem_append.mpr ⟨mantissa.not_blank, exponent.not_blank⟩
  | infinite word =>
    exact word.elim (not_blank_of_word (by decide)) (not_blank_of_word (by decide))
  | undefined word => exact not_blank_of_word (by decide) word

theorem UnsignedLiteral.not_sign {sign : Sign} {u : UnpackedFloat}
    (literal : UnsignedLiteral sign body u) : ∀ c ∈ body.head?, c ≠ '-' ∧ c ≠ '+' := by
  cases literal with
  | decimal mantissa some' =>
    obtain ⟨c, t, rfl, first⟩ := mantissa.exists_cons some'
    rintro _ ⟨⟩
    rcases first with rfl | ⟨d, digit⟩
    · decide
    · exact not_sign_of_isDigit digit
  | infinite word =>
    exact word.elim (not_sign_of_word (by decide) (by decide))
      (not_sign_of_word (by decide) (by decide))
  | undefined word => exact not_sign_of_word (by decide) (by decide) word

theorem unsigned_eq_some :
    (match specialFloat? negative (body.map asciiDigit) with
      | some v => some v
      | none => (joinGroups ' ' (body.map asciiDigit)).bind (unsignedFloat? negative)) = some v ↔
      UnsignedLiteral (signFor negative) body (decoded v) := by
  constructor
  · intro read
    split at read
    · rename_i u special
      cases read
      rcases specialFloat?_eq_some.mp special with ⟨word, known⟩ | ⟨word, known⟩
      · rw [known]
        exact .infinite word
      · rw [known]
        exact .undefined word
    · obtain ⟨cs, es, ds, ds', e, rfl, mantissa, some', exponent, value⟩ :=
        bind_unsignedFloat?.mp read
      exact .decimal mantissa some' exponent (toFloat_eq_iff.mp value)
  · intro literal
    generalize known : decoded v = u at literal
    cases literal with
    | decimal mantissa some' exponent correct =>
      have read := bind_unsignedFloat?.mpr
        ⟨_, _, _, _, _, rfl, mantissa, some', exponent, toFloat_eq_iff.mpr (known ▸ correct)⟩
      obtain ⟨c, t, rfl, first⟩ := mantissa.exists_cons some'
      rw [List.cons_append] at read ⊢
      rw [specialFloat?_eq_none first]
      exact read
    | infinite word => rw [specialFloat?_eq_some.mpr (.inl ⟨word, known⟩)]
    | undefined word => rw [specialFloat?_eq_some.mpr (.inr ⟨word, known⟩)]

theorem readFloat?_eq_some : readFloat? s = some v ↔ FloatLiteral s v := by
  rw [readFloat?]
  constructor
  · intro read
    obtain ⟨negative, body, sign, same⟩ := exists_signed (trimBlank s.toList)
    rw [same] at read
    exact .intro (padded_trimBlank s) sign (unsigned_eq_some.mp read)
  · rintro ⟨padded, sign, literal⟩
    rw [padded.trimBlank_eq (sign.not_blank literal.not_blank), sign.takeSign_eq literal.not_sign]
    exact unsigned_eq_some.mpr literal

example : readFloat? "+1_0.5e-1" = some 1.05 := rfl

example : readFloat? "1_.5" = none := rfl

end Words

end RootFinding.Decimal
