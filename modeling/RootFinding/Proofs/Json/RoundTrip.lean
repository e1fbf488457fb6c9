import RootFinding.Proofs.Json.Plain

namespace RootFinding.Json

open Decimal

def rejoined (s : String) : String := String.ofList (joined s.toList)

mutual

def respelled : Json → Json
  | null => null
  | bool b => bool b
  | int i => int i
  | float v => float v
  | str s => str (rejoined s)
  | arr items => arr (respelledItems items)
  | obj members => obj (respelledMembers members)

def respelledItems : List Json → List Json
  | [] => []
  | item :: items => respelled item :: respelledItems items

def respelledMember : String × Json → String × Json
  | (key, value) => (rejoined key, respelled value)

def respelledMembers : List (String × Json) → List (String × Json)
  | [] => []
  | member :: members => respelledMember member :: respelledMembers members

end

def reread (j : Json) : Json := j.respelled.merged

def opens (c : Char) : Bool :=
  !(Cursor.isSpace c || c == ']' || c == '\x7d' || c == '\uFEFF')

theorem opens_of_isDigit {c : Char} (digit : c.isDigit) : opens c := by
  have other {d : Char} (none : d.isDigit = false) : (c == d) = false := by
    rw [beq_eq_false_iff_ne]
    rintro rfl
    rw [none] at digit
    cases digit
  simp only [opens, Cursor.isSpace, other (d := ' ') rfl, other (d := '\t') rfl,
    other (d := '\n') rfl, other (d := '\r') rfl, other (d := ']') rfl, other (d := '\x7d') rfl,
    other (d := '\uFEFF') rfl, Bool.or_self, Bool.not_false]

theorem opens_floatText (v : Float) : ∃ c cs, floatText v = c :: cs ∧ opens c := by
  have number := numberText v
  generalize floatText v = text at number
  cases number with
  | undefined => exact ⟨'N', _, rfl, by decide⟩
  | infinite => exact ⟨'I', _, rfl, by decide⟩
  | negativeInfinite => exact ⟨'-', _, rfl, by decide⟩
  | numeral negative n wellFormed =>
    obtain ⟨c, cs, long, digit⟩ := wellFormed.whole_cons
    cases negative with
    | true => exact ⟨'-', _, rfl, by decide⟩
    | false =>
      rw [Numeral.text, long]
      exact ⟨c, _, rfl, opens_of_isDigit digit⟩

theorem opens_intText (i : Int) : ∃ c cs, intText i = c :: cs ∧ opens c := by
  rw [intText]
  split
  · exact ⟨'-', _, rfl, by decide⟩
  · obtain ⟨c, cs, long⟩ := List.exists_cons_of_ne_nil (@Nat.toDigits_ne_nil i.natAbs 10)
    have all := all_toDigits i.natAbs
    rw [long, List.all_cons, Bool.and_eq_true] at all
    exact ⟨c, cs, long, opens_of_isDigit all.1⟩

theorem opens_write (layout : Layout) (level : Nat) (j : Json) :
    ∃ c cs, write layout level j = c :: cs ∧ opens c := by
  cases j with
  | null => exact ⟨'n', _, rfl, by decide⟩
  | bool b =>
    cases b with
    | true => exact ⟨'t', _, rfl, by decide⟩
    | false => exact ⟨'f', _, rfl, by decide⟩
  | int i => exact opens_intText i
  | float v => exact opens_floatText v
  | str s => exact ⟨'"', _, rfl, by decide⟩
  | arr items => cases items <;> exact ⟨'[', _, rfl, by decide⟩
  | obj members => cases members <;> exact ⟨'\x7b', _, rfl, by decide⟩

theorem isSpace_of_opens {c : Char} (other : opens c) : Cursor.isSpace c = false := by
  simp only [opens, Bool.not_eq_true', Bool.or_eq_false_iff] at other
  exact other.1.1.1

section Cursor

variable {position : Nat} {c : Char} {rest : List Char}

theorem skipSpace_of_opens (other : Cursor.isSpace c = false) :
    (Cursor.mk position (c :: rest)).skipSpace = ⟨position, c :: rest⟩ := by
  simp [Cursor.skipSpace, other, Cursor.advance]

theorem skipSpace_blank (position : Nat) (other : Cursor.isSpace c = false) :
    (Cursor.mk (position + 1) (' ' :: c :: rest)).skipSpace = ⟨position + 2, c :: rest⟩ := by
  simp only [Cursor.skipSpace, Cursor.advance, List.takeWhile_cons, other]
  rfl

theorem skipSpace_line (level : Nat) (other : Cursor.isSpace c = false) :
    ∃ after, (Cursor.mk position (indented.line level ++ c :: rest)).skipSpace =
      ⟨after, c :: rest⟩ := by
  have blanks : (indented.line level).all Cursor.isSpace := by
    simp [indented, Cursor.isSpace]
  have length : ((indented.line level ++ c :: rest).takeWhile Cursor.isSpace) =
      indented.line level := by
    rw [List.takeWhile_append_of_pos (List.all_eq_true.mp blanks)]
    simp [other]
  refine ⟨position + (indented.line level).length, ?_⟩
  simp only [Cursor.skipSpace, length, Cursor.advance, List.drop_left]

theorem skipSpace_write (position line level : Nat) (j : Json) (rest : List Char) :
    ∃ after,
      (Cursor.mk position (indented.line line ++ (write indented level j ++ rest))).skipSpace =
        ⟨after, write indented level j ++ rest⟩ := by
  obtain ⟨c, cs, opening, other⟩ := opens_write indented level j
  rw [opening]
  exact skipSpace_line line (isSpace_of_opens other)

end Cursor

/-- Wherever it is written within the limits, it is read as it should be, given enough steps. -/
def Readable [Limits] (j : Json) : Prop :=
  ∀ level fuel position rest, j.fits level → Follows rest →
    (write indented level j).length ≤ fuel →
      ∃ after, readValue level fuel ⟨position, write indented level j ++ rest⟩ =
        .ok (j.respelled, ⟨after, rest⟩)

theorem follows_line (level : Nat) (rest : List Char) : Follows (indented.line level ++ rest) := by
  rintro c ⟨⟩
  exact .inr rfl

theorem follows_writeItems (level : Nat) (items : List Json) {rest : List Char}
    (follows : Follows rest) : Follows (writeItems indented level items ++ rest) := by
  cases items with
  | nil => exact follows
  | cons item items =>
    rintro c ⟨⟩
    exact .inl rfl

theorem writeItems_cons (level : Nat) (item : Json) (items : List Json) :
    writeItems indented level (item :: items) =
      ',' :: (indented.line level ++
        (write indented level item ++ writeItems indented level items)) := by
  simp only [writeItems, List.append_assoc]
  rfl

section Steps

variable [Limits] {level fuel p : Nat} {c after : Cursor} {item : Json} {rest : List Char}

theorem readItems_close (read : readValue level fuel c = .ok (item, after))
    (skip : after.skipSpace = ⟨p, ']' :: rest⟩) (taken : List Json) :
    readItems level (fuel + 1) c taken = .ok (.arr (taken.reverse ++ [item]), ⟨p + 1, rest⟩) := by
  simp only [readItems, read, bind, Except.bind, skip, Cursor.advance, List.reverse_cons]
  rfl

theorem readItems_comma (read : readValue level fuel c = .ok (item, after))
    (skip : after.skipSpace = ⟨p, ',' :: rest⟩) (taken : List Json) :
    readItems level (fuel + 1) c taken =
      readItems level fuel (Cursor.mk (p + 1) rest).skipSpace (item :: taken) := by
  simp only [readItems, read, bind, Except.bind, skip]
  rfl

end Steps

theorem readItems_write [Limits] {items : List Json} (readable : ∀ j ∈ items, Readable j)
    {item : Json} (first : Readable item) (level closing fuel position : Nat) (rest : List Char)
    (taken : List Json) (itemFits : item.fits level) (fit : ∀ j ∈ items, j.fits level)
    (enough :
      (write indented level item).length + (writeItems indented level items).length < fuel) :
    ∃ after, readItems level fuel ⟨position, write indented level item ++
        (writeItems indented level items ++ (indented.line closing ++ ']' :: rest))⟩ taken =
      .ok (.arr (taken.reverse ++ item.respelled :: respelledItems items), ⟨after, rest⟩) := by
  induction items generalizing item fuel position taken with
  | nil =>
    obtain ⟨fuel, rfl⟩ : ∃ k, fuel = k + 1 := ⟨fuel - 1, by omega⟩
    obtain ⟨after, read⟩ := first level fuel position (indented.line closing ++ ']' :: rest)
      itemFits (follows_line closing _) (by omega)
    obtain ⟨closed, skip⟩ := @skipSpace_line after ']' rest closing rfl
    exact ⟨closed + 1, readItems_close read skip taken⟩
  | cons next items ih =>
    obtain ⟨fuel, rfl⟩ : ∃ k, fuel = k + 1 := ⟨fuel - 1, by omega⟩
    obtain ⟨after, read⟩ := first level fuel position
      (writeItems indented level (next :: items) ++ (indented.line closing ++ ']' :: rest))
      itemFits (follows_writeItems level _ (follows_line closing _)) (by omega)
    rw [writeItems_cons] at enough read ⊢
    simp only [List.length_cons, List.length_append] at enough
    simp only [List.cons_append, List.append_assoc] at read ⊢
    obtain ⟨opened, skip⟩ := skipSpace_write (after + 1) level level next
      (writeItems indented level items ++ (indented.line closing ++ ']' :: rest))
    rw [List.forall_mem_cons] at readable fit
    obtain ⟨final, run⟩ := ih readable.2 readable.1 fuel opened (item.respelled :: taken) fit.1
      fit.2 (by omega)
    refine ⟨final, ?_⟩
    rw [readItems_comma read (skipSpace_of_opens rfl), skip, run, List.reverse_cons,
      List.append_assoc]
    rfl

theorem descend_eq_ok [Limits] {level : Nat} (admitted : Limits.admitsLevel level)
    (container : String) : descend container level = .ok () := if_pos admitted

theorem readValue_items [Limits] {level fuel p q : Nat} {d : Char} {ds rest : List Char}
    (admitted : Limits.admitsLevel level)
    (skip : (Cursor.mk (p + 1) rest).skipSpace = ⟨q, d :: ds⟩) (other : opens d) :
    readValue level (fuel + 1) ⟨p, '[' :: rest⟩ = readItems (level + 1) fuel ⟨q, d :: ds⟩ [] := by
  simp only [readValue, descend_eq_ok admitted, bind, Except.bind, Cursor.advance,
    List.drop_succ_cons, List.drop_zero, skip]
  split
  · rename_i same
    cases same
    cases other
  · rfl

theorem readable_arr [Limits] {items : List Json} (readable : ∀ j ∈ items, Readable j) :
    Readable (.arr items) := by
  intro level fuel position rest fits follows enough
  obtain ⟨admitted, fit⟩ := fits_arr.mp fits
  cases items with
  | nil =>
    cases fuel with
    | zero => exact absurd enough (Nat.not_succ_le_zero 1)
    | succ fuel =>
      refine ⟨position + 2, ?_⟩
      simp only [write, List.cons_append, readValue, descend_eq_ok admitted]
      rfl
  | cons item items =>
    have text : write indented level (.arr (item :: items)) ++ rest =
        '[' :: (indented.line (level + 1) ++ (write indented (level + 1) item ++
          (writeItems indented (level + 1) items ++ (indented.line level ++ ']' :: rest)))) := by
      simp only [write, List.append_assoc, List.cons_append, List.nil_append]
    have length : (write indented (level + 1) item).length +
        (writeItems indented (level + 1) items).length + 1 < fuel := by
      simp only [write, List.length_cons, List.length_append, List.length_nil] at enough
      omega
    obtain ⟨fuel, rfl⟩ : ∃ k, fuel = k + 1 := ⟨fuel - 1, by omega⟩
    obtain ⟨c, cs, opening, other⟩ := opens_write indented (level + 1) item
    obtain ⟨inside, skip⟩ := skipSpace_write (position + 1) (level + 1) (level + 1) item
      (writeItems indented (level + 1) items ++ (indented.line level ++ ']' :: rest))
    rw [List.forall_mem_cons] at readable fit
    obtain ⟨after, run⟩ := readItems_write readable.2 readable.1 (level + 1) level fuel inside rest
      [] fit.1 fit.2 (by omega)
    refine ⟨after, ?_⟩
    rw [opening] at skip run
    rw [text, opening, readValue_items admitted skip other]
    exact run

def ReadsMember [Limits] (level fuel : Nat) (c : Cursor) (key : String) (value : Json)
    (after : Cursor) : Prop :=
  ∃ p q rest more afterKey, c = ⟨p, '"' :: rest⟩ ∧
    readString p (rest.length + 1) ⟨p + 1, rest⟩ [] = .ok (key, afterKey) ∧
    afterKey.skipSpace = ⟨q, ':' :: more⟩ ∧
    readValue level fuel (Cursor.mk (q + 1) more).skipSpace = .ok (value, after)

theorem readString_stringText (s : String) (start position : Nat) (rest : List Char) :
    ∃ after, readString start ((s.toList.flatMap escapeChar ++ '"' :: rest).length + 1)
        ⟨position, s.toList.flatMap escapeChar ++ '"' :: rest⟩ [] =
      .ok (rejoined s, ⟨after, rest⟩) :=
  readString_text s.toList rest (by simp only [List.length_append, List.length_cons]; omega)

theorem stringText_append (s : String) (rest : List Char) :
    stringText s ++ rest = '"' :: (s.toList.flatMap escapeChar ++ '"' :: rest) := by
  rw [stringText, List.cons_append, List.cons_append, List.append_assoc]
  rfl

theorem readable_str [Limits] (s : String) : Readable (.str s) := by
  intro level fuel position rest _ follows enough
  cases fuel with
  | zero => exact absurd enough (Nat.not_succ_le_zero _)
  | succ fuel =>
    obtain ⟨after, read⟩ := readString_stringText s position (position + 1) rest
    refine ⟨after, ?_⟩
    rw [write, stringText_append]
    simp only [readValue, Cursor.advance, List.drop_succ_cons, List.drop_zero, read, respelled]
    rfl

section Members

variable [Limits] {level fuel p : Nat} {c after : Cursor} {key : String} {value : Json}
  {rest : List Char}

theorem readsMember_write (readable : Readable value) (fits : value.fits level) (position : Nat)
    {tail : List Char} (follows : Follows tail)
    (enough : (write indented level value).length ≤ fuel) :
    ∃ after, ReadsMember level fuel ⟨position, writeMember indented level (key, value) ++ tail⟩
      (rejoined key) value.respelled ⟨after, tail⟩ := by
  have text : writeMember indented level (key, value) ++ tail =
      '"' :: (key.toList.flatMap escapeChar ++ '"' :: ':' :: ' ' ::
        (write indented level value ++ tail)) := by
    have inner : writeMember indented level (key, value) ++ tail =
        stringText key ++ (':' :: ' ' :: (write indented level value ++ tail)) := by
      simp only [writeMember, List.append_assoc]
      rfl
    rw [inner, stringText_append]
  obtain ⟨named, keyRead⟩ := readString_stringText key position (position + 1)
    (':' :: ' ' :: (write indented level value ++ tail))
  obtain ⟨c, cs, opening, other⟩ := opens_write indented level value
  have blank : (Cursor.mk (named + 1) (' ' :: (write indented level value ++ tail))).skipSpace =
      ⟨named + 2, write indented level value ++ tail⟩ := by
    rw [opening]
    exact skipSpace_blank named (isSpace_of_opens other)
  obtain ⟨after, read⟩ := readable level fuel (named + 2) tail fits follows enough
  refine ⟨after, ?_⟩
  rw [text]
  exact ⟨_, _, _, _, _, rfl, keyRead, skipSpace_of_opens rfl, blank ▸ read⟩

theorem readMembers_close (reads : ReadsMember level fuel c key value after)
    (skip : after.skipSpace = ⟨p, '\x7d' :: rest⟩) (taken : List (String × Json)) :
    readMembers level (fuel + 1) c taken =
      .ok (.obj (taken.reverse ++ [(key, value)]), ⟨p + 1, rest⟩) := by
  obtain ⟨_, _, _, _, _, rfl, named, colon, valued⟩ := reads
  simp only [readMembers, Cursor.advance, List.drop_succ_cons, List.drop_zero, named, bind,
    Except.bind, colon, valued, skip, List.reverse_cons]

theorem readMembers_comma (reads : ReadsMember level fuel c key value after)
    (skip : after.skipSpace = ⟨p, ',' :: rest⟩) (taken : List (String × Json)) :
    readMembers level (fuel + 1) c taken =
      readMembers level fuel (Cursor.mk (p + 1) rest).skipSpace ((key, value) :: taken) := by
  obtain ⟨_, _, _, _, _, rfl, named, colon, valued⟩ := reads
  simp only [readMembers, Cursor.advance, List.drop_succ_cons, List.drop_zero, named, bind,
    Except.bind, colon, valued, skip]

end Members

theorem follows_writeMembers (level : Nat) (members : List (String × Json)) {rest : List Char}
    (follows : Follows rest) : Follows (writeMembers indented level members ++ rest) := by
  cases members with
  | nil => exact follows
  | cons member members =>
    rintro c ⟨⟩
    exact .inl rfl

theorem writeMembers_cons (level : Nat) (member : String × Json) (members : List (String × Json)) :
    writeMembers indented level (member :: members) =
      ',' :: (indented.line level ++
        (writeMember indented level member ++ writeMembers indented level members)) := by
  simp only [writeMembers, List.append_assoc]
  rfl

theorem opens_writeMember (level : Nat) (member : String × Json) :
    ∃ cs, writeMember indented level member = '"' :: cs := by
  obtain ⟨key, value⟩ := member
  exact ⟨_, rfl⟩

theorem writeMember_length (level : Nat) (key : String) (value : Json) :
    (write indented level value).length < (writeMember indented level (key, value)).length := by
  simp only [writeMember, List.length_append, List.length_cons]
  omega

theorem skipSpace_writeMember (position line level : Nat) (member : String × Json)
    (rest : List Char) :
    ∃ after, (Cursor.mk position
        (indented.line line ++ (writeMember indented level member ++ rest))).skipSpace =
      ⟨after, writeMember indented level member ++ rest⟩ := by
  obtain ⟨cs, opening⟩ := opens_writeMember level member
  rw [opening]
  exact skipSpace_line line rfl

theorem readMembers_write [Limits] {members : List (String × Json)}
    (readable : ∀ m ∈ members, Readable m.2) (key : String) (value : Json) (first : Readable value)
    (level closing fuel position : Nat) (rest : List Char) (taken : List (String × Json))
    (valueFits : value.fits level) (fit : ∀ m ∈ members, m.2.fits level)
    (enough : (writeMember indented level (key, value)).length +
      (writeMembers indented level members).length < fuel) :
    ∃ after, readMembers level fuel ⟨position, writeMember indented level (key, value) ++
        (writeMembers indented level members ++ (indented.line closing ++ '\x7d' :: rest))⟩ taken =
      .ok (.obj (taken.reverse ++ (rejoined key, value.respelled) :: respelledMembers members),
        ⟨after, rest⟩) := by
  induction members generalizing key value fuel position taken with
  | nil =>
    obtain ⟨fuel, rfl⟩ : ∃ k, fuel = k + 1 := ⟨fuel - 1, by omega⟩
    have long := writeMember_length level key value
    obtain ⟨after, reads⟩ := @readsMember_write _ level fuel key value first valueFits position _
      (follows_line closing ('\x7d' :: rest)) (by omega)
    obtain ⟨closed, skip⟩ := @skipSpace_line after '\x7d' rest closing rfl
    exact ⟨closed + 1, readMembers_close reads skip taken⟩
  | cons next members ih =>
    obtain ⟨nextKey, nextValue⟩ := next
    obtain ⟨fuel, rfl⟩ : ∃ k, fuel = k + 1 := ⟨fuel - 1, by omega⟩
    have long := writeMember_length level key value
    obtain ⟨after, reads⟩ := @readsMember_write _ level fuel key value first valueFits position _
      (follows_writeMembers level ((nextKey, nextValue) :: members)
        (follows_line closing ('\x7d' :: rest)))
      (by omega)
    rw [writeMembers_cons] at enough reads ⊢
    simp only [List.length_cons, List.length_append] at enough
    simp only [List.cons_append, List.append_assoc] at reads ⊢
    obtain ⟨opened, skip⟩ := skipSpace_writeMember (after + 1) level level
      (nextKey, nextValue)
      (writeMembers indented level members ++ (indented.line closing ++ '\x7d' :: rest))
    rw [List.forall_mem_cons] at readable fit
    obtain ⟨final, run⟩ := ih readable.2 nextKey nextValue readable.1 fuel opened
      ((rejoined key, value.respelled) :: taken) fit.1 fit.2 (by omega)
    refine ⟨final, ?_⟩
    rw [readMembers_comma reads (skipSpace_of_opens rfl), skip, run, List.reverse_cons,
      List.append_assoc]
    rfl

theorem readValue_members [Limits] {level fuel p q : Nat} {ds rest : List Char}
    (admitted : Limits.admitsLevel level)
    (skip : (Cursor.mk (p + 1) rest).skipSpace = ⟨q, '"' :: ds⟩) :
    readValue level (fuel + 1) ⟨p, '\x7b' :: rest⟩ =
      readMembers (level + 1) fuel ⟨q, '"' :: ds⟩ [] := by
  simp only [readValue, descend_eq_ok admitted, bind, Except.bind, Cursor.advance,
    List.drop_succ_cons, List.drop_zero, skip]
  rfl

theorem readable_obj [Limits] {members : List (String × Json)}
    (readable : ∀ m ∈ members, Readable m.2) : Readable (.obj members) := by
  intro level fuel position rest fits follows enough
  obtain ⟨admitted, fit⟩ := fits_obj.mp fits
  cases members with
  | nil =>
    cases fuel with
    | zero => exact absurd enough (Nat.not_succ_le_zero 1)
    | succ fuel =>
      refine ⟨position + 2, ?_⟩
      simp only [write, List.cons_append, readValue, descend_eq_ok admitted]
      rfl
  | cons member members =>
    obtain ⟨key, value⟩ := member
    have text : write indented level (.obj ((key, value) :: members)) ++ rest =
        '\x7b' :: (indented.line (level + 1) ++ (writeMember indented (level + 1) (key, value) ++
          (writeMembers indented (level + 1) members ++
            (indented.line level ++ '\x7d' :: rest)))) := by
      simp only [write, List.append_assoc, List.cons_append, List.nil_append]
    have length : (writeMember indented (level + 1) (key, value)).length +
        (writeMembers indented (level + 1) members).length + 1 < fuel := by
      simp only [write, List.length_cons, List.length_append, List.length_nil] at enough
      omega
    obtain ⟨fuel, rfl⟩ : ∃ k, fuel = k + 1 := ⟨fuel - 1, by omega⟩
    obtain ⟨inside, skip⟩ := skipSpace_writeMember (position + 1) (level + 1) (level + 1)
      (key, value)
      (writeMembers indented (level + 1) members ++ (indented.line level ++ '\x7d' :: rest))
    rw [List.forall_mem_cons] at readable fit
    obtain ⟨after, run⟩ := readMembers_write readable.2 key value readable.1 (level + 1) level fuel
      inside rest [] fit.1 fit.2 (by omega)
    obtain ⟨cs, opening⟩ := opens_writeMember (level + 1) (key, value)
    refine ⟨after, ?_⟩
    rw [opening] at skip run
    rw [text, opening, readValue_members admitted skip]
    exact run

theorem readable_leaf [Limits] {j : Json} (read : ∀ level fuel position rest, j.fits level →
      Follows rest → ∃ after, readValue level (fuel + 1) ⟨position, write indented 0 j ++ rest⟩ =
        .ok (j.respelled, ⟨after, rest⟩))
    (same : ∀ level, write indented level j = write indented 0 j) : Readable j := by
  intro level fuel position rest fits follows enough
  obtain ⟨c, cs, opening, -⟩ := opens_write indented level j
  cases fuel with
  | zero =>
    rw [opening] at enough
    exact absurd enough (Nat.not_succ_le_zero _)
  | succ fuel =>
    rw [same]
    exact read level fuel position rest fits follows

theorem readable [Limits] (j : Json) : Readable j := by
  match j with
  | null => exact readable_leaf (fun _ _ _ _ _ _ => ⟨_, rfl⟩) fun _ => rfl
  | bool true => exact readable_leaf (fun _ _ _ _ _ _ => ⟨_, rfl⟩) fun _ => rfl
  | bool false => exact readable_leaf (fun _ _ _ _ _ _ => ⟨_, rfl⟩) fun _ => rfl
  | int i =>
    exact readable_leaf
      (fun level fuel position _ few follows => readValue_intText level few follows position fuel)
      fun _ => rfl
  | float v =>
    exact readable_leaf
      (fun level fuel position _ _ follows => readValue_floatText level v follows position fuel)
      fun _ => rfl
  | str s => exact readable_str s
  | arr items => exact readable_arr fun item _ => readable item
  | obj members => exact readable_obj fun member _ => readable member.2
termination_by sizeOf j
decreasing_by
  · rename_i inside
    have := List.sizeOf_lt_of_mem inside
    simp only [arr.sizeOf_spec]
    omega
  · rename_i inside
    have := List.sizeOf_lt_of_mem inside
    have : sizeOf member.2 < sizeOf member := by
      obtain ⟨key, value⟩ := member
      simp only [Prod.mk.sizeOf_spec]
      omega
    simp only [obj.sizeOf_spec]
    omega

theorem readWritten_render [Limits] {j : Json} (fits : j.fits 0) :
    readWritten j.render = .ok j.respelled := by
  obtain ⟨c, cs, opening, other⟩ := opens_write indented 0 j
  obtain ⟨after, run⟩ := readable j 0 ((write indented 0 j).length + 1) 0 [] fits
    (fun _ none => nomatch none) (Nat.le_succ _)
  rw [List.append_nil, opening] at run
  rw [readWritten, render, String.toList_ofList, opening]
  split
  · rename_i same
    cases same
    cases other
  · rw [skipSpace_of_opens (isSpace_of_opens other), run]
    rfl

/-- A document that is written within the limits is read as it should be. -/
theorem read_render [Limits] {j : Json} (fits : j.fits 0) : read j.render = .ok j.reread := by
  rw [read, readWritten_render fits]
  rfl

end RootFinding.Json
