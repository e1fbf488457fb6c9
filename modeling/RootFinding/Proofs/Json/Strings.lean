import Mathlib
import RootFinding.Json.Reader
import RootFinding.Json.Printer

namespace RootFinding.Json

open Text

section Units

theorem hexValue?_digitChar : ∀ d < 16, hexValue? (Nat.digitChar d) = some d := by decide

theorem hexText_one {n : Nat} (small : n < 16) : hexText 1 n = [Nat.digitChar n] := by
  simp only [hexText, Nat.toDigits_of_lt_base small, List.length_singleton, Nat.sub_self,
    List.replicate_zero, List.nil_append]

theorem hexText_succ (w n : Nat) :
    hexText (w + 2) n = hexText (w + 1) (n / 16) ++ [Nat.digitChar (n % 16)] := by
  by_cases small : n < 16
  · have none : n / 16 = 0 := Nat.div_eq_of_lt small
    simp only [hexText, Nat.toDigits_of_lt_base small, none, Nat.toDigits_zero,
      Nat.mod_eq_of_lt small, List.length_singleton, Nat.add_sub_cancel]
    change List.replicate (w + 1) '0' ++ _ = _
    rw [List.replicate_succ']
  · simp only [hexText, Nat.toDigits_of_base_le (by decide : 1 < 16) (Nat.le_of_not_lt small),
      List.length_append, List.length_singleton, Nat.reduceSubDiff, List.append_assoc]

theorem hexText_four {n : Nat} (small : n < 0x10000) :
    hexText 4 n = [Nat.digitChar (n / 4096), Nat.digitChar (n / 256 % 16),
      Nat.digitChar (n / 16 % 16), Nat.digitChar (n % 16)] := by
  rw [hexText_succ, hexText_succ, hexText_succ, hexText_one (by omega)]
  simp only [Nat.div_div_eq_div_mul]
  rfl

theorem codeUnit?_hexText {unit : Nat} (small : unit < 0x10000) (rest : List Char) :
    codeUnit? (hexText 4 unit ++ rest) = some unit := by
  rw [hexText_four small]
  simp only [List.cons_append, codeUnit?, hexValue?_digitChar _ (Nat.mod_lt _ (by decide : 0 < 16)),
    hexValue?_digitChar (unit / 4096) (by omega), Option.bind_eq_bind, Option.bind_some,
    Option.pure_def, Option.some.injEq]
  omega

end Units

def isVisible (c : Char) : Bool := 0x20 ≤ c.toNat && c.toNat ≤ 0x7E

def standsHigh (c : Char) : Bool := (surrogate? c).any isHighSurrogate

def standsLow (c : Char) : Bool := (surrogate? c).any isLowSurrogate

theorem any_surrogate? {c : Char} {p : Nat → Bool} (holds : (surrogate? c).any p) :
    ∃ u, surrogate? c = some u ∧ p u := by
  cases stands : surrogate? c with
  | none =>
    rw [stands] at holds
    cases holds
  | some u =>
    rw [stands] at holds
    exact ⟨u, rfl, holds⟩

/-- Stand-ins that follow each other as the halves of a pair become one character. -/
def joined : List Char → List Char
  | a :: b :: rest =>
    if standsHigh a && standsLow b then
      ofPair (a.toNat - surrogateShift) (b.toNat - surrogateShift) :: joined rest
    else a :: joined (b :: rest)
  | cs => cs

inductive Written (c : Char) : List Char → Prop
  | mark (m : Char) (simple : simpleEscape? m = some c) (other : m ≠ 'u') : Written c ['\\', m]
  | plain (visible : isVisible c) (noQuote : c ≠ '"') (noEscape : c ≠ '\\') : Written c [c]
  | unit (u : Nat) (small : u < 0x10000) (same : ofCodeUnit u = c)
      (high : isHighSurrogate u = standsHigh c) (low : isLowSurrogate u = standsLow c) :
      Written c (unicodeEscape u)
  | pair (u v : Nat) (high : isHighSurrogate u) (low : isLowSurrogate v) (same : ofPair u v = c) :
      Written c (unicodeEscape u ++ unicodeEscape v)

theorem toNat_range (c : Char) : c.toNat < 0xD800 ∨ 0xDFFF < c.toNat ∧ c.toNat < 0x110000 :=
  c.valid

theorem isHighSurrogate_iff {u : Nat} : isHighSurrogate u = true ↔ 0xD800 ≤ u ∧ u ≤ 0xDBFF := by
  simp [isHighSurrogate]

theorem isLowSurrogate_iff {u : Nat} : isLowSurrogate u = true ↔ 0xDC00 ≤ u ∧ u ≤ 0xDFFF := by
  simp [isLowSurrogate]

theorem surrogate?_eq_none {c : Char} (basic : c.toNat < 0x10000) : surrogate? c = none := by
  have zero : c.toNat - surrogateShift = 0 := by
    rw [surrogateShift]
    omega
  simp only [surrogate?, zero]
  rfl

theorem written_basic {c : Char} (basic : c.toNat < 0x10000) :
    Written c (unicodeEscape c.toNat) := by
  have range := toNat_range c
  have high : isHighSurrogate c.toNat = false := by
    rw [Bool.eq_false_iff, ne_eq, isHighSurrogate_iff]
    omega
  have low : isLowSurrogate c.toNat = false := by
    rw [Bool.eq_false_iff, ne_eq, isLowSurrogate_iff]
    omega
  have none := surrogate?_eq_none basic
  have highToo : standsHigh c = false := by rw [standsHigh, none]; rfl
  have lowToo : standsLow c = false := by rw [standsLow, none]; rfl
  refine .unit c.toNat basic ?_ (high.trans highToo.symm) (low.trans lowToo.symm)
  simp only [ofCodeUnit, high, low, Bool.or_self, Bool.false_eq_true, if_false, Char.ofNat_toNat]

theorem surrogate?_eq_some {c : Char} {u : Nat} (stands : surrogate? c = some u) :
    (isHighSurrogate u || isLowSurrogate u) ∧ 0xD800 ≤ u ∧ u ≤ 0xDFFF ∧
      c.toNat = u + surrogateShift := by
  simp only [surrogate?, Option.ite_none_right_eq_some, Option.some.injEq] at stands
  obtain ⟨half, same⟩ := stands
  rw [same] at half
  have range := half
  rw [Bool.or_eq_true, isHighSurrogate_iff, isLowSurrogate_iff] at range
  exact ⟨half, by omega, by omega, by omega⟩

theorem written_surrogate {c : Char} {u : Nat} (stands : surrogate? c = some u) :
    Written c (unicodeEscape u) := by
  obtain ⟨surrogate, _, high, shifted⟩ := surrogate?_eq_some stands
  refine .unit u (by omega) ?_ ?_ ?_
  · rw [ofCodeUnit, if_pos surrogate, ← shifted, Char.ofNat_toNat]
  · rw [standsHigh, stands]
    rfl
  · rw [standsLow, stands]
    rfl

theorem escapeChar_standIn {c : Char} {u : Nat} (stands : surrogate? c = some u) :
    escapeChar c = unicodeEscape u := by
  obtain ⟨_, low, _, shifted⟩ := surrogate?_eq_some stands
  rw [surrogateShift] at shifted
  have other {d : Char} (near : d.toNat < 0x100) : (c == d) = false := by
    rw [beq_eq_false_iff_ne]
    rintro rfl
    omega
  have visible : ¬ c.toNat ≤ 0x7E := by omega
  have basic : ¬ c.toNat < 0x10000 := by omega
  simp only [escapeChar, other (show '"'.toNat < 0x100 by decide),
    other (show '\\'.toNat < 0x100 by decide), other (show '\n'.toNat < 0x100 by decide),
    other (show '\r'.toNat < 0x100 by decide), other (show '\t'.toNat < 0x100 by decide),
    other (show '\x08'.toNat < 0x100 by decide), other (show '\x0c'.toNat < 0x100 by decide),
    visible, basic, decide_false, Bool.and_false, Bool.false_eq_true, if_false, stands]

theorem written_pair {c : Char} (beyond : ¬ c.toNat < 0x10000) :
    Written c (unicodeEscape (0xD800 + (c.toNat - 0x10000) / 0x400) ++
      unicodeEscape (0xDC00 + (c.toNat - 0x10000) % 0x400)) := by
  have range := toNat_range c
  refine .pair _ _ (isHighSurrogate_iff.mpr (by omega)) (isLowSurrogate_iff.mpr (by omega)) ?_
  have whole : 0x10000 + (0xD800 + (c.toNat - 0x10000) / 0x400 - 0xD800) * 0x400 +
      (0xDC00 + (c.toNat - 0x10000) % 0x400 - 0xDC00) = c.toNat := by omega
  rw [ofPair, whole, Char.ofNat_toNat]

theorem written (c : Char) : Written c (escapeChar c) := by
  have named {d m : Char} (same : (c == d) = true) (simple : simpleEscape? m = some d)
      (other : m ≠ 'u') : Written c ['\\', m] := by
    obtain rfl := eq_of_beq same
    exact .mark m simple other
  unfold escapeChar
  split
  · exact named ‹_› rfl (by decide)
  rename_i noQuote
  split
  · exact named ‹_› rfl (by decide)
  rename_i noEscape
  split
  · exact named ‹_› rfl (by decide)
  split
  · exact named ‹_› rfl (by decide)
  split
  · exact named ‹_› rfl (by decide)
  split
  · exact named ‹_› rfl (by decide)
  split
  · exact named ‹_› rfl (by decide)
  split
  · exact .plain ‹_› (by simpa using noQuote) (by simpa using noEscape)
  split
  · exact written_basic ‹_›
  · rename_i beyond
    split
    · exact written_surrogate ‹_›
    · exact written_pair beyond

/-- What the half of a pair can precede without becoming a pair. -/
structure Solitary (tail : List Char) : Prop where
  some' : tail ≠ []
  second : ∀ low, tail = '\\' :: 'u' :: low → ∃ v, codeUnit? low = some v ∧ isLowSurrogate v = false

theorem solitary_quote (rest : List Char) : Solitary ('"' :: rest) :=
  ⟨List.cons_ne_nil _ _, fun _ same => nomatch same⟩

theorem isLowSurrogate_of_high {u : Nat} (high : isHighSurrogate u) : isLowSurrogate u = false := by
  rw [isHighSurrogate_iff] at high
  rw [Bool.eq_false_iff, ne_eq, isLowSurrogate_iff]
  omega

theorem solitary_escapeChar {c : Char} (other : standsLow c = false) (tail : List Char) :
    Solitary (escapeChar c ++ tail) := by
  have first {u : Nat} (small : u < 0x10000) (notLow : isLowSurrogate u = false)
      (rest : List Char) : Solitary (unicodeEscape u ++ rest) := by
    refine ⟨List.cons_ne_nil _ _, ?_⟩
    rintro low ⟨⟩
    exact ⟨u, codeUnit?_hexText small _, notLow⟩
  obtain how := written c
  generalize escapeChar c = text at how
  cases how with
  | mark m simple otherMark =>
    refine ⟨List.cons_ne_nil _ _, ?_⟩
    rintro low ⟨⟩
    exact absurd rfl otherMark
  | plain visible noQuote noEscape =>
    refine ⟨List.cons_ne_nil _ _, ?_⟩
    rintro low ⟨⟩
    exact absurd rfl noEscape
  | unit u small same high low => exact first small (low.trans other) tail
  | pair u v high low same =>
    have range := isHighSurrogate_iff.mp high
    rw [List.append_assoc]
    exact first (by omega) (isLowSurrogate_of_high high) _

theorem drop_hexText {u : Nat} (small : u < 0x10000) (tail : List Char) :
    (hexText 4 u ++ tail).drop 4 = tail := by
  rw [hexText_four small]
  rfl

theorem codeEscape_eq {u : Nat} (small : u < 0x10000) {tail : List Char} (some' : tail ≠ [])
    (alone : isHighSurrogate u → Solitary tail) (position : Nat) :
    codeEscape ⟨position, hexText 4 u ++ tail⟩ = .ok (ofCodeUnit u, 4) := by
  simp only [codeEscape, codeUnit?_hexText small, drop_hexText small]
  split
  · exact absurd rfl some'
  · rename_i low
    split
    · rename_i both
      rw [Bool.and_eq_true] at both
      obtain ⟨v, second, notLow⟩ := (alone both.1).second low rfl
      simp only [second, notLow, Bool.false_eq_true, if_false]
    · rfl
  · rfl

theorem codeEscape_pair {u v : Nat} (high : isHighSurrogate u) (low : isLowSurrogate v)
    {tail : List Char} (some' : tail ≠ []) (position : Nat) :
    codeEscape ⟨position, hexText 4 u ++ (unicodeEscape v ++ tail)⟩ = .ok (ofPair u v, 10) := by
  have first := isHighSurrogate_iff.mp high
  have second := isLowSurrogate_iff.mp low
  have small : v < 0x10000 := by omega
  have long : 4 < (hexText 4 v ++ tail).length := by
    have := List.length_pos_iff.mpr some'
    rw [hexText_four small]
    simp
    omega
  simp only [codeEscape, codeUnit?_hexText (show u < 0x10000 by omega),
    drop_hexText (show u < 0x10000 by omega), unicodeEscape, List.cons_append, high, long,
    decide_true, Bool.and_self, if_true, codeUnit?_hexText small, low]

section Reading

variable {start fuel position : Nat} {taken tail : List Char}

theorem readString_unicode {c : Char} {rest : List Char} {count : Nat}
    (escaped : codeEscape ⟨position + 2, rest⟩ = .ok (c, count)) :
    readString start (fuel + 1) ⟨position, '\\' :: 'u' :: rest⟩ taken =
      readString start fuel ⟨position + (count + 2), rest.drop count⟩ (c :: taken) := by
  change (codeEscape ⟨position + 2, rest⟩ >>= fun p =>
    readString start fuel ⟨position + (p.2 + 2), rest.drop p.2⟩ (p.1 :: taken)) = _
  rw [escaped]
  rfl

theorem readString_char {c : Char} (some' : tail ≠ []) (alone : standsHigh c → Solitary tail) :
    ∃ after, readString start (fuel + 1) ⟨position, escapeChar c ++ tail⟩ taken =
      readString start fuel ⟨after, tail⟩ (c :: taken) := by
  have how := written c
  generalize escapeChar c = text at how ⊢
  cases how with
  | mark m simple other =>
    refine ⟨position + 2, ?_⟩
    simp [readString, simple, Cursor.advance]
  | plain visible noQuote noEscape =>
    have printed : ¬ c.toNat < 0x20 := by
      simp only [isVisible, Bool.and_eq_true, decide_eq_true_eq] at visible
      omega
    refine ⟨position + 1, ?_⟩
    simp [readString, noEscape, Cursor.advance, printed]
  | unit u small same high low =>
    have escaped := codeEscape_eq small some' (fun h => alone (high ▸ h)) (position + 2)
    rw [same] at escaped
    refine ⟨position + 6, ?_⟩
    rw [unicodeEscape, List.cons_append, List.cons_append, readString_unicode escaped,
      drop_hexText small]
  | pair u v high low same =>
    have first := isHighSurrogate_iff.mp high
    have second := isLowSurrogate_iff.mp low
    have escaped := codeEscape_pair high low some' (position + 2)
    rw [same] at escaped
    refine ⟨position + 12, ?_⟩
    have dropped : (hexText 4 u ++ (unicodeEscape v ++ tail)).drop 10 = tail := by
      rw [hexText_four (by omega), unicodeEscape, hexText_four (by omega)]
      rfl
    rw [List.append_assoc, unicodeEscape, List.cons_append, List.cons_append,
      readString_unicode escaped, dropped]

theorem readString_pair {a b : Char} (some' : tail ≠ []) (high : standsHigh a) (low : standsLow b) :
    ∃ after, readString start (fuel + 1) ⟨position, escapeChar a ++ (escapeChar b ++ tail)⟩ taken =
      readString start fuel ⟨after, tail⟩
        (ofPair (a.toNat - surrogateShift) (b.toNat - surrogateShift) :: taken) := by
  obtain ⟨u, first, high⟩ := any_surrogate? high
  obtain ⟨v, second, low⟩ := any_surrogate? low
  obtain ⟨_, _, small, shifted⟩ := surrogate?_eq_some first
  obtain ⟨_, _, smallToo, shiftedToo⟩ := surrogate?_eq_some second
  have escaped := codeEscape_pair high low some' (position + 2)
  have dropped : (hexText 4 u ++ (unicodeEscape v ++ tail)).drop 10 = tail := by
    rw [hexText_four (by omega), unicodeEscape, hexText_four (by omega)]
    rfl
  rw [shifted, shiftedToo, Nat.add_sub_cancel, Nat.add_sub_cancel, escapeChar_standIn first,
    escapeChar_standIn second, unicodeEscape, List.cons_append, List.cons_append,
    readString_unicode escaped, dropped]
  exact ⟨_, rfl⟩

theorem escapeChar_pos (c : Char) : 0 < (escapeChar c).length := by
  have how := written c
  generalize escapeChar c = text at how
  cases how <;> exact Nat.succ_pos _

theorem readString_text (cs rest : List Char) (enough : (cs.flatMap escapeChar).length < fuel) :
    ∃ after, readString start fuel ⟨position, cs.flatMap escapeChar ++ '"' :: rest⟩ taken =
      .ok (String.ofList (taken.reverse ++ joined cs), ⟨after, rest⟩) := by
  induction cs using joined.induct generalizing fuel position taken with
  | case1 a b cs pair ih =>
    simp only [List.flatMap_cons, List.length_append] at enough
    have first := escapeChar_pos a
    obtain ⟨fuel, rfl⟩ : ∃ k, fuel = k + 1 := ⟨fuel - 1, by omega⟩
    rw [Bool.and_eq_true] at pair
    obtain ⟨after, step⟩ := @readString_pair start fuel position taken
      (cs.flatMap escapeChar ++ '"' :: rest) a b (List.append_ne_nil_of_right_ne_nil _ (by simp))
      pair.1 pair.2
    obtain ⟨final, run⟩ := @ih fuel after (_ :: taken) (by omega)
    refine ⟨final, ?_⟩
    simp only [List.flatMap_cons, List.append_assoc]
    rw [step, run, List.reverse_cons, List.append_assoc, joined, if_pos (by simp [pair])]
    rfl
  | case2 a b cs single ih =>
    simp only [List.flatMap_cons, List.length_append] at enough
    have first := escapeChar_pos a
    obtain ⟨fuel, rfl⟩ : ∃ k, fuel = k + 1 := ⟨fuel - 1, by omega⟩
    have alone : standsHigh a → Solitary ((b :: cs).flatMap escapeChar ++ '"' :: rest) := by
      intro high
      rw [high, Bool.true_and, Bool.not_eq_true] at single
      rw [List.flatMap_cons, List.append_assoc]
      exact solitary_escapeChar single _
    obtain ⟨after, step⟩ := @readString_char start fuel position taken
      ((b :: cs).flatMap escapeChar ++ '"' :: rest) a
      (List.append_ne_nil_of_right_ne_nil _ (by simp)) alone
    obtain ⟨final, run⟩ := @ih fuel after (a :: taken) (by
      simp only [List.flatMap_cons, List.length_append]
      omega)
    refine ⟨final, ?_⟩
    rw [List.flatMap_cons, List.append_assoc, step, run, List.reverse_cons, List.append_assoc,
      joined, if_neg single]
    rfl
  | case3 cs short =>
    obtain ⟨fuel, rfl⟩ : ∃ k, fuel = k + 1 := ⟨fuel - 1, by omega⟩
    match cs with
    | [] =>
      refine ⟨position + 1, ?_⟩
      rw [joined, List.append_nil]
      · rfl
      · exact short
    | [a] =>
      rw [List.flatMap_singleton] at enough
      have first := escapeChar_pos a
      obtain ⟨fuel, rfl⟩ : ∃ k, fuel = k + 1 := ⟨fuel - 1, by omega⟩
      obtain ⟨after, step⟩ := @readString_char start (fuel + 1) position taken ('"' :: rest) a
        (List.cons_ne_nil _ _) fun _ => solitary_quote rest
      refine ⟨after + 1, ?_⟩
      rw [List.flatMap_singleton, step, joined, ← List.reverse_cons]
      · rfl
      · exact short
    | a :: b :: cs => exact absurd rfl (short a b cs)

end Reading

end RootFinding.Json
