import RootFinding.Proofs.Json.Numbers
import RootFinding.Proofs.Json.Strings
import RootFinding.Text.Line

namespace RootFinding

namespace Text

theorem unifyLineEnds_eq {cs : List Char} (none : ∀ c ∈ cs, c ≠ '\r') : unifyLineEnds cs = cs := by
  induction cs using unifyLineEnds.induct with
  | case1 => rfl
  | case2 rest ih => exact absurd rfl (none '\r' List.mem_cons_self)
  | case3 rest other ih => exact absurd rfl (none '\r' List.mem_cons_self)
  | case4 c rest other return' ih =>
    rw [unifyLineEnds, ih fun d inside => none d (List.mem_cons_of_mem _ inside)]
    · exact other
    · exact return'

end Text

namespace Json

open Text Decimal Binary64

theorem standsHigh_of_isVisible {c : Char} (visible : isVisible c) : standsHigh c = false := by
  simp only [isVisible, Bool.and_eq_true, decide_eq_true_eq] at visible
  rw [standsHigh, surrogate?_eq_none (by omega)]
  rfl

theorem joined_eq {cs : List Char} (visible : cs.all isVisible) : joined cs = cs := by
  induction cs using joined.induct with
  | case1 a b rest pair ih =>
    rw [List.all_cons, Bool.and_eq_true] at visible
    rw [standsHigh_of_isVisible visible.1] at pair
    cases pair
  | case2 a b rest single ih =>
    rw [List.all_cons, Bool.and_eq_true] at visible
    rw [joined, if_neg single, ih visible.2]
  | case3 cs short => rw [joined]; exact short

theorem isVisible_of_isDigit {c : Char} (digit : c.isDigit) : isVisible c := by
  simp only [Char.isDigit, Bool.and_eq_true, decide_eq_true_eq, UInt32.le_iff_toNat_le] at digit
  simp only [isVisible, Bool.and_eq_true, decide_eq_true_eq]
  change 48 ≤ c.toNat ∧ c.toNat ≤ 57 at digit
  omega

theorem all_isVisible_digits {cs : List Char} (digits : cs.all Char.isDigit) : cs.all isVisible :=
  List.all_eq_true.mpr fun c inside => isVisible_of_isDigit (List.all_eq_true.mp digits c inside)

theorem all_isVisible_numeral {n : Numeral} (wellFormed : n.WellFormed) : n.text.all isVisible := by
  have fraction : n.fractionText.all isVisible := by
    rw [Numeral.fractionText]
    split
    · rfl
    · rw [List.all_cons, all_isVisible_digits wellFormed.fraction]
      rfl
  have exponent : n.exponentText.all isVisible := by
    rw [Numeral.exponentText]
    split
    · rfl
    · rename_i negative digits some'
      have rest := all_isVisible_digits (wellFormed.exponent negative digits some').2
      cases negative <;> exact rest
  rw [Numeral.text, List.all_append, List.all_append, fraction, exponent,
    all_isVisible_digits wellFormed.whole]
  rfl

theorem all_isVisible_floatText (v : Float) : (floatText v).all isVisible := by
  have number := numberText v
  generalize floatText v = text at number
  cases number with
  | undefined | infinite | negativeInfinite => decide
  | numeral negative n wellFormed =>
    rw [List.all_append, all_isVisible_numeral wellFormed]
    cases negative <;> rfl

theorem all_isVisible_shortestText (v : Float) : (shortestText v).toList.all isVisible := by
  cases known : decoded v with
  | notANumber =>
    obtain rfl : v = 0.0 / 0.0 := decoded_injective known
    decide +kernel
  | infinity s =>
    cases s with
    | negative =>
      obtain rfl : v = -(1.0 / 0.0) := decoded_injective known
      decide +kernel
    | positive =>
      obtain rfl : v = 1.0 / 0.0 := decoded_injective known
      decide +kernel
  | zero s =>
    cases s with
    | negative =>
      obtain rfl : v = -0.0 := decoded_injective known
      decide +kernel
    | positive =>
      obtain rfl : v = 0.0 := decoded_injective known
      decide +kernel
  | finite s m e pos =>
    have digits := (Binary.within_shortest pos e).digits_pos pos (decoded_canonical known).least
    rw [shortestText_eq known, List.all_append,
      all_isVisible_numeral (Scaled.wellFormed_numeral digits)]
    cases s <;> rfl

theorem all_isVisible_intText (i : Int) : (intText i).all isVisible := by
  have digits := all_isVisible_digits (all_toDigits i.natAbs)
  rw [intText]
  split <;> exact digits

theorem isVisible_digitChar : ∀ d < 16, isVisible (Nat.digitChar d) := by decide

theorem all_isVisible_unicodeEscape {u : Nat} (small : u < 0x10000) :
    (unicodeEscape u).all isVisible := by
  have digit (d : Nat) : isVisible (Nat.digitChar (d % 16)) :=
    isVisible_digitChar _ (Nat.mod_lt _ (by decide))
  rw [unicodeEscape, hexText_four small]
  simp only [List.all_cons, digit, isVisible_digitChar (u / 4096) (by omega)]
  rfl

theorem all_isVisible_escapeChar (c : Char) : (escapeChar c).all isVisible := by
  have how := written c
  generalize escapeChar c = text at how
  cases how with
  | mark m simple other =>
    unfold simpleEscape? at simple
    split at simple <;> first | rfl | cases simple
  | plain visible noQuote noEscape =>
    rw [List.all_cons, visible]
    rfl
  | unit u small same high low => exact all_isVisible_unicodeEscape small
  | pair u v high low same =>
    rw [isHighSurrogate_iff] at high
    rw [isLowSurrogate_iff] at low
    rw [List.all_append, all_isVisible_unicodeEscape (by omega),
      all_isVisible_unicodeEscape (by omega)]
    rfl

theorem all_isVisible_stringText (s : String) : (stringText s).all isVisible := by
  have inside : (s.toList.flatMap escapeChar).all isVisible := by
    rw [List.all_flatMap, List.all_eq_true]
    exact fun c _ => all_isVisible_escapeChar c
  rw [stringText, List.cons_append, List.all_cons, List.all_append, inside]
  rfl

def isWritten (c : Char) : Bool := isVisible c || c == '\n'

theorem all_isWritten {cs : List Char} (visible : cs.all isVisible) : cs.all isWritten := by
  rw [List.all_eq_true] at visible ⊢
  intro c inside
  rw [isWritten, visible c inside]
  rfl

theorem all_isWritten_line (level : Nat) : (indented.line level).all isWritten := by
  simp [indented, isWritten, isVisible]

mutual

theorem all_isWritten_write (level : Nat) : (j : Json) → (write indented level j).all isWritten
  | null => by rw [write]; decide
  | bool true => by rw [write]; decide
  | bool false => by rw [write]; decide
  | int i => all_isWritten (all_isVisible_intText i)
  | float v => all_isWritten (all_isVisible_floatText v)
  | str s => all_isWritten (all_isVisible_stringText s)
  | arr [] => rfl
  | arr (item :: items) => by
    have first := all_isWritten_write (level + 1) item
    have rest := all_isWritten_writeItems (level + 1) items
    simp only [write, List.cons_append, List.all_cons, List.all_append, all_isWritten_line, first,
      rest]
    decide
  | obj [] => rfl
  | obj (member :: members) => by
    have first := all_isWritten_writeMember (level + 1) member
    have rest := all_isWritten_writeMembers (level + 1) members
    simp only [write, List.cons_append, List.all_cons, List.all_append, all_isWritten_line, first,
      rest]
    decide

theorem all_isWritten_writeItems (level : Nat) :
    (items : List Json) → (writeItems indented level items).all isWritten
  | [] => rfl
  | item :: items => by
    have first := all_isWritten_write level item
    have rest := all_isWritten_writeItems level items
    simp only [writeItems, List.cons_append, List.all_cons, List.all_append, all_isWritten_line,
      first, rest]
    decide

theorem all_isWritten_writeMember (level : Nat) :
    (member : String × Json) → (writeMember indented level member).all isWritten
  | (key, value) => by
    have text := all_isWritten (all_isVisible_stringText key)
    have rest := all_isWritten_write level value
    simp only [writeMember, List.all_append, List.all_cons, text, rest]
    decide

theorem all_isWritten_writeMembers (level : Nat) :
    (members : List (String × Json)) → (writeMembers indented level members).all isWritten
  | [] => rfl
  | member :: members => by
    have first := all_isWritten_writeMember level member
    have rest := all_isWritten_writeMembers level members
    simp only [writeMembers, List.cons_append, List.all_cons, List.all_append, all_isWritten_line,
      first, rest]
    decide

end

theorem unifyLineEnds_write (level : Nat) (j : Json) :
    unifyLineEnds (write indented level j) = write indented level j := by
  refine unifyLineEnds_eq fun c inside => ?_
  have known := List.all_eq_true.mp (all_isWritten_write level j) c inside
  rintro rfl
  cases known

end Json

end RootFinding
