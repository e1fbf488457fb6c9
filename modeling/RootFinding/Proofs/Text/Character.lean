import Mathlib.Data.List.TakeWhile
import RootFinding.Text.Character

namespace RootFinding.Text

def IsDigit (c : Char) (d : Nat) : Prop := d < 10 ∧ ∃ start ∈ digitZeros, c.toNat = start + d

theorem digitZeros_disjoint : ∀ start ∈ digitZeros.toList, ∀ other ∈ digitZeros.toList,
    start = other ∨ start + 10 ≤ other ∨ other + 10 ≤ start := by
  decide +kernel

theorem digitZeros_apart : ∀ start ∈ digitZeros.toList, 0x20 < start ∧
    (start + 10 ≤ 0x85 ∨ 0xA0 < start) ∧ (start + 10 ≤ 0x1680 ∨ 0x1680 < start) ∧
    (start + 10 ≤ 0x2000 ∨ 0x205F < start) ∧ (start + 10 ≤ 0x3000 ∨ 0x3000 < start) := by
  decide +kernel

variable {c : Char} {d : Nat}

theorem digitValue?_eq_some : digitValue? c = some d ↔ IsDigit c d := by
  rw [digitValue?, Option.map_eq_some_iff]
  constructor
  · rintro ⟨start, found, rfl⟩
    have inside := Array.find?_some found
    rw [Bool.and_eq_true, decide_eq_true_eq, decide_eq_true_eq] at inside
    exact ⟨by omega, start, Array.mem_of_find?_eq_some found, by omega⟩
  · rintro ⟨small, start, member, position⟩
    cases found : digitZeros.find? fun z => z ≤ c.toNat && c.toNat < z + 10 with
    | none =>
      have outside := Array.find?_eq_none.mp found start member
      rw [Bool.and_eq_true, decide_eq_true_eq, decide_eq_true_eq] at outside
      omega
    | some other =>
      have inside := Array.find?_some found
      rw [Bool.and_eq_true, decide_eq_true_eq, decide_eq_true_eq] at inside
      have disjoint := digitZeros_disjoint start (Array.mem_toList_iff.mpr member) other
        (Array.mem_toList_iff.mpr (Array.mem_of_find?_eq_some found))
      exact ⟨other, rfl, by omega⟩

theorem IsDigit.ne {x : Char} (digit : IsDigit c d) (other : digitValue? x = none) : c ≠ x := by
  rintro rfl
  rw [digitValue?_eq_some.mpr digit] at other
  cases other

theorem isBlank_of_isDigit (digit : IsDigit c d) : isBlank c = false := by
  obtain ⟨small, start, member, position⟩ := digit
  have apart := digitZeros_apart start (Array.mem_toList_iff.mpr member)
  simp only [isBlank, position, Bool.or_eq_false_iff, Bool.and_eq_false_iff,
    decide_eq_false_iff_not, beq_eq_false_iff_ne]
  omega

theorem asciiDigit_of_isDigit (digit : IsDigit c d) : asciiDigit c = Char.ofNat (48 + d) := by
  rw [asciiDigit, digitValue?_eq_some.mpr digit]

theorem toNat_ofNat_digit (small : d < 10) : (Char.ofNat (48 + d)).toNat = 48 + d := by
  revert d
  decide

theorem isDigit_ofNat (small : d < 10) : (Char.ofNat (48 + d)).isDigit := by
  revert d
  decide

theorem isDigit_of_ascii (digit : c.isDigit) : IsDigit c (c.toNat - 48) := by
  rw [Char.isDigit, Bool.and_eq_true, decide_eq_true_eq, decide_eq_true_eq] at digit
  obtain ⟨low, high⟩ := digit
  rw [ge_iff_le, UInt32.le_iff_toNat_le] at low
  rw [UInt32.le_iff_toNat_le] at high
  change 48 ≤ c.toNat at low
  change c.toNat ≤ 57 at high
  exact ⟨by omega, 48, by decide +kernel, by omega⟩

theorem asciiDigit_cases (c : Char) :
    (∃ d, IsDigit c d) ∨ (asciiDigit c = c ∧ c.isDigit = false) := by
  cases found : digitValue? c with
  | some d => exact .inl ⟨d, digitValue?_eq_some.mp found⟩
  | none =>
    refine .inr ⟨by rw [asciiDigit, found], Bool.eq_false_iff.mpr fun digit => ?_⟩
    rw [digitValue?_eq_some.mpr (isDigit_of_ascii digit)] at found
    cases found

theorem isDigit_asciiDigit : (asciiDigit c).isDigit ↔ ∃ d, IsDigit c d := by
  constructor
  · intro digit
    rcases asciiDigit_cases c with known | ⟨same, none⟩
    · exact known
    · rw [same, none] at digit
      cases digit
  · rintro ⟨d, digit⟩
    rw [asciiDigit_of_isDigit digit]
    exact isDigit_ofNat digit.1

theorem asciiDigit_eq_iff {x : Char} (other : x.isDigit = false) (kept : asciiDigit x = x) :
    asciiDigit c = x ↔ c = x := by
  constructor
  · rintro rfl
    rcases asciiDigit_cases c with ⟨d, digit⟩ | ⟨same, _⟩
    · rw [isDigit_asciiDigit.mpr ⟨d, digit⟩] at other
      cases other
    · exact same.symm
  · rintro rfl
    exact kept

theorem toLower_cases (c : Char) : (∃ k < 26, c = Char.ofNat (65 + k)) ∨ c.toLower = c := by
  by_cases capital : c.val ≥ 'A'.val ∧ c.val ≤ 'Z'.val
  · obtain ⟨low, high⟩ := capital
    rw [ge_iff_le, UInt32.le_iff_toNat_le] at low
    rw [UInt32.le_iff_toNat_le] at high
    change 65 ≤ c.toNat at low
    change c.toNat ≤ 90 at high
    refine .inl ⟨c.toNat - 65, by omega, ?_⟩
    rw [Nat.add_sub_cancel' low, Char.ofNat_toNat]
  · exact .inr (dif_neg capital)

theorem IsDigit.toLower_eq (digit : IsDigit c d) : c.toLower = c := by
  rcases toLower_cases c with ⟨k, small, rfl⟩ | same
  · have letter : ∀ k < 26, digitValue? (Char.ofNat (65 + k)) = none := by decide +kernel
    exact absurd rfl (digit.ne (letter k small))
  · exact same

theorem isBlank_toLower (c : Char) : isBlank c.toLower = isBlank c := by
  rcases toLower_cases c with ⟨k, small, rfl⟩ | same
  · revert k
    decide
  · rw [same]

theorem toLower_asciiDigit (c : Char) : (asciiDigit c).toLower = asciiDigit c.toLower := by
  rcases toLower_cases c with ⟨k, small, rfl⟩ | same
  · revert k
    decide +kernel
  rw [same]
  rcases asciiDigit_cases c with ⟨d, digit⟩ | ⟨kept, _⟩
  · have fixed : ∀ d < 10, (Char.ofNat (48 + d)).toLower = Char.ofNat (48 + d) := by decide
    rw [asciiDigit_of_isDigit digit, fixed d digit.1]
  · rw [kept, same]

theorem dropWhile_isBlank {before inner : List Char} (blank : before.all isBlank)
    (first : ∀ c ∈ inner.head?, isBlank c = false) :
    (before ++ inner).dropWhile isBlank = inner := by
  rw [List.dropWhile_append_of_pos (List.all_eq_true.mp blank)]
  cases inner with
  | nil => rfl
  | cons c cs => rw [List.dropWhile_cons_of_neg (Bool.eq_false_iff.mp (first c rfl))]

theorem trimBlank_eq {before inner after : List Char} (blank : before.all isBlank)
    (blankToo : after.all isBlank) (none : ∀ c ∈ inner, isBlank c = false) :
    trimBlank (before ++ inner ++ after) = inner := by
  have back : (after.reverse ++ inner.reverse).dropWhile isBlank = inner.reverse := by
    apply dropWhile_isBlank (by rwa [List.all_reverse])
    intro c first
    exact none c (List.mem_reverse.mp (List.mem_of_mem_head? first))
  rw [trimBlank, List.append_assoc]
  cases inner with
  | nil =>
    have all : (before ++ after).dropWhile isBlank = [] := by
      rw [List.dropWhile_eq_nil_iff, ← List.all_eq_true, List.all_append, blank, blankToo]
      rfl
    rw [List.nil_append, all]
    rfl
  | cons c cs =>
    rw [dropWhile_isBlank blank, List.reverse_append, back, List.reverse_reverse]
    rintro _ ⟨⟩
    exact none c List.mem_cons_self

theorem trimBlank_spec (cs : List Char) : ∃ before after, before.all isBlank ∧ after.all isBlank ∧
    cs = before ++ trimBlank cs ++ after := by
  have front := List.takeWhile_append_dropWhile (p := isBlank) (l := cs)
  have back := List.takeWhile_append_dropWhile (p := isBlank)
    (l := (cs.dropWhile isBlank).reverse)
  refine ⟨cs.takeWhile isBlank, ((cs.dropWhile isBlank).reverse.takeWhile isBlank).reverse,
    List.all_takeWhile, ?_, ?_⟩
  · rw [List.all_reverse]
    exact List.all_takeWhile
  · rw [trimBlank, List.append_assoc, ← List.reverse_append, back, List.reverse_reverse, front]

end RootFinding.Text
