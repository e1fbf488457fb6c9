import RootFinding.Proofs.Decimal.Text
import RootFinding.Proofs.Text.Character

namespace RootFinding.Decimal

open Text

/-- Digits of any script, with single underscores between them. -/
inductive Digits : List Char → List Nat → Prop
  | none : Digits [] []
  | next {c : Char} {d : Nat} {cs : List Char} {ds : List Nat} (digit : IsDigit c d)
      (rest : Digits cs ds) : Digits (c :: cs) (d :: ds)
  | group {c : Char} {d : Nat} {cs : List Char} {ds : List Nat} (digit : IsDigit c d)
      (rest : Digits cs ds) (more : ds ≠ []) : Digits (c :: '_' :: cs) (d :: ds)

def number (ds : List Nat) : Nat := Nat.ofDigits 10 ds.reverse

def ascii (ds : List Nat) : List Char := ds.map fun d => Char.ofNat (48 + d)

theorem digitsValue_ascii {ds : List Nat} (small : ∀ d ∈ ds, d < 10) :
    digitsValue (ascii ds) = number ds := by
  induction ds using List.reverseRecOn with
  | nil => rfl
  | append_singleton ds d ih =>
    have last : d < 10 := small d (List.mem_append_right _ (List.mem_singleton_self d))
    have before := ih fun e member => small e (List.mem_append_left _ member)
    have one : digitsValue [Char.ofNat (48 + d)] = d := by
      rw [digitsValue, List.foldl_cons, List.foldl_nil, toNat_ofNat_digit last]
      omega
    rw [ascii, List.map_append, digitsValue_append, ← ascii, before, number, number,
      List.reverse_append, List.reverse_singleton, List.singleton_append, Nat.ofDigits_cons]
    simp only [List.map_cons, List.map_nil, one, List.length_singleton, pow_one]
    ring

theorem all_ascii {ds : List Nat} (small : ∀ d ∈ ds, d < 10) : (ascii ds).all Char.isDigit := by
  rw [List.all_eq_true]
  intro c member
  obtain ⟨d, inside, rfl⟩ := List.mem_map.mp member
  exact isDigit_ofNat (small d inside)

namespace Digits

variable {cs : List Char} {ds : List Nat}

theorem small (digits : Digits cs ds) : ∀ d ∈ ds, d < 10 := by
  induction digits with
  | none => exact fun _ inside => nomatch inside
  | next digit _ ih | group digit _ _ ih => exact List.forall_mem_cons.mpr ⟨digit.1, ih⟩

theorem exists_cons (digits : Digits cs ds) (some' : ds ≠ []) :
    ∃ c d cs', cs = c :: cs' ∧ IsDigit c d := by
  cases digits with
  | none => exact absurd rfl some'
  | next digit _ | group digit _ _ => exact ⟨_, _, _, rfl, digit⟩

theorem not_blank (digits : Digits cs ds) : ∀ c ∈ cs, isBlank c = false := by
  induction digits with
  | none => exact fun _ inside => nomatch inside
  | next digit _ ih => exact List.forall_mem_cons.mpr ⟨isBlank_of_isDigit digit, ih⟩
  | group digit _ _ ih =>
    exact List.forall_mem_cons.mpr ⟨isBlank_of_isDigit digit, List.forall_mem_cons.mpr ⟨rfl, ih⟩⟩

end Digits

section Joining

variable {c p q : Char} {t w rest : List Char}

theorem joinGroups_cons (other : c ≠ '_') (p : Char) (t : List Char) :
    joinGroups p (c :: t) = (joinGroups c t).map (c :: ·) :=
  joinGroups.eq_3 p c t other

theorem joinGroups_previous (same : p.isDigit = q.isDigit) (t : List Char) :
    joinGroups p t = joinGroups q t := by
  cases t with
  | nil => rfl
  | cons c t =>
    by_cases mark : c = '_'
    · rw [mark, joinGroups, joinGroups, same]
    · rw [joinGroups_cons mark, joinGroups_cons mark]

theorem joinGroups_cons_eq_some :
    joinGroups ' ' (c :: t) = some w ↔ c ≠ '_' ∧ ∃ w', w = c :: w' ∧ joinGroups c t = some w' := by
  by_cases mark : c = '_'
  · rw [mark]
    exact ⟨nofun, fun both => absurd rfl both.1⟩
  · rw [joinGroups_cons mark, Option.map_eq_some_iff]
    constructor
    · rintro ⟨w', joined, rfl⟩
      exact ⟨mark, w', rfl, joined⟩
    · rintro ⟨_, w', rfl, joined⟩
      exact ⟨w', joined, rfl⟩

theorem joinGroups_digit (digit : p.isDigit) :
    joinGroups p t = some w ↔ joinGroups ' ' t = some w ∨
      ∃ t', t = '_' :: t' ∧ t'.head?.any Char.isDigit ∧ joinGroups ' ' t' = some w := by
  cases t with
  | nil => exact ⟨.inl, fun either => either.resolve_right nofun⟩
  | cons c t =>
    by_cases mark : c = '_'
    · subst mark
      rw [joinGroups, digit, Bool.true_and, joinGroups_previous (p := '_') (q := ' ') rfl t]
      split
      · rename_i more
        refine ⟨fun joined => .inr ⟨t, rfl, more, joined⟩, ?_⟩
        rintro (joined | ⟨_, ⟨⟩, _, joined⟩)
        · cases joined
        · exact joined
      · rename_i last
        refine ⟨nofun, ?_⟩
        rintro (joined | ⟨_, ⟨⟩, more, _⟩)
        · cases joined
        · exact absurd more last
    · rw [joinGroups_cons mark, joinGroups_cons mark]
      refine ⟨.inl, fun either => either.resolve_right ?_⟩
      rintro ⟨_, ⟨⟩, _⟩
      exact mark rfl

theorem joinGroups_other (other : c.isDigit = false) :
    joinGroups ' ' (c :: t) = some w ↔
      c ≠ '_' ∧ ∃ w', w = c :: w' ∧ joinGroups ' ' t = some w' := by
  rw [joinGroups_cons_eq_some, joinGroups_previous (q := ' ') other]

theorem head?_of_joinGroups (joined : joinGroups ' ' t = some w) : w.head? = t.head? := by
  cases t with
  | nil =>
    cases joined
    rfl
  | cons c t =>
    obtain ⟨_, w', rfl, _⟩ := joinGroups_cons_eq_some.mp joined
    rfl

theorem eq_nil_of_joinGroups (joined : joinGroups ' ' t = some []) : t = [] :=
  List.head?_eq_none_iff.mp (head?_of_joinGroups joined).symm

theorem Digits.joinGroups {cs : List Char} {ds : List Nat} (digits : Digits cs ds)
    (after : joinGroups ' ' rest = some w) :
    joinGroups ' ' (cs.map asciiDigit ++ rest) = some (ascii ds ++ w) := by
  induction digits with
  | none => exact after
  | next digit _ ih =>
    have first := isDigit_asciiDigit.mpr ⟨_, digit⟩
    refine joinGroups_cons_eq_some.mpr ⟨?_, _, ?_, (joinGroups_digit first).mpr (.inl ih)⟩
    · exact fun mark => absurd (mark ▸ first) (by decide)
    · rw [asciiDigit_of_isDigit digit]
      rfl
  | group digit rest more ih =>
    have first := isDigit_asciiDigit.mpr ⟨_, digit⟩
    obtain ⟨c, d, cs, rfl, second⟩ := rest.exists_cons more
    refine joinGroups_cons_eq_some.mpr
      ⟨?_, _, ?_, (joinGroups_digit first).mpr (.inr ⟨_, rfl, ?_, ih⟩)⟩
    · exact fun mark => absurd (mark ▸ first) (by decide)
    · rw [asciiDigit_of_isDigit digit]
      rfl
    · exact isDigit_asciiDigit.mpr ⟨d, second⟩

theorem exists_digits (all : w.all Char.isDigit) (stops : Stops rest)
    (joined : joinGroups ' ' (t.map asciiDigit) = some (w ++ rest)) :
    ∃ cs ds t', t = cs ++ t' ∧ Digits cs ds ∧ ascii ds = w ∧
      joinGroups ' ' (t'.map asciiDigit) = some rest := by
  induction w generalizing t with
  | nil => exact ⟨[], [], t, rfl, .none, rfl, joined⟩
  | cons c w ih =>
    rw [List.all_cons, Bool.and_eq_true] at all
    obtain ⟨digit, all⟩ := all
    cases t with
    | nil => cases joined
    | cons a t =>
      obtain ⟨_, _, same, after⟩ := joinGroups_cons_eq_some.mp joined
      obtain ⟨rfl, rfl⟩ := List.cons.inj same
      obtain ⟨d, digit'⟩ := isDigit_asciiDigit.mp digit
      have first := asciiDigit_of_isDigit digit'
      rcases (joinGroups_digit digit).mp after with next | ⟨u, spread, more, next⟩
      · obtain ⟨cs, ds, t', rfl, digits, rfl, last⟩ := ih all next
        exact ⟨a :: cs, d :: ds, t', rfl, .next digit' digits, by rw [first]; rfl, last⟩
      · obtain ⟨mark, t, rfl, same, rfl⟩ := List.map_eq_cons_iff.mp spread
        obtain rfl := (asciiDigit_eq_iff rfl (by decide +kernel)).mp same
        obtain ⟨cs, ds, t', rfl, digits, rfl, last⟩ := ih all next
        refine ⟨a :: '_' :: cs, d :: ds, t', rfl, .group digit' digits ?_, by rw [first]; rfl, last⟩
        -- The digit after the underscore would be where digits end.
        rintro rfl
        cases digits
        rw [List.nil_append, ← head?_of_joinGroups last, Option.any_eq_true] at more
        obtain ⟨c, first, digit⟩ := more
        exact absurd digit (Bool.eq_false_iff.mp (stops c first))

end Joining

end RootFinding.Decimal
