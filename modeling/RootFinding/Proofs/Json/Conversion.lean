import RootFinding.Proofs.Decimal.FloatLiteral

namespace RootFinding.Json

open Decimal Binary64

/-- Values that count as an integer: numbers are truncated towards zero. -/
inductive Counts [Limits] : Json → Int → Prop
  | bool (b : Bool) : Counts (bool b) (if b then 1 else 0)
  | int (i : Int) : Counts (int i) i
  | float {v : Float} (finite : v.isFinite) : Counts (float v) (truncated (toRat v))
  | text {s : String} {i : Int} (literal : IntegerLiteral s i) : Counts (str s) i

/-- Values that count as a number: integers in the range of numbers are correctly rounded. -/
inductive Measures : Json → Float → Prop
  | bool (b : Bool) : Measures (bool b) (if b then 1.0 else 0.0)
  | int {i : Int} {v : Float} (small : (i.natAbs : ℚ) < limit)
      (correct : Correct (signFor (i < 0)) i.natAbs (decoded v)) : Measures (int i) v
  | float (v : Float) : Measures (float v) v
  | text {s : String} {v : Float} (literal : FloatLiteral s v) : Measures (str s) v

inductive Norm : Json → Float → Prop
  | missing : Norm null (0.0 / 0.0)
  | given {j : Json} {v : Float} (measures : Measures j v) : Norm j v

variable {j : Json} {i : Int} {v : Float}

theorem toInt_eq_ok [Limits] : j.toInt = .ok i ↔ j.Counts i := by
  cases j with
  | bool b =>
    constructor
    · rintro ⟨⟩
      exact .bool b
    · rintro ⟨⟩
      rfl
  | int k =>
    constructor
    · rintro ⟨⟩
      exact .int _
    · rintro ⟨⟩
      rfl
  | float v =>
    rw [toInt, truncate_eq_ok]
    constructor
    · rintro ⟨finite, rfl⟩
      exact .float finite
    · rintro ⟨⟩
      exact ⟨‹_›, rfl⟩
  | str s =>
    rw [toInt, readInt_eq_ok]
    constructor
    · exact .text
    · rintro ⟨⟩
      assumption
  | null | arr _ | obj _ => exact ⟨nofun, nofun⟩

theorem toFloat_eq_ok : j.toFloat = .ok v ↔ j.Measures v := by
  cases j with
  | bool b =>
    constructor
    · rintro ⟨⟩
      exact .bool b
    · rintro ⟨⟩
      rfl
  | int k =>
    rw [toFloat, floatOfInt_eq_ok]
    constructor
    · rintro ⟨small, correct⟩
      exact .int small correct
    · rintro ⟨⟩
      exact ⟨‹_›, ‹_›⟩
  | float u =>
    constructor
    · rintro ⟨⟩
      exact .float _
    · rintro ⟨⟩
      rfl
  | str s =>
    rw [toFloat]
    constructor
    · intro read
      split at read
      · cases read
        exact .text (readFloat?_eq_some.mp ‹_›)
      · cases read
    · rintro ⟨⟩
      rw [readFloat?_eq_some.mpr ‹_›]
  | null | arr _ | obj _ => exact ⟨nofun, nofun⟩

theorem toFloatOrNaN_eq_ok : j.toFloatOrNaN = .ok v ↔ j.Norm v := by
  cases j with
  | null =>
    constructor
    · rintro ⟨⟩
      exact .missing
    · rintro (_ | ⟨⟨⟩⟩)
      rfl
  | _ =>
    rw [toFloatOrNaN, toFloat_eq_ok]
    · constructor
      · exact .given
      · intro norm
        cases norm with
        | given measures => exact measures
    · nofun

end RootFinding.Json
