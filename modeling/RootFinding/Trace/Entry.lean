import RootFinding.Datum

namespace RootFinding

structure Entry (α : Type) where
  iteration : Int
  fnorm : α
  stepnorm : α
  extras : Extras α

namespace Entry

def scalarTexts (places : Nat) : Extras Float → Except Fault (List String)
  | [] => .ok []
  | (key, value) :: extras =>
    match value.scalar? with
    | none => scalarTexts places extras
    | some number => do
      let v ← number
      let rest ← scalarTexts places extras
      return (key ++ "=" ++ Decimal.scientificText places v) :: rest

/-- The iteration padded to a width, and the numbers of an entry with so many places; a negative
number of places is none. -/
def line (e : Entry Float) (places width : Int) : Except Fault String := do
  if width < 0 then throw (.negativeWidth width)
  let count := places.toNat
  let fixed := "[iter " ++ Decimal.paddedInt width.toNat e.iteration ++ "] |f|=" ++
    Decimal.scientificText count e.fnorm ++ " step=" ++ Decimal.scientificText count e.stepnorm
  let scalars ← scalarTexts count e.extras
  return " ".intercalate (fixed :: scalars)

end Entry

end RootFinding
