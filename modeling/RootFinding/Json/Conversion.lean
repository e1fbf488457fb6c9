import RootFinding.Json.Basic
import RootFinding.Decimal.Reading
import RootFinding.Decimal.Text
import RootFinding.Nested

namespace RootFinding

namespace Decimal

def floatOfInt (i : Int) : Except Fault Float :=
  let v := toFloat (i < 0) i.natAbs 0
  if v.isInf then .error .intTooLarge else .ok v

def truncate (v : Float) : Except Fault Int :=
  if v.isNaN then .error .undefinedInt
  else if v.isInf then .error .infiniteInt
  else
    let x := Binary.ofFloat v
    let magnitude : Int := x.floor
    .ok (if isNegative v then -magnitude else magnitude)

end Decimal

namespace Json

def sort : Json → String
  | null => "NoneType"
  | bool _ => "bool"
  | int _ => "int"
  | float _ => "float"
  | str _ => "str"
  | arr _ => "list"
  | obj _ => "dict"

def toFloat : Json → Except Fault Float
  | bool b => .ok (if b then 1.0 else 0.0)
  | int i => Decimal.floatOfInt i
  | float v => .ok v
  | str s => match Decimal.readFloat? s with
    | some v => .ok v
    | none => .error (.notFloatText s)
  | other => .error (.notFloat other.sort)

def toInt [Limits] : Json → Except Fault Int
  | bool b => .ok (if b then 1 else 0)
  | int i => .ok i
  | float v => Decimal.truncate v
  | str s => Decimal.readInt s
  | other => .error (.notInt other.sort)

def truth : Json → Bool
  | null => false
  | bool b => b
  | int i => i != 0
  | float v => v != 0.0
  | str s => !s.isEmpty
  | arr items => !items.isEmpty
  | obj members => !members.isEmpty

def toFloatOrNaN : Json → Except Fault Float
  | null => .ok (0.0 / 0.0)
  | other => other.toFloat

mutual

def nested : Json → Nested Json
  | arr items => .list (nestedItems items)
  | other => .leaf other

def nestedItems : List Json → List (Nested Json)
  | [] => []
  | item :: items => item.nested :: nestedItems items

end

/-- A point as it is given: its shape has to be rectangular before its entries are read. -/
def toBlockOfFloats (j : Json) : Except Fault (List Nat × Nested Float) := do
  let extents ← j.nested.rectangular
  let entries ← j.nested.traverse toFloatOrNaN
  return (extents, entries)

end Json

end RootFinding
