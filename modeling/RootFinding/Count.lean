import RootFinding.Decimal.Text

namespace RootFinding

inductive Count where
  | whole (n : Int)
  | real (v : Float)

namespace Count

def unbounded : Nat := 0x4000000000000000

def isBelow : Count → Int → Bool
  | whole n, k => n < k
  | real v, k => v < Float.ofInt k

def equals : Count → Int → Bool
  | whole n, k => n == k
  | real v, k => v == Float.ofInt k

def below : Count → Nat
  | whole n => n.toNat
  | real v =>
    if v.isNaN || v ≤ 0.0 then 0 else if v.isInf then unbounded
    else (Decimal.Binary.ofFloat v).ceil

/-- How many of `1, 2, …` do not exceed the limit; an undefined limit is never exceeded. -/
def upTo : Count → Nat
  | whole n => n.toNat
  | real v =>
    if v.isNaN then unbounded
    else if v ≤ 0.0 then 0
    else if v.isInf then unbounded
    else (Decimal.Binary.ofFloat v).floor

end Count

end RootFinding
