import RootFinding.Decimal.Binary

namespace RootFinding.Decimal

def compareScaled (a : Nat) (i : Int) (n : Nat) (j : Int) : Ordering :=
  compare (a * Nat.pow 10 i.toNat * Nat.pow 2 (-j).toNat)
    (n * Nat.pow 2 j.toNat * Nat.pow 10 (-i).toNat)

namespace Binary

/-- Whether a decimal lies among the reals that round to this magnitude; the ends belong to it
exactly when the significand is even. -/
def readsBack (x : Binary) (d : Scaled) : Bool :=
  let lower := if x.narrowBelow then 4 * x.significand - 1 else 4 * x.significand - 2
  let upper := 4 * x.significand + 2
  let closed := x.significand % 2 == 0
  let low := compareScaled d.digits d.exponent lower (x.exponent - 2)
  let high := compareScaled d.digits d.exponent upper (x.exponent - 2)
  (low == .gt || (closed && low == .eq)) && (high == .lt || (closed && high == .eq))

/-- The multiple of `10 ^ place` that reads back, the nearer one of two, and the even one of two at
the same distance. -/
def onGrid (x : Binary) (place : Int) : Option Scaled :=
  let (num, den) := x.ratio place
  let down : Scaled := ⟨num / den, place⟩
  let up : Scaled := ⟨num / den + 1, place⟩
  match x.readsBack down, x.readsBack up with
  | true, true => some ⟨roundDiv num den, place⟩
  | true, false => some down
  | false, true => some up
  | false, false => none

def exact (x : Binary) : Scaled :=
  if x.exponent < 0 then ⟨x.significand * Nat.pow 5 (-x.exponent).toNat, x.exponent⟩
  else ⟨x.significand * Nat.pow 2 x.exponent.toNat, 0⟩

def shortest (x : Binary) : Scaled :=
  let k := x.scale
  ((List.range 17).findSome? fun i => x.onGrid (k - (i + 1 : Nat))).getD x.exact

end Binary

end RootFinding.Decimal
