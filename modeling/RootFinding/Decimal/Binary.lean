namespace RootFinding.Decimal

/-- A magnitude `significand * 2 ^ exponent`. The gap to the value below may be half the gap to the
value above. -/
structure Binary where
  significand : Nat
  exponent : Int
  narrowBelow : Bool

structure Scaled where
  digits : Nat
  exponent : Int
  deriving DecidableEq, Repr

def Binary.ofBits (bits : UInt64) : Binary :=
  let e := ((bits >>> 52) &&& 0x7FF).toNat
  let f := (bits &&& 0xFFFFFFFFFFFFF).toNat
  if e == 0 then ⟨f, -1074, false⟩ else ⟨Nat.pow 2 52 + f, (e : Int) - 1075, f == 0 && e > 1⟩

def Binary.ofFloat (v : Float) : Binary := ofBits v.toBits

def roundDiv (num den : Nat) : Nat :=
  let q := num / den
  let r := num % den
  if 2 * r < den then q else if den < 2 * r then q + 1 else q + q % 2

namespace Binary

def ratio (x : Binary) (place : Int) : Nat × Nat :=
  (x.significand * Nat.pow 2 x.exponent.toNat * Nat.pow 10 (-place).toNat,
    Nat.pow 2 (-x.exponent).toNat * Nat.pow 10 place.toNat)

def floor (x : Binary) : Nat :=
  let (num, den) := x.ratio 0
  num / den

def ceil (x : Binary) : Nat :=
  let (num, den) := x.ratio 0
  (num + den - 1) / den

def roundAt (x : Binary) (place : Int) : Nat :=
  let (num, den) := x.ratio place
  roundDiv num den

def below (x : Binary) (place : Int) : Bool :=
  let (num, den) := x.ratio place
  num < den

/-- The least `k` with the magnitude below `10 ^ k`; the binary logarithm is off by at most two. -/
def scale (x : Binary) : Int :=
  let guess := ((x.significand.log2 : Int) + x.exponent) * 30103 / 100000
  if x.below guess then guess else if x.below (guess + 1) then guess + 1 else guess + 2

def toDigits (x : Binary) (count : Nat) : Scaled :=
  let place := x.scale - count
  let d := x.roundAt place
  if d < Nat.pow 10 count then ⟨d, place⟩ else ⟨d / 10, place + 1⟩

end Binary

end RootFinding.Decimal
