import RootFinding.Decimal.Shortest

namespace RootFinding.Decimal

def signed (negative : Bool) (text : String) : String := if negative then "-" ++ text else text

def isNegative (v : Float) : Bool := v.toBits >>> 63 == 1

def zeroPad (width : Nat) (digits : List Char) : List Char :=
  List.replicate (width - digits.length) '0' ++ digits

def exponentText (e : Int) : String :=
  (if e < 0 then "e-" else "e+") ++ String.ofList (zeroPad 2 (Nat.toDigits 10 e.natAbs))

/-- Digits with a point after the first, then the exponent. -/
def scientific (digits : List Char) (e : Int) : String :=
  match digits with
  | [] => exponentText e
  | [d] => String.ofList [d] ++ exponentText e
  | d :: rest => String.ofList (d :: '.' :: rest) ++ exponentText e

/-- Digits with the point after the first `k`, at least one digit on both sides. -/
def positional (digits : List Char) (k : Int) : String :=
  let whole := if k ≤ 0 then ['0'] else
    digits.take k.toNat ++ List.replicate (k.toNat - digits.length) '0'
  let fraction := List.replicate (-k).toNat '0' ++ digits.drop k.toNat
  String.ofList (whole ++ '.' :: (if fraction.isEmpty then ['0'] else fraction))

def dropTrailingZeros (digits : List Char) : List Char :=
  (digits.reverse.dropWhile (· == '0')).reverse

/-- The fewest digits that identify the value: positional from `10 ^ -4` up to `10 ^ 16`, otherwise
with an exponent. -/
def shortestText (v : Float) : String :=
  if v.isNaN then "nan"
  else if v.isInf then signed (isNegative v) "inf"
  else if v == 0.0 then signed (isNegative v) "0.0"
  else
    let d := (Binary.ofFloat v).shortest
    let written := Nat.toDigits 10 d.digits
    let k := d.exponent + written.length
    let digits := dropTrailingZeros written
    signed (isNegative v) <|
      if -4 < k && k ≤ 16 then positional digits k else scientific digits (k - 1)

def scientificText (places : Nat) (v : Float) : String :=
  if v.isNaN then "nan"
  else if v.isInf then signed (isNegative v) "inf"
  else if v == 0.0 then
    signed (isNegative v) (scientific ('0' :: List.replicate places '0') 0)
  else
    let d := (Binary.ofFloat v).toDigits (places + 1)
    signed (isNegative v) (scientific (Nat.toDigits 10 d.digits) (d.exponent + places))

def fixedText (places : Nat) (v : Float) : String :=
  if v.isNaN then "nan"
  else if v.isInf then signed (isNegative v) "inf"
  else
    let digits := zeroPad (places + 1) <|
      Nat.toDigits 10 ((Binary.ofFloat v).roundAt (-(places : Int)))
    signed (isNegative v) (positional digits ((digits.length : Int) - places))

def paddedInt (width : Nat) (i : Int) : String :=
  if i < 0 then "-" ++ String.ofList (zeroPad (width - 1) (Nat.toDigits 10 i.natAbs))
  else String.ofList (zeroPad width (Nat.toDigits 10 i.natAbs))

def Scaled.toFloat (d : Scaled) : Float :=
  OfScientific.ofScientific d.digits (d.exponent < 0) d.exponent.natAbs

def withSignOf (v magnitude : Float) : Float :=
  if magnitude == 0.0 then 0.0 else if isNegative v then -magnitude else magnitude

def roundSignificant (count : Nat) (v : Float) : Float :=
  if !v.isFinite then v
  else if v == 0.0 then 0.0
  else withSignOf v ((Binary.ofFloat v).toDigits count).toFloat

def roundMixed (count : Nat) (v : Float) : Float :=
  if !v.isFinite then v
  else if v.abs ≥ 1.0 then roundSignificant count v
  else withSignOf v (Scaled.toFloat ⟨(Binary.ofFloat v).roundAt (-(count : Int)), -(count : Int)⟩)

end RootFinding.Decimal
