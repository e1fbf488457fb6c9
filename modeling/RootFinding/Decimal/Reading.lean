import RootFinding.Decimal.Binary
import RootFinding.Fault
import RootFinding.Limits
import RootFinding.Text.Character

namespace RootFinding.Decimal

open Text

def digitsValue (digits : List Char) : Nat :=
  digits.foldl (fun n c => 10 * n + (c.toNat - 48)) 0

/-- The binary64 value nearest to `digits * 10 ^ exponent`. Exponents far outside the range are not
expanded. -/
def toFloat (negative : Bool) (digits : Nat) (exponent : Int) : Float :=
  let magnitude : Float :=
    if digits == 0 then 0.0
    else if 400 < exponent then 1.0 / 0.0
    else if exponent < 0 && (digits.log2 : Int) + 3 * exponent < -1200 then 0.0
    else OfScientific.ofScientific digits (exponent < 0) exponent.natAbs
  if negative then -magnitude else magnitude

def takeSign : List Char → Bool × List Char
  | '-' :: rest => (true, rest)
  | '+' :: rest => (false, rest)
  | cs => (false, cs)

def takeDigits (cs : List Char) : List Char × List Char :=
  (cs.takeWhile Char.isDigit, cs.dropWhile Char.isDigit)

def joinGroups : (previous : Char) → List Char → Option (List Char)
  | _, [] => some []
  | previous, '_' :: rest =>
    if previous.isDigit && (rest.head?.any Char.isDigit) then joinGroups '_' rest else none
  | _, c :: rest => (joinGroups c rest).map (c :: ·)

def exponentPart? : List Char → Option Int
  | [] => some 0
  | mark :: rest =>
    if mark == 'e' || mark == 'E' then
      let (negative, digits) := takeSign rest
      if digits.isEmpty || !digits.all Char.isDigit then none
      else some (if negative then -(digitsValue digits : Int) else digitsValue digits)
    else none

/-- Digits with an optional point and exponent; a digit is needed on one side of the point. -/
def unsignedFloat? (negative : Bool) (cs : List Char) : Option Float :=
  let (whole, rest) := takeDigits cs
  let (fraction, rest) := match rest with
    | '.' :: after => takeDigits after
    | other => ([], other)
  if whole.isEmpty && fraction.isEmpty then none
  else (exponentPart? rest).map fun e =>
    toFloat negative (digitsValue (whole ++ fraction)) (e - fraction.length)

def specialFloat? (negative : Bool) (cs : List Char) : Option Float :=
  match String.ofList (cs.map Char.toLower) with
  | "inf" | "infinity" => some (if negative then -(1.0 / 0.0) else 1.0 / 0.0)
  | "nan" => some (0.0 / 0.0)
  | _ => none

/-- A number between optional blanks, with an optional sign and grouped digits. -/
def readFloat? (s : String) : Option Float :=
  let (negative, body) := takeSign ((trimBlank s.toList).map asciiDigit)
  match specialFloat? negative body with
  | some v => some v
  | none => (joinGroups ' ' body).bind (unsignedFloat? negative)

def withSign (negative : Bool) (n : Nat) : Int := if negative then -(n : Int) else n

def isDigits (cs : List Char) : Bool := !cs.isEmpty && cs.all Char.isDigit

/-- The sign and the digits of an integer between optional blanks; the digits can be grouped. -/
def intDigits? (s : String) : Option (Bool × List Char) :=
  let (negative, body) := takeSign ((trimBlank s.toList).map asciiDigit)
  ((joinGroups ' ' body).filter isDigits).map (negative, ·)

def intOfDigits [limits : Limits] (negative : Bool) (digits : List Char) : Except Fault Int :=
  if Limits.admitsDigits digits.length then .ok (withSign negative (digitsValue digits))
  else .error (.tooManyDigits (limits.digits.getD 0) digits.length)

def readInt [Limits] (s : String) : Except Fault Int :=
  match intDigits? s with
  | some (negative, digits) => intOfDigits negative digits
  | none => .error (.notIntText s)

end RootFinding.Decimal
