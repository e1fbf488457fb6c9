import RootFinding.Text.Printable
import RootFinding.Text.Surrogate

namespace RootFinding.Text

def hexText (width n : Nat) : List Char :=
  let digits := Nat.toDigits 16 n
  List.replicate (width - digits.length) '0' ++ digits

/-- Control characters by name or code, other characters as they are when printable. -/
def escapeChar (quote c : Char) : List Char :=
  if c == quote || c == '\\' then ['\\', c]
  else if c == '\n' then ['\\', 'n']
  else if c == '\r' then ['\\', 'r']
  else if c == '\t' then ['\\', 't']
  else if isPrintable c then [c]
  else if c.val < 0x100 then '\\' :: 'x' :: hexText 2 c.toNat
  else if c.val < 0x10000 then '\\' :: 'u' :: hexText 4 c.toNat
  else match surrogate? c with
    | some unit => '\\' :: 'u' :: hexText 4 unit
    | none => '\\' :: 'U' :: hexText 8 c.toNat

def quoted (s : String) : String :=
  let cs := s.toList
  let quote := if cs.contains '\'' && !cs.contains '"' then '"' else '\''
  String.ofList (quote :: cs.flatMap (escapeChar quote) ++ [quote])

end RootFinding.Text
