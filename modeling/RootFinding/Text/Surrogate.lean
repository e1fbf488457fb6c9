namespace RootFinding.Text

def isHighSurrogate (unit : Nat) : Bool := 0xD800 ≤ unit && unit ≤ 0xDBFF

def isLowSurrogate (unit : Nat) : Bool := 0xDC00 ≤ unit && unit ≤ 0xDFFF

def surrogateShift : Nat := 0x100000

def ofCodeUnit (unit : Nat) : Char :=
  if isHighSurrogate unit || isLowSurrogate unit then Char.ofNat (unit + surrogateShift)
  else Char.ofNat unit

def surrogate? (c : Char) : Option Nat :=
  let unit := c.toNat - surrogateShift
  if isHighSurrogate unit || isLowSurrogate unit then some unit else none

def ofPair (high low : Nat) : Char :=
  Char.ofNat (0x10000 + (high - 0xD800) * 0x400 + (low - 0xDC00))

end RootFinding.Text
