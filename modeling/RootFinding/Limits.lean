namespace RootFinding

/-- What readers refuse: integers of more digits, and containers inside more others. Without a
number nothing is refused. -/
class Limits where
  digits : Option Nat
  depth : Option Nat

namespace Limits

instance (priority := low) standard : Limits := ⟨some 4300, some 1000⟩

@[reducible] def unlimited : Limits := ⟨none, none⟩

def admits (limit : Option Nat) (k : Nat) : Bool := limit.all (k ≤ ·)

def admitsDigits [limits : Limits] (count : Nat) : Bool := admits limits.digits count

def admitsLevel [limits : Limits] (level : Nat) : Bool := admits limits.depth (level + 1)

end Limits

end RootFinding
