namespace RootFinding

/-- Arithmetic with a square root, decidable comparisons and a test for finite values. A comparison
may be false both ways, as it is for an undefined value. -/
class Scalar (α : Type) extends Zero α, One α, Add α, Sub α, Mul α, Div α, Neg α, LT α, LE α,
    BEq α, OfScientific α where
  decidableLT : DecidableLT α
  decidableLE : DecidableLE α
  sqrt : α → α
  magnitude : α → α
  pow : α → Nat → α
  isFinite : α → Bool
  isNaN : α → Bool

/-- A scalar type with the elementary functions. -/
class Elementary (α : Type) extends Scalar α where
  pi : α
  exp : α → α
  log : α → α
  sin : α → α
  cos : α → α
  atan : α → α
  tanh : α → α
  hypot : α → α → α
  withSign : α → α → α

instance instDecidableLTScalar {α : Type} [Scalar α] : DecidableLT α := Scalar.decidableLT
instance instDecidableLEScalar {α : Type} [Scalar α] : DecidableLE α := Scalar.decidableLE

namespace Scalar

variable {α : Type} [Scalar α]

def larger (a b : α) : α := if a < b then b else a

def smaller (a b : α) : α := if b < a then b else a

def isInfinite (a : α) : Bool := !isFinite a && !isNaN a

def undefined : α := 0 / 0

def epsilon : α := OfScientific.ofScientific 2220446049250313080847263336181640625 true 52

end Scalar

namespace Binary64

/-- The larger leg is factored out, so that the squares neither overflow nor vanish. -/
def hypot (x y : Float) : Float :=
  let a := x.abs
  let b := y.abs
  let m := if a < b then b else a
  if a.isInf || b.isInf then 1.0 / 0.0
  else if m == 0.0 then a + b
  else m * Float.sqrt ((a / m) * (a / m) + (b / m) * (b / m))

/-- The whole powers of a binary64 number, which come from a library. -/
class Powers where
  pow : Float → Nat → Float

instance : Powers := ⟨fun a n => Float.pow a (Float.ofNat n)⟩

def signBit (x : Float) : Bool := x.toBits >>> 63 == 1

def withSign (magnitude sign : Float) : Float :=
  if signBit sign then -magnitude.abs else magnitude.abs

end Binary64

instance [Binary64.Powers] : Scalar Float where
  zero := 0.0
  one := 1.0
  decidableLT := fun a b => Float.decLt a b
  decidableLE := fun a b => Float.decLe a b
  sqrt := Float.sqrt
  magnitude := Float.abs
  pow := Binary64.Powers.pow
  isFinite := Float.isFinite
  isNaN := Float.isNaN

instance [Binary64.Powers] : Elementary Float where
  pi := 3.141592653589793
  exp := Float.exp
  log := Float.log
  sin := Float.sin
  cos := Float.cos
  atan := Float.atan
  tanh := Float.tanh
  hypot := Binary64.hypot
  withSign := Binary64.withSign

end RootFinding
