import RootFinding.Arithmetic
import RootFinding.Nested

namespace RootFinding

/-- A point as a callable gets it: one vector, or its entries as separate arguments. -/
structure Point (α : Type) where
  entries : Array α
  separate : Bool

namespace Point

variable {α : Type}

def entry (x : Point α) (i : Int) : Except Fault α :=
  let k := if i < 0 then i + x.entries.size else i
  match if k < 0 then none else x.entries[k.toNat]? with
  | some a => .ok a
  | none => .error (if x.separate then .noArgument else .noEntry i x.entries.size)

end Point

abbrev Callable (α : Type) := Point α → Except Fault (Nested α)

/-- A callable for a residual and a Jacobian at once: the items of a list of two. -/
abbrev PairCallable (α : Type) := Callable α

inductive Operation where
  | add
  | subtract
  | multiply
  | divide
  deriving DecidableEq, Repr

inductive Function where
  | sin
  | cos
  | exp
  | log
  | sqrt
  | atan
  | tanh
  deriving DecidableEq, Repr

inductive Formula (α : Type) where
  | coordinate (i : Int)
  | constant (a : α)
  | binary (op : Operation) (a b : Formula α)
  | negate (a : Formula α)
  | magnitude (a : Formula α)
  | power (a : Formula α) (k : Nat)
  | apply (f : Function) (a : Formula α)
  | ifAbove (a b t e : Formula α)
  | raise (kind : FaultKind) (text : String)

variable {α : Type} [Elementary α]

def Operation.eval (op : Operation) (a b : α) : Except Fault α :=
  match op with
  | add => .ok (a + b)
  | subtract => .ok (a - b)
  | multiply => .ok (a * b)
  | divide => Arithmetic.divide a b

def Function.eval (f : Function) (a : α) : Except Fault α :=
  match f with
  | sin => Arithmetic.sin a
  | cos => Arithmetic.cos a
  | exp => Arithmetic.exp a
  | log => Arithmetic.log a
  | sqrt => Arithmetic.squareRoot a
  | atan => .ok (Elementary.atan a)
  | tanh => .ok (Elementary.tanh a)

namespace Formula

def eval (x : Point α) : Formula α → Except Fault α
  | coordinate i => x.entry i
  | constant a => .ok a
  | binary op a b => do
    let u ← a.eval x
    let v ← b.eval x
    op.eval u v
  | negate a => do
    let u ← a.eval x
    return -u
  | magnitude a => do
    let u ← a.eval x
    return Scalar.magnitude u
  | power a k => do
    let u ← a.eval x
    return Nat.repeat (· * u) k 1
  | apply f a => do
    let u ← a.eval x
    f.eval u
  | ifAbove a b t e => do
    let u ← a.eval x
    let v ← b.eval x
    if v < u then t.eval x else e.eval x
  | raise kind text => .error (.raised kind text)

def callable (v : Nested (Formula α)) : Callable α := fun x => v.traverse (eval x)

def pairCallable (f j : Nested (Formula α)) : PairCallable α := fun x => do
  let residual ← callable f x
  let jacobian ← callable j x
  return .list [residual, jacobian]

end Formula

end RootFinding
