import RootFinding.SquareSystem.Basic

namespace RootFinding

open Scalar

inductive CallableName where
  | f
  | j
  | fj
  deriving DecidableEq, Repr

/-- One call of a callable, with the point it was made at. -/
structure Call (α : Type) where
  callable : CallableName
  point : Array α

/-- The buffers of an evaluation and the calls made so far, latest first. -/
structure Desk (α : Type) (m : Nat) (extents : List Nat) where
  residual : Vec α m
  jacobian : Block α extents
  calls : List (Call α)

abbrev Evaluation (α : Type) (m : Nat) (extents : List Nat) :=
  ExceptT (Failure α) (StateM (Desk α m extents))

def callCount {α : Type} (calls : List (Call α)) (name : CallableName) : Nat :=
  calls.countP (·.callable == name)

def Block.constant {α : Type} (a : α) : (extents : List Nat) → Block α extents
  | [] => a
  | n :: extents => Vector.replicate n (constant a extents)

def guarded {α : Type} (what : Quantity) (x : Array α) (f : Fault) : Failure α :=
  if f.kind.isOwn then .fault f else .raised what f x

/-- The returned value as a block of exactly these extents. An empty list has one extent only, so it
is no matrix without rows. -/
def copied {α : Type} (what : Quantity) (target : List Nat) (v : Nested α) :
    Except (Failure α) (Block α target) :=
  match v.rectangular with
  | .error f => .error (.fault f)
  | .ok extents =>
    match v.toBlock? target, extents == target with
    | some block, true => .ok block
    | _, _ => .error (.returnedShape what extents target)

namespace Evaluation

variable {α : Type} {m : Nat} {extents : List Nat}

def liftExcept {β : Type} : Except (Failure α) β → Evaluation α m extents β
  | .ok b => pure b
  | .error e => throw e

def putResidual (v : Vec α m) : Evaluation α m extents Unit :=
  modify fun desk => { desk with residual := v }

def putJacobian (a : Block α extents) : Evaluation α m extents Unit :=
  modify fun desk => { desk with jacobian := a }

/-- The point in the form a convention passes it; separate arguments need the declared number. -/
def point (s : SquareSystem α) (x : Array α) : Evaluation α m extents (Point α) :=
  match s.convention, s.dimension with
  | .separateArguments, some n =>
    if x.size = n then pure ⟨x, true⟩ else throw (.argumentCount x.size n)
  | _, _ => pure ⟨x, false⟩

def call {β : Type} (s : SquareSystem α) (name : CallableName) (what : Quantity) (x : Array α)
    (f : Option (Point α → Except Fault β)) : Evaluation α m extents β := do
  let p ← point s x
  match f with
  | none => throw (guarded what x .noCallable)
  | some f => do
    modify fun desk => { desk with calls := ⟨name, x⟩ :: desk.calls }
    liftExcept ((f p).mapError (guarded what x))

def received (s : SquareSystem α) (caller what : Quantity) (x : Array α) (target : List Nat)
    (v : Nested α) : Except (Failure α) (Block α target) :=
  match s.convention with
  | .inPlace => (v.fill target).mapError (guarded caller x)
  | _ => copied what target v

/-- The two values that come in one. In place the callable takes them apart itself. -/
def unpacked (s : SquareSystem α) (x : Array α) (v : Nested α) :
    Except (Failure α) (Nested α × Nested α) :=
  match s.convention with
  | .inPlace => v.pair.mapError (guarded .both x)
  | _ => v.pair.mapError .fault

/-- The residual of a callable that writes in place; its faults stay as they are. -/
def bareResidual (f : Callable α) (x : Array α) : Evaluation α m extents Unit := do
  modify fun desk => { desk with calls := ⟨.f, x⟩ :: desk.calls }
  let v ← liftExcept ((f ⟨x, false⟩).mapError .fault)
  putResidual (← liftExcept ((v.fill [m]).mapError .fault))

def ownResidual (s : SquareSystem α) (f : Option (Callable α)) (x : Array α) :
    Evaluation α m extents Unit := do
  let v ← call s .f .residual x f
  putResidual (← liftExcept (received s .residual .residual x [m] v))

def ownJacobian (s : SquareSystem α) (j : Callable α) (x : Array α) :
    Evaluation α m extents Unit := do
  let v ← call s .j .jacobian x (some j)
  putJacobian (← liftExcept (received s .jacobian .jacobian x extents v))

def ownBoth (s : SquareSystem α) (fj : Option (PairCallable α)) (x : Array α) :
    Evaluation α m extents Unit := do
  let value ← call s .fj .both x fj
  let (v, w) ← liftExcept (unpacked s x value)
  putResidual (← liftExcept (received s .both .residual x [m] v))
  putJacobian (← liftExcept (received s .both .jacobian x extents w))

variable [Scalar α]

def intoBuffer {β : Type} {k : Nat} (buffer : Vec α k) (e : Evaluation α k extents β) :
    Evaluation α m extents (Vec α k) := fun desk =>
  let (r, done) := e.run ⟨buffer, desk.jacobian, desk.calls⟩
  (r.map fun _ => done.residual, ⟨desk.residual, done.jacobian, done.calls⟩)

def intoResidual {β : Type} (k : Nat) (e : Evaluation α k extents β) :
    Evaluation α m extents (Vec α k) :=
  intoBuffer (Block.constant 0 [k]) e

def intoJacobian {β : Type} (target : List Nat) (e : Evaluation α m target β) :
    Evaluation α m extents (Block α target) := fun desk =>
  let (r, done) := e.run ⟨desk.residual, Block.constant 0 target, desk.calls⟩
  (r.map fun _ => done.jacobian, ⟨done.residual, desk.jacobian, done.calls⟩)

end Evaluation

end RootFinding
