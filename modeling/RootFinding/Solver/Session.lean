import RootFinding.SquareSystem.Differences
import RootFinding.Trace.Notice
import RootFinding.Plan

namespace RootFinding

open Scalar

variable {α : Type}

/-- The buffers, the calls on record and the counters of one solve. -/
structure Session (α : Type) (n : Nat) where
  desk : Desk α n [n, n]
  fCalls : Nat
  jCalls : Nat

def requireFinite [Scalar α] (what : String) (x : Array α) (values : List α) :
    Except (Failure α) Unit :=
  if values.all isFinite then .ok () else .error (.nonFinite what x)

abbrev SessionM (α : Type) (n : Nat) := ExceptT (Failure α) (StateM (Session α n))

namespace Session

variable {n : Nat}

def evaluate (e : Evaluation α n [n, n] Unit) : SessionM α n Unit := fun s =>
  let (r, desk) := e.run s.desk
  (r, { s with desk := desk })

def count (f j : Nat) : SessionM α n Unit :=
  modify fun s => { s with fCalls := s.fCalls + f, jCalls := s.jCalls + j }

variable [Scalar α]

def fresh : Session α n := ⟨⟨Block.constant 0 [n], Block.constant 0 [n, n], []⟩, 0, 0⟩

def checkResidual (x : Array α) : SessionM α n Unit := do
  if !(Vec.allFinite (← get).desk.residual) then throw (.nonFinite Quantity.residual.label x)

def checkJacobian (x : Array α) : SessionM α n Unit := do
  if !(Mat.allFinite (← get).desk.jacobian) then throw (.nonFinite Quantity.jacobian.label x)

/-- Each evaluation counts as one, differences as one more residual for each coordinate and for
the baseline. -/
def residualAt (s : SquareSystem α) (x : Array α) : SessionM α n Unit := do
  count 1 0
  evaluate (s.residual x)
  checkResidual x

def jacobianAt (s : SquareSystem α) (x : Array α) : SessionM α n Unit := do
  count (if s.analytic then 0 else n + 1) 1
  evaluate (s.jacobian x)
  checkJacobian x

def bothAt (s : SquareSystem α) (x : Array α) : SessionM α n Unit := do
  count (if s.analytic then 1 else n + 1) 1
  evaluate (s.both x)
  checkResidual x
  checkJacobian x

def gradient (s : Session α n) : Vec α n :=
  Mat.tmulVec (s.desk.jacobian : Mat α n n) s.desk.residual

end Session

/-- A starting point as it is given: its extents and entries. -/
abbrev GivenPoint (α : Type) := List Nat × List α

def preparePoint [Scalar α] (dimension : Option Nat) (given : GivenPoint α) :
    Except (Failure α) (List α) :=
  let (extents, entries) := given
  if extents.length ≠ 1 then .error (.pointRank extents)
  else if entries.isEmpty then .error .pointEmpty
  else
    match dimension.filter (· ≠ entries.length) with
    | some n => .error (.pointLength entries.length n)
    | none => if entries.all isFinite then .ok entries else .error .pointNotFinite

inductive Request (α : Type) (n : Nat) where
  | residual (x : Vec α n)
  | jacobian (x : Vec α n)
  | both (x : Vec α n)
  | note (n : Notice α)

abbrev Request.Answer {α : Type} {n : Nat} : Request α n → Type
  | residual _ => Vec α n
  | jacobian _ => Mat α n n
  | both _ => Vec α n × Mat α n n
  | note _ => Unit

abbrev Solver (α : Type) (n : Nat) (β : Type) :=
  Plan (Request α n) Request.Answer (Failure α) β

namespace Solver

variable {n : Nat}

def residual (x : Vec α n) : Solver α n (Vec α n) := Plan.request (Request.residual x)

def jacobian (x : Vec α n) : Solver α n (Mat α n n) := Plan.request (Request.jacobian x)

def both (x : Vec α n) : Solver α n (Vec α n × Mat α n n) := Plan.request (Request.both x)

def note (m : Notice α) : Solver α n Unit := Plan.request (Request.note m)

def ofExcept {β : Type} : Except (Failure α) β → Solver α n β
  | .ok b => .done b
  | .error e => .fail e

end Solver

/-- A session with what was reported so far, latest first. -/
structure Ledger (α : Type) (n : Nat) where
  session : Session α n
  notices : List (Notice α)

namespace Ledger

variable {n : Nat} [Scalar α]

def evaluated {β : Type} (ledger : Ledger α n) (act : SessionM α n Unit)
    (result : Desk α n [n, n] → β) : Except (Failure α) β × Ledger α n :=
  let (r, session) := act.run ledger.session
  (r.map fun _ => result session.desk, { ledger with session := session })

def answer (s : SquareSystem α) : (q : Request α n) → Ledger α n →
    Except (Failure α) q.Answer × Ledger α n
  | .residual x, ledger => ledger.evaluated (Session.residualAt s x.toArray) (·.residual)
  | .jacobian x, ledger => ledger.evaluated (Session.jacobianAt s x.toArray) (·.jacobian)
  | .both x, ledger =>
    ledger.evaluated (Session.bothAt s x.toArray) fun desk => (desk.residual, desk.jacobian)
  | .note m, ledger => (.ok (), { ledger with notices := m :: ledger.notices })

end Ledger

end RootFinding
