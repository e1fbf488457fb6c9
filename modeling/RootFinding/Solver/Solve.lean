import RootFinding.Solver.Newton
import RootFinding.Solver.TrustRegion

namespace RootFinding

inductive Method where
  | trustRegion
  | newton
  deriving DecidableEq, Repr

namespace Method

def option : Method → String
  | trustRegion => "trust_region"
  | newton => "newton"

def ofOption? (s : String) : Option Method := [trustRegion, newton].find? (·.option == s)

def name : Method → String
  | trustRegion => TrustRegion.name
  | newton => Newton.name

variable {α : Type} [Scalar α] {n : Nat}

def run : Method → Options α → Vec α n → Solver α n (Progress α n)
  | trustRegion => TrustRegion.run
  | newton => Newton.run

end Method

/-- The end of a solve, the calls that were made and what was reported, in order. -/
structure Outcome (α : Type) where
  result : Except (Failure α) (Results α)
  calls : List (Call α)
  notices : List (Notice α)

variable {α : Type} [Scalar α]

def solveFrom {n : Nat} (s : SquareSystem α) (o : Options α) (m : Method) (x : Vec α n) :
    Outcome α :=
  let begun : Ledger α n :=
    ⟨Session.fresh, [.solveStart m.option s.convention s.analytic]⟩
  let (ending, ledger) := (m.run o x).run (Ledger.answer s) begun
  let session := ledger.session
  match ending with
  | .error e => ⟨.error e, session.desk.calls.reverse, ledger.notices.reverse⟩
  | .ok p =>
    let r := p.results o m.name x session.fCalls session.jCalls
    let final : Notice α := .solveDone r.converged p.iteration r.residualNorm
    ⟨.ok r, session.desk.calls.reverse, (final :: ledger.notices).reverse⟩

/-- A solve of given equations from a given point; both are checked in this order, after the
method. -/
def solve (e : Equations α) (jacobian : Option (Callable α)) (given : Except Fault (GivenPoint α))
    (method : String) (o : Options α) : Outcome α :=
  match Method.ofOption? method with
  | none => ⟨.error (.setting (.method method)), [], []⟩
  | some m =>
    match e.toSystem jacobian with
    | .error failure => ⟨.error failure, [], []⟩
    | .ok s =>
      match (given.mapError Failure.fault).bind (preparePoint s.dimension) with
      | .error failure =>
        ⟨.error failure, [], [.solveStart m.option s.convention s.analytic]⟩
      | .ok entries => solveFrom s o m (Vec.ofList entries)

end RootFinding
