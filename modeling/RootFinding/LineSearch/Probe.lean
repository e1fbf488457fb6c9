import RootFinding.LineSearch.Merit
import RootFinding.Convergence

namespace RootFinding

open Scalar

variable {α : Type} [Scalar α] {n k : Nat}

structure Probe (α : Type) (n : Nat) where
  desk : Desk α n [n, n]
  evaluations : Nat
  notices : List (Notice α)

namespace Probe

def fresh : Probe α n := ⟨⟨Block.constant 0 [n], Block.constant 0 [n, n], []⟩, 0, []⟩

def evaluated {β : Type} (p : Probe α n) (e : Evaluation α n [n, n] Unit)
    (result : Desk α n [n, n] → β) : Except (Failure α) β × Probe α n :=
  match e.run p.desk with
  | (.ok (), desk) => (.ok (result desk), { p with desk := desk, evaluations := p.evaluations + 1 })
  | (.error e, desk) => (.error e, { p with desk := desk })

def answer (s : SquareSystem α) : (q : Request α n) → Probe α n →
    Except (Failure α) q.Answer × Probe α n
  | .residual x, p => p.evaluated (s.residual x.toArray) (·.residual)
  | .jacobian x, p => p.evaluated (s.jacobian x.toArray) (·.jacobian)
  | .both x, p => p.evaluated (s.both x.toArray) fun desk => (desk.residual, desk.jacobian)
  | .note m, p => (.ok (), { p with notices := m :: p.notices })

def run {β : Type} (s : SquareSystem α) (request : Solver α n β) (p : Probe α n) :
    Except (Failure α) β × Probe α n :=
  Plan.run (answer s) request p

end Probe

/-- A direction from a point, with the merit value there. -/
structure Ray (α : Type) (n k : Nat) where
  x : Vec α n
  direction : Vec α k
  phi0 : α

namespace Ray

/-- The point at a step length. A single entry of point or direction stands for all. -/
def point (r : Ray α n k) (alpha : α) : Except Fault (Array α) := do
  let ⟨_, x, direction⟩ ← spreadPair r.x r.direction
  return (x + Vec.scale alpha direction).toArray

/-- Answers along a direction of another length than the point, where there is no slope. -/
def answerUneven (s : SquareSystem α) (r : Ray α n k) : (q : MeritRequest α) → Probe α n →
    Except (Failure α) q.Answer × Probe α n
  | .value alpha, p =>
    if alpha == 0 then (.ok r.phi0, p)
    else match r.point alpha with
      | .error f => (.error (.fault f), p)
      | .ok x => p.evaluated (s.residual x) fun desk => Merit.halfSquare desk.residual
  | .slope alpha, p =>
    match r.point alpha with
    | .error f => (.error (.fault f), p)
    | .ok x =>
      let (result, p) := p.evaluated (s.both x) fun _ => ()
      (result.bind fun _ => .error (.fault (.notAligned n k)), p)
  | .note m, p => (.ok (), { p with notices := m :: p.notices })

def answer (s : SquareSystem α) (r : Ray α n k) (q : MeritRequest α) (p : Probe α n) :
    Except (Failure α) q.Answer × Probe α n :=
  if h : k = n then
    let merit : Merit α n := ⟨r.x, h ▸ r.direction, r.phi0⟩
    p.run s (merit.serve q)
  else r.answerUneven s q p

def search (s : SquareSystem α) (r : Ray α n k) (strategy : LineSearch α) (slope : α)
    (p : Probe α n) : Except (Failure α) α × Probe α n :=
  let (result, p) := (strategy.search r.phi0 slope r.direction.norm).run (r.answer s)
    { p with notices := [] }
  (result.map (·.1), p)

end Ray

end RootFinding
