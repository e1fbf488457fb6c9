import Mathlib
import RootFinding.Solver.Session

namespace RootFinding

variable {α : Type} {m n : Nat} {extents : List Nat}

theorem Mat.setColumn_get {a : Mat α m n} {j k : Fin n} {entries : Vec α m} {i : Nat}
    (hi : i < m) :
    (a.setColumn j entries)[i][k] = if j = k then entries[i] else a[i][k] := by
  simp only [setColumn, Vector.getElem_zipWith, Fin.getElem_fin, Vector.getElem_set, Fin.ext_iff]

/-- The step along a coordinate as it is represented, not as it was asked for. -/
def takenStep [Scalar α] (x : α) : α := stepped x - x

namespace SquareSystem

def passed (s : SquareSystem α) (x : Array α) : Except (Failure α) (Point α) :=
  match s.convention, s.dimension with
  | .separateArguments, some n =>
    if x.size = n then .ok ⟨x, true⟩ else .error (.argumentCount x.size n)
  | _, _ => .ok ⟨x, false⟩

def returned {β : Type} (s : SquareSystem α) (what : Quantity) (x : Array α)
    (f : Option (Point α → Except Fault β)) : Except (Failure α) β := do
  let p ← s.passed x
  match f with
  | none => .error (guarded what x .noCallable)
  | some f => (f p).mapError (guarded what x)

def ownResidualValue (s : SquareSystem α) (f : Option (Callable α)) (x : Array α) (m : Nat) :
    Except (Failure α) (Vec α m) := do
  let v ← s.returned .residual x f
  Evaluation.received s .residual .residual x [m] v

def ownJacobianValue (s : SquareSystem α) (j : Callable α) (x : Array α) (extents : List Nat) :
    Except (Failure α) (Block α extents) := do
  let v ← s.returned .jacobian x (some j)
  Evaluation.received s .jacobian .jacobian x extents v

def ownPairValue (s : SquareSystem α) (fj : Option (PairCallable α)) (x : Array α) (m : Nat)
    (extents : List Nat) : Except (Failure α) (Vec α m × Block α extents) := do
  let value ← s.returned .both x fj
  let (v, w) ← Evaluation.unpacked s x value
  let fx ← Evaluation.received s .both .residual x [m] v
  let jac ← Evaluation.received s .both .jacobian x extents w
  return (fx, jac)

variable [Scalar α]

def steppedPoint (x : Vec α n) (j : Fin n) : Array α :=
  (x.set j (stepped (x.get j)) j.isLt).toArray

/-- The matrix with its last columns, so many, replaced by difference quotients. -/
def differencesFrom (residual : Array α → Except (Failure α) (Vec α m)) (base : Vec α m)
    (x : Vec α n) : (count : Nat) → count ≤ n → Mat α m n → Except (Failure α) (Mat α m n)
  | 0, _, a => .ok a
  | count + 1, bound, a => do
    let j : Fin n := Fin.rev ⟨count, bound⟩
    let moved ← residual (steppedPoint x j)
    differencesFrom residual base x count (Nat.le_of_succ_le bound)
      (a.setColumn j (differenceColumn base moved (takenStep (x.get j))))

def differencesValue (s : SquareSystem α) (f : Option (Callable α)) (x : Vec α n)
    (base : Vec α m) : Except (Failure α) (Mat α m n) :=
  differencesFrom (fun y => s.ownResidualValue f y m) base x n (Nat.le_refl n)
    (Block.constant 0 [m, n])

def differenceCalls (x : Vec α n) (count : Nat) : List (Call α) :=
  (((List.finRange n).drop (n - count)).map fun j => ⟨.f, steppedPoint x j⟩).reverse

theorem differenceCalls_zero (x : Vec α n) : differenceCalls x 0 = [] := by
  simp [differenceCalls, List.drop_eq_nil_of_le]

theorem differenceCalls_succ (x : Vec α n) (count : Nat) (bound : count + 1 ≤ n) :
    differenceCalls x (count + 1) =
      differenceCalls x count ++ [⟨.f, steppedPoint x (Fin.rev ⟨count, bound⟩)⟩] := by
  have dropped : (List.finRange n).drop (n - (count + 1)) =
      Fin.rev ⟨count, bound⟩ :: (List.finRange n).drop (n - count) := by
    rw [List.drop_eq_getElem_cons (by simp; omega)]
    congr 1
    · rw [List.getElem_finRange]
      rfl
    · congr 1; omega
  simp only [differenceCalls, dropped, List.map_cons, List.reverse_cons]

theorem differencesFrom_congr (residual : Array α → Except (Failure α) (Vec α m)) (base : Vec α m)
    (x : Vec α n) (count : Nat) (bound : count ≤ n) (a b : Mat α m n)
    (same : ∀ i, (h : i < m) → ∀ k : Fin n, k.val < n - count → a[i][k] = b[i][k]) :
    differencesFrom residual base x count bound a =
      differencesFrom residual base x count bound b := by
  -- A pass sets the first of the columns that are left, so the next needs one agreement less.
  induction count generalizing a b with
  | zero =>
    have equal : a = b := by
      ext i hi k hk
      exact same i hi ⟨k, hk⟩ hk
    rw [equal]
  | succ count ih =>
    simp only [differencesFrom]
    congr 1
    funext moved
    refine ih _ _ _ fun i hi k small => ?_
    rw [Mat.setColumn_get hi, Mat.setColumn_get hi]
    split
    · rfl
    · rename_i other
      refine same i hi k ?_
      have : k.val ≠ n - (count + 1) := fun h => other (Fin.ext h.symm)
      omega

theorem differencesFrom_all (residual : Array α → Except (Failure α) (Vec α m)) (base : Vec α m)
    (x : Vec α n) (a b : Mat α m n) :
    differencesFrom residual base x n (Nat.le_refl n) a =
      differencesFrom residual base x n (Nat.le_refl n) b :=
  differencesFrom_congr residual base x n _ a b fun _ _ _ h => by omega

def residualValue (s : SquareSystem α) (x : Array α) (m : Nat) : Except (Failure α) (Vec α m) :=
  match s.sources with
  | .residualOnly f | .separate f _ | .withBoth f _ _ => s.ownResidualValue f x m
  | .bothOnly fj => (s.ownPairValue fj x m [m, x.size]).map (·.1)

def jacobianValue (s : SquareSystem α) (x : Vec α n) : Except (Failure α) (Mat α n n) :=
  match s.sources with
  | .residualOnly f => do
    let base ← s.ownResidualValue f x.toArray n
    s.differencesValue f x base
  | .separate _ j | .withBoth _ (some j) _ => s.ownJacobianValue j x.toArray [n, n]
  | .withBoth _ none fj => (s.ownPairValue (some fj) x.toArray n [n, n]).map (·.2)
  | .bothOnly fj => (s.ownPairValue fj x.toArray n [n, n]).map (·.2)

def bothValue (s : SquareSystem α) (x : Vec α n) : Except (Failure α) (Vec α n × Mat α n n) :=
  match s.sources with
  | .residualOnly f => do
    let base ← s.ownResidualValue f x.toArray n
    let jac ← s.differencesValue f x base
    return (base, jac)
  | .separate f j => do
    let fx ← s.ownResidualValue f x.toArray n
    let jac ← s.ownJacobianValue j x.toArray [n, n]
    return (fx, jac)
  | .withBoth _ _ fj => s.ownPairValue (some fj) x.toArray n [n, n]
  | .bothOnly fj => s.ownPairValue fj x.toArray n [n, n]

def residualCalls (s : SquareSystem α) (x : Array α) : List (Call α) :=
  match s.sources with
  | .bothOnly _ => [⟨.fj, x⟩]
  | _ => [⟨.f, x⟩]

def jacobianCalls (s : SquareSystem α) (x : Vec α n) : List (Call α) :=
  match s.sources with
  | .residualOnly _ => differenceCalls x n ++ [⟨.f, x.toArray⟩]
  | .separate .. | .withBoth _ (some _) _ => [⟨.j, x.toArray⟩]
  | _ => [⟨.fj, x.toArray⟩]

def bothCalls (s : SquareSystem α) (x : Vec α n) : List (Call α) :=
  match s.sources with
  | .residualOnly _ => differenceCalls x n ++ [⟨.f, x.toArray⟩]
  | .separate .. => [⟨.j, x.toArray⟩, ⟨.f, x.toArray⟩]
  | _ => [⟨.fj, x.toArray⟩]

/-- Wherever a combined callable yields values, the residual callable yields the same residual, and
a Jacobian callable that is given yields the same Jacobian. -/
def Agrees (s : SquareSystem α) (n : Nat) : Prop :=
  match s.sources with
  | .withBoth f j fj => ∀ (x : Vec α n) (fx : Vec α n) (jac : Mat α n n),
    s.ownPairValue (some fj) x.toArray n [n, n] = .ok (fx, jac) →
      s.ownResidualValue f x.toArray n = .ok fx ∧
        ∀ own, j = some own → s.ownJacobianValue own x.toArray [n, n] = .ok jac
  | _ => True

end SquareSystem

end RootFinding
