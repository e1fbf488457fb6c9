import RootFinding.Proofs.SquareSystem.Presentations

namespace RootFinding

variable {α : Type} [Scalar α] {m n : Nat}

def Vec.moved (x : Vec α n) (j : Fin n) : Vec α n :=
  x.set j (x.get j + differenceStep (x.get j)) j.isLt

/-- The point itself, and then the steps from it along each coordinate. -/
def differencePoints (x : Vec α n) : List (Vec α n) := x :: (List.finRange n).map x.moved

/-- In each column the difference between a moved point and the point, divided by the step as it is
represented. -/
def differenceQuotients (f : Vec α n → Vec α m) (x : Vec α n) : Mat α m n :=
  Vector.ofFn fun i => Vector.ofFn fun j =>
    (differenceColumn (f x) (f (x.moved j)) (takenStep (x.get j))).get i

theorem Callables.quotients_eq (c : Callables α n) (x : Vec α n) :
    c.quotients x = differenceQuotients c.map x := rfl

theorem differenceCalls_points (x : Vec α n) :
    SquareSystem.differenceCalls x n ++ [⟨.f, x.toArray⟩] =
      ((differencePoints x).map fun y => (⟨.f, y.toArray⟩ : Call α)).reverse := by
  rw [SquareSystem.differenceCalls, Nat.sub_self, List.drop_zero, differencePoints, List.map_cons,
    List.reverse_cons, List.map_map]
  rfl

theorem differencesFrom_quotients {residual : Array α → Except (Failure α) (Vec α m)}
    {f : Vec α n → Vec α m} (computes : ∀ y : Vec α n, residual y.toArray = .ok (f y))
    (x : Vec α n) (a : Mat α m n) :
    SquareSystem.differencesFrom residual (f x) x n (Nat.le_refl n) a =
      .ok (differenceQuotients f x) :=
  SquareSystem.differencesFrom_columns (fun j => computes (x.moved j)) _ a

def Callable.ofMap (f : Vec α n → Vec α m) : Callable α := fun p =>
  if h : p.entries.size = n then .ok (.ofVec (f ⟨p.entries, h⟩)) else .error .noArgument

omit [Scalar α] in
theorem Callable.ofMap_eq (f : Vec α n → Vec α m) (y : Vec α n) (separate : Bool) :
    ofMap f ⟨y.toArray, separate⟩ = .ok (.ofVec (f y)) := dif_pos y.size_toArray

omit [Scalar α] in
theorem Nested.fill_ofVec (v : Vec α m) : (ofVec v).fill [m] = .ok v := by
  cases m with
  | zero =>
    obtain rfl : v = #v[] := Vector.eq_empty
    rfl
  | succ m =>
    have positive : ∀ extent ∈ [m + 1], 0 < extent := by simp
    exact fill_ofBlock positive v

namespace Evaluation

/-- Writes the values of a map into the residual buffer, leaves the other buffer as it is, and puts
each call on record. At points of another length it may do anything. -/
def Computes (residual : {k : Nat} → Array α → Evaluation α k [m, n] Unit)
    (f : Vec α n → Vec α m) : Prop :=
  ∀ (y : Vec α n) (desk : Desk α m [m, n]),
    (residual y.toArray).run desk = (.ok (), ⟨f y, desk.jacobian, ⟨.f, y.toArray⟩ :: desk.calls⟩)

omit [Scalar α] in
theorem bareResidual_computes {callable : Callable α} {f : Vec α n → Vec α m}
    (values : ∀ y : Vec α n, callable ⟨y.toArray, false⟩ = .ok (.ofVec (f y))) :
    Computes (fun {_} => bareResidual callable) f := by
  intro y desk
  let v : Except (Failure α) (Block α [m]) :=
    ((Nested.ofVec (f y)).fill [m]).mapError Failure.fault
  have filled : v = .ok (f y) := congrArg (Except.mapError Failure.fault) (Nested.fill_ofVec (f y))
  obtain ⟨ended, written⟩ := putResidual_puts v { desk with calls := ⟨.f, y.toArray⟩ :: desk.calls }
  simp only [bareResidual, values]
  refine Prod.ext (ended.trans ?_) (written _ filled)
  rw [filled]
  rfl

section

variable {residual : {k : Nat} → Array α → Evaluation α k [m, n] Unit} {f : Vec α n → Vec α m}

omit [Scalar α] in
theorem Computes.puts (computes : Computes residual f) :
    ∃ value : Array α → Except (Failure α) (Vec α m),
      (∀ y : Vec α n, value y.toArray = .ok (f y)) ∧
        ∀ y : Vec α n, (residual y.toArray : Evaluation α m [m, n] Unit).Puts (value y.toArray)
          Desk.withResidual [⟨.f, y.toArray⟩] := by
  let value (y : Array α) : Except (Failure α) (Vec α m) :=
    if h : y.size = n then .ok (f ⟨y, h⟩) else .error (.fault .noArgument)
  have known (y : Vec α n) : value y.toArray = .ok (f y) := dif_pos y.size_toArray
  refine ⟨value, known, fun y desk => ?_⟩
  rw [known, computes y desk]
  exact ⟨rfl, fun c h => by cases h; rfl⟩

theorem Computes.differenceJacobian_run (computes : Computes residual f) (x : Vec α n)
    (desk : Desk α m [m, n]) :
    (differenceJacobian residual x.toArray : Evaluation α m [m, n] Unit).run desk =
      (.ok (), ⟨desk.residual, differenceQuotients f x,
        ((differencePoints x).map fun y => ⟨.f, y.toArray⟩).reverse ++ desk.calls⟩) := by
  obtain ⟨value, known, puts⟩ := computes.puts
  obtain ⟨ended, written⟩ := differenceJacobian_puts puts x desk
  have quotients : (value x.toArray >>= fun base => SquareSystem.differencesFrom value base x n
      (Nat.le_refl n) (Block.constant 0 [m, n])) = .ok (differenceQuotients f x) := by
    rw [known x]
    exact differencesFrom_quotients known x _
  rw [quotients] at ended
  refine Prod.ext ended ((written _ quotients).trans ?_)
  rw [differenceCalls_points]
  rfl

theorem Computes.differenceBoth_run (computes : Computes residual f) (x : Vec α n)
    (desk : Desk α m [m, n]) :
    (differenceBoth residual x.toArray : Evaluation α m [m, n] Unit).run desk =
      (.ok (), ⟨f x, differenceQuotients f x,
        ((differencePoints x).map fun y => ⟨.f, y.toArray⟩).reverse ++ desk.calls⟩) := by
  obtain ⟨value, known, puts⟩ := computes.puts
  obtain ⟨ended, written⟩ := differenceBoth_puts puts x desk
  have quotients : (do
      let base ← value x.toArray
      let jac ← SquareSystem.differencesFrom value base x n (Nat.le_refl n)
        (Block.constant 0 [m, n])
      return (base, jac)) = .ok (f x, differenceQuotients f x) := by
    rw [known x]
    change (SquareSystem.differencesFrom value (f x) x n _ _ >>= _) = _
    rw [differencesFrom_quotients known x]
    rfl
  rw [quotients] at ended
  refine Prod.ext ended ((written _ quotients).trans ?_)
  rw [differenceCalls_points]
  rfl

end

end Evaluation

end RootFinding
