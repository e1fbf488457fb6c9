import RootFinding.Proofs.SquareSystem.Values

namespace RootFinding

variable {α : Type} {m n : Nat} {extents : List Nat}

namespace Desk

def withResidual (v : Vec α m) (desk : Desk α m extents) : Desk α m extents :=
  { desk with residual := v }

def withJacobian (a : Block α extents) (desk : Desk α m extents) : Desk α m extents :=
  { desk with jacobian := a }

def withBoth (p : Vec α m × Block α extents) (desk : Desk α m extents) : Desk α m extents :=
  { desk with residual := p.1, jacobian := p.2 }

end Desk

namespace Evaluation

/-- Ends in `v` whatever the buffers hold; a success has put its value there and made the calls,
latest first. -/
def Puts {γ : Type} (e : Evaluation α m extents Unit) (v : Except (Failure α) γ)
    (put : γ → Desk α m extents → Desk α m extents) (made : List (Call α)) : Prop :=
  ∀ desk, (e.run desk).1 = v.map (fun _ => ()) ∧
    ∀ c, v = .ok c → (e.run desk).2 = put c { desk with calls := made ++ desk.calls }

theorem run_bind {σ ε β γ : Type} (e : ExceptT ε (StateM σ) β) (f : β → ExceptT ε (StateM σ) γ)
    (s : σ) :
    (e >>= f).run s =
      match e.run s with
      | (.ok b, after) => (f b).run after
      | (.error failure, after) => (.error failure, after) := by
  change ExceptT.bindCont f (e s).1 (e s).2 =
    match e s with
    | (.ok b, after) => f b after
    | (.error failure, after) => (.error failure, after)
  rcases e s with ⟨_ | _, after⟩ <;> rfl

theorem Puts.ends {γ : Type} {e : Evaluation α m extents Unit} {v : Except (Failure α) γ}
    {put : γ → Desk α m extents → Desk α m extents} {made : List (Call α)}
    (puts : e.Puts v put made) (desk : Desk α m extents) :
    (∃ c, v = .ok c ∧
      ExceptT.run e desk = (.ok (), put c { desk with calls := made ++ desk.calls })) ∨
      ∃ failure after, v = .error failure ∧ ExceptT.run e desk = (.error failure, after) := by
  obtain ⟨ended, written⟩ := puts desk
  cases v with
  | error failure => exact .inr ⟨failure, _, rfl, Prod.ext ended rfl⟩
  | ok c => exact .inl ⟨c, rfl, Prod.ext ended (written c rfl)⟩

theorem point_run (s : SquareSystem α) (x : Array α) (desk : Desk α m extents) :
    (point s x : Evaluation α m extents (Point α)).run desk = (s.passed x, desk) := by
  rcases s with ⟨convention, sources, dimension⟩
  cases convention <;> cases dimension <;> try rfl
  rename_i n
  simp only [point, SquareSystem.passed]
  split <;> rfl

theorem call_run_some {β : Type} {s : SquareSystem α} {x : Array α} {p : Point α}
    (passed : s.passed x = .ok p) (name : CallableName) (what : Quantity)
    (f : Point α → Except Fault β) (desk : Desk α m extents) :
    (call s name what x (some f)).run desk =
      ((f p).mapError (guarded what x), { desk with calls := ⟨name, x⟩ :: desk.calls }) := by
  simp only [call, run_bind, point_run, passed]
  change (liftExcept ((f p).mapError (guarded what x)) : Evaluation α m extents β).run _ =
    ((f p).mapError (guarded what x), _)
  cases f p <;> rfl

theorem call_run {β : Type} (s : SquareSystem α) (name : CallableName) (what : Quantity)
    (x : Array α) (f : Option (Point α → Except Fault β)) (desk : Desk α m extents) :
    ∃ calls, (call s name what x f).run desk = (s.returned what x f, { desk with calls := calls }) ∧
      ∀ v, s.returned what x f = .ok v → calls = ⟨name, x⟩ :: desk.calls := by
  simp only [SquareSystem.returned]
  cases passed : s.passed x with
  | error failure =>
    refine ⟨desk.calls, ?_, fun v h => by cases h⟩
    simp only [call, run_bind, point_run, passed]
    rfl
  | ok p =>
    cases f with
    | none =>
      refine ⟨desk.calls, ?_, fun v h => by cases h⟩
      simp only [call, run_bind, point_run, passed]
      rfl
    | some f => exact ⟨_, call_run_some passed name what f desk, fun v h => rfl⟩

theorem call_bind_puts {β γ : Type} (s : SquareSystem α) (name : CallableName) (what : Quantity)
    (x : Array α) (f : Option (Point α → Except Fault β)) {k : β → Evaluation α m extents Unit}
    {w : β → Except (Failure α) γ} {put : γ → Desk α m extents → Desk α m extents}
    (rest : ∀ b, (k b).Puts (w b) put []) :
    (call s name what x f >>= k).Puts (s.returned what x f >>= w) put [⟨name, x⟩] := by
  intro desk
  obtain ⟨calls, ran, made⟩ := call_run s name what x f desk
  simp only [run_bind, ran]
  cases returned : s.returned what x f with
  | error failure => exact ⟨rfl, fun c h => by cases h⟩
  | ok b =>
    rw [made b returned]
    exact rest b _

theorem putResidual_puts (v : Except (Failure α) (Vec α m)) :
    (do putResidual (← liftExcept v) : Evaluation α m extents Unit).Puts v Desk.withResidual [] := by
  intro desk
  cases v with
  | error failure => exact ⟨rfl, fun c h => by cases h⟩
  | ok b => exact ⟨rfl, fun c h => by cases h; rfl⟩

theorem ownResidual_puts (s : SquareSystem α) (f : Option (Callable α)) (x : Array α) :
    (ownResidual s f x : Evaluation α m extents Unit).Puts (s.ownResidualValue f x m)
      Desk.withResidual [⟨.f, x⟩] :=
  call_bind_puts s .f .residual x f fun v =>
    putResidual_puts (received s .residual .residual x [m] v)

theorem ownJacobian_puts (s : SquareSystem α) (j : Callable α) (x : Array α) :
    (ownJacobian s j x : Evaluation α m extents Unit).Puts (s.ownJacobianValue j x extents)
      Desk.withJacobian [⟨.j, x⟩] := by
  refine call_bind_puts s .j .jacobian x (some j) fun v desk => ?_
  cases received s .jacobian .jacobian x extents v with
  | error failure => exact ⟨rfl, fun c h => by cases h⟩
  | ok b => exact ⟨rfl, fun c h => by cases h; rfl⟩

theorem received_both_puts (s : SquareSystem α) (x : Array α) (v w : Nested α) :
    (do
      putResidual (← liftExcept (received s .both .residual x [m] v))
      putJacobian (← liftExcept (received s .both .jacobian x extents w)) :
        Evaluation α m extents Unit).Puts (do
      let fx ← received s .both .residual x [m] v
      let jac ← received s .both .jacobian x extents w
      return (fx, jac)) Desk.withBoth [] := by
  intro desk
  cases received s .both .residual x [m] v with
  | error failure => exact ⟨rfl, fun c h => by cases h⟩
  | ok fx =>
    cases received s .both .jacobian x extents w with
    | error failure => exact ⟨rfl, fun c h => by cases h⟩
    | ok jac => exact ⟨rfl, fun c h => by cases h; rfl⟩

theorem ownBoth_puts (s : SquareSystem α) (fj : Option (PairCallable α)) (x : Array α) :
    (ownBoth s fj x : Evaluation α m extents Unit).Puts (s.ownPairValue fj x m extents)
      Desk.withBoth [⟨.fj, x⟩] := by
  refine call_bind_puts s .fj .both x fj fun value desk => ?_
  cases unpacked s x value with
  | error failure => exact ⟨rfl, fun c h => by cases h⟩
  | ok pair => exact received_both_puts s x pair.1 pair.2 desk

section Scalars

variable [Scalar α]

omit [Scalar α] in
theorem intoBuffer_run {k : Nat} (buffer : Vec α k) (e : Evaluation α k extents Unit)
    (desk : Desk α m extents) :
    (intoBuffer buffer e).run desk =
      let ended := e.run ⟨buffer, desk.jacobian, desk.calls⟩
      (ended.1.map fun _ => ended.2.residual,
        ⟨desk.residual, ended.2.jacobian, ended.2.calls⟩) := rfl

theorem intoJacobian_run {target : List Nat} (e : Evaluation α m target Unit)
    (desk : Desk α m extents) :
    (intoJacobian target e).run desk =
      let ended := e.run ⟨desk.residual, Block.constant 0 target, desk.calls⟩
      (ended.1.map fun _ => ended.2.jacobian,
        ⟨ended.2.residual, desk.jacobian, ended.2.calls⟩) := rfl

omit [Scalar α] in
theorem intoBuffer_ends {k : Nat} {e : Evaluation α k extents Unit}
    {v : Except (Failure α) (Vec α k)} {made : List (Call α)}
    (puts : e.Puts v Desk.withResidual made) (buffer : Vec α k) (desk : Desk α m extents) :
    (∃ c, v = .ok c ∧
      (intoBuffer buffer e).run desk = (.ok c, { desk with calls := made ++ desk.calls })) ∨
      ∃ failure after, v = .error failure ∧
        (intoBuffer buffer e).run desk = (.error failure, after) := by
  rw [intoBuffer_run]
  obtain ⟨c, rfl, ended⟩ | ⟨failure, after, rfl, ended⟩ :=
    puts.ends ⟨buffer, desk.jacobian, desk.calls⟩
  · rw [ended]
    exact .inl ⟨c, rfl, rfl⟩
  · rw [ended]
    exact .inr ⟨failure, _, rfl, rfl⟩

theorem intoResidual_puts {k : Nat} {γ : Type} {e : Evaluation α k extents Unit}
    {v : Except (Failure α) γ} {put : γ → Desk α k extents → Desk α k extents}
    {made : List (Call α)} (puts : e.Puts v put made) (jac : γ → Block α extents)
    (filled : ∀ c desk, (put c desk).jacobian = jac c)
    (kept : ∀ c desk, (put c desk).calls = desk.calls) :
    (intoResidual k e >>= fun _ => pure () : Evaluation α m extents Unit).Puts (v.map jac)
      Desk.withJacobian made := by
  intro desk
  rw [run_bind, intoResidual, intoBuffer_run]
  obtain ⟨c, rfl, ended⟩ | ⟨failure, after, rfl, ended⟩ :=
    puts.ends ⟨Block.constant 0 [k], desk.jacobian, desk.calls⟩
  · rw [ended]
    dsimp only
    rw [filled, kept]
    exact ⟨rfl, fun a h => by cases h; rfl⟩
  · rw [ended]
    exact ⟨rfl, fun a h => by cases h⟩

theorem intoJacobian_puts {target : List Nat} {γ : Type} {e : Evaluation α m target Unit}
    {v : Except (Failure α) γ} {put : γ → Desk α m target → Desk α m target}
    {made : List (Call α)} (puts : e.Puts v put made) (fx : γ → Vec α m)
    (filled : ∀ c desk, (put c desk).residual = fx c)
    (kept : ∀ c desk, (put c desk).calls = desk.calls) :
    (intoJacobian target e >>= fun _ => pure () : Evaluation α m extents Unit).Puts (v.map fx)
      Desk.withResidual made := by
  intro desk
  rw [run_bind, intoJacobian_run]
  obtain ⟨c, rfl, ended⟩ | ⟨failure, after, rfl, ended⟩ :=
    puts.ends ⟨desk.residual, Block.constant 0 target, desk.calls⟩
  · rw [ended]
    dsimp only
    rw [filled, kept]
    exact ⟨rfl, fun v h => by cases h; rfl⟩
  · rw [ended]
    exact ⟨rfl, fun v h => by cases h⟩

omit [Scalar α] in
theorem set_back (x : Vec α n) (j : Fin n) (moved : α) :
    (x.set j moved j.isLt).set j (x.get j) j.isLt = x := by
  rw [Vector.set_set]
  exact Vector.set_getElem_self j.isLt

/-- A column leaves the point as it found it, so the next one starts from the same point. -/
theorem fillColumn_restores {residual : {k : Nat} → Array α → Evaluation α k extents Unit}
    {base : Vec α m} {h : extents = [m, n]} {j : Fin n} {x point : Vec α n} {buffer left : Vec α m}
    {desk after : Desk α m extents}
    (ran : (fillColumn residual base h j x buffer).run desk = (.ok (point, left), after)) :
    point = x := by
  simp only [fillColumn, run_bind] at ran
  split at ran
  · cases ran
    exact set_back x j _
  · cases ran

theorem fillColumn_run {residual : {k : Nat} → Array α → Evaluation α k [m, n] Unit}
    {rv : Array α → Except (Failure α) (Vec α m)}
    (puts : ∀ y : Vec α n, (residual y.toArray : Evaluation α m [m, n] Unit).Puts (rv y.toArray)
      Desk.withResidual [⟨.f, y.toArray⟩])
    (base : Vec α m) (x : Vec α n) (j : Fin n) (buffer : Vec α m) (desk : Desk α m [m, n]) :
    let y := SquareSystem.steppedPoint x j
    let calls : List (Call α) := ⟨.f, y⟩ :: desk.calls
    (∃ v, rv y = .ok v ∧ (fillColumn residual base rfl j x buffer).run desk = (.ok (x, v),
      ⟨desk.residual,
        Mat.setColumn desk.jacobian j (differenceColumn base v (takenStep (x.get j))), calls⟩)) ∨
      ∃ failure after, rv y = .error failure ∧
        (fillColumn residual base rfl j x buffer).run desk = (.error failure, after) := by
  intro y calls
  have step : (x.set j (stepped (x.get j)) j.isLt).get j - x.get j = takenStep (x.get j) :=
    congrArg (· - x.get j) (Vector.getElem_set_self j.isLt)
  simp only [fillColumn, run_bind, step]
  obtain ⟨v, known, ran⟩ | ⟨failure, after, known, ran⟩ :=
    intoBuffer_ends (puts (x.set j (stepped (x.get j)) j.isLt)) buffer desk
  · rw [ran]
    refine .inl ⟨v, known, ?_⟩
    dsimp only
    rw [set_back]
    rfl
  · rw [ran]
    exact .inr ⟨failure, after, known, rfl⟩

theorem fillColumns_run {residual : {k : Nat} → Array α → Evaluation α k [m, n] Unit}
    {rv : Array α → Except (Failure α) (Vec α m)}
    (puts : ∀ y : Vec α n, (residual y.toArray : Evaluation α m [m, n] Unit).Puts (rv y.toArray)
      Desk.withResidual [⟨.f, y.toArray⟩])
    (base : Vec α m) (x : Vec α n) (count : Nat) (bound : count ≤ n) (buffer : Vec α m)
    (desk : Desk α m [m, n]) :
    let v := SquareSystem.differencesFrom rv base x count bound desk.jacobian
    ((fillColumns residual base rfl count bound x buffer).run desk).1 = v.map (fun _ => ()) ∧
      ∀ a, v = .ok a → ((fillColumns residual base rfl count bound x buffer).run desk).2 =
        ⟨desk.residual, a, SquareSystem.differenceCalls x count ++ desk.calls⟩ := by
  -- Each column finds the point as it was given and the columns set so far, so the induction is
  -- over all contents of the two buffers, at one point.
  induction count generalizing buffer desk with
  | zero =>
    refine ⟨rfl, fun a h => ?_⟩
    cases h
    rw [SquareSystem.differenceCalls_zero]
    rfl
  | succ count ih =>
    simp only [fillColumns, run_bind, SquareSystem.differencesFrom]
    obtain ⟨v, known, ran⟩ | ⟨failure, after, known, ran⟩ :=
      fillColumn_run puts base x (Fin.rev ⟨count, bound⟩) buffer desk
    · rw [known, ran]
      simp only [SquareSystem.differenceCalls_succ x count bound, List.append_assoc]
      exact ih (by omega) v _
    · rw [known, ran]
      exact ⟨rfl, fun a h => by cases h⟩

theorem differences_puts {residual : {k : Nat} → Array α → Evaluation α k [m, n] Unit}
    {rv : Array α → Except (Failure α) (Vec α m)}
    (puts : ∀ y : Vec α n, (residual y.toArray : Evaluation α m [m, n] Unit).Puts (rv y.toArray)
      Desk.withResidual [⟨.f, y.toArray⟩])
    (base : Vec α m) (x : Vec α n) :
    (differences residual x.toArray base : Evaluation α m [m, n] Unit).Puts
      (SquareSystem.differencesFrom rv base x n (Nat.le_refl n) (Block.constant 0 [m, n]))
      (fun a desk => desk.withJacobian a) (SquareSystem.differenceCalls x n) := by
  obtain ⟨entries, rfl⟩ := x
  intro desk
  have ran : differences residual entries base =
      fillColumns residual base rfl entries.size (Nat.le_refl _) ⟨entries, rfl⟩
        (Block.constant 0 [m]) := by
    simp only [differences, dite_true]
  rw [ran, SquareSystem.differencesFrom_all rv base _ _ desk.jacobian]
  exact fillColumns_run puts base _ _ _ _ desk

omit [Scalar α] in
theorem puts_both {e first : Evaluation α m extents Unit}
    {second : Vec α m → Evaluation α m extents Unit}
    {v : Except (Failure α) (Vec α m)} {w : Vec α m → Except (Failure α) (Block α extents)}
    {earlier later : List (Call α)} (puts : first.Puts v Desk.withResidual earlier)
    (rest : ∀ fx, (second fx).Puts (w fx) Desk.withJacobian later)
    (ran : ∀ desk, e.run desk = match first.run desk with
      | (.ok _, after) => (second after.residual).run after
      | (.error failure, after) => (.error failure, after)) :
    e.Puts (do
        let fx ← v
        let jac ← w fx
        return (fx, jac)) Desk.withBoth (later ++ earlier) := by
  intro desk
  rw [ran, List.append_assoc]
  obtain ⟨fx, rfl, ended⟩ | ⟨failure, after, rfl, ended⟩ := puts.ends desk
  · rw [ended]
    change ((second fx).run _).1 = Except.map _ (w fx >>= _) ∧
      ∀ c, (w fx >>= _) = .ok c → ((second fx).run _).2 = _
    obtain ⟨jac, known, filled⟩ | ⟨failure, after, known, failed⟩ :=
      (rest fx).ends (Desk.withResidual fx { desk with calls := earlier ++ desk.calls })
    · rw [known, filled]
      exact ⟨rfl, fun c h => by cases h; rfl⟩
    · rw [known, failed]
      exact ⟨rfl, fun c h => by cases h⟩
  · rw [ended]
    exact ⟨rfl, fun c h => by cases h⟩

theorem differenceJacobian_puts {residual : {k : Nat} → Array α → Evaluation α k [m, n] Unit}
    {rv : Array α → Except (Failure α) (Vec α m)}
    (puts : ∀ y : Vec α n, (residual y.toArray : Evaluation α m [m, n] Unit).Puts (rv y.toArray)
      Desk.withResidual [⟨.f, y.toArray⟩])
    (x : Vec α n) :
    (differenceJacobian residual x.toArray : Evaluation α m [m, n] Unit).Puts
      (rv x.toArray >>= fun base =>
        SquareSystem.differencesFrom rv base x n (Nat.le_refl n) (Block.constant 0 [m, n]))
      (fun a desk => desk.withJacobian a)
      (SquareSystem.differenceCalls x n ++ [⟨.f, x.toArray⟩]) := by
  have dropped (base : Vec α m) :
      (intoResidual m (differences residual x.toArray base) >>= fun _ => pure () :
        Evaluation α m [m, n] Unit).Puts ((SquareSystem.differencesFrom rv base x n
          (Nat.le_refl n) (Block.constant 0 [m, n])).map id)
          (fun a desk => desk.withJacobian a) (SquareSystem.differenceCalls x n) :=
    intoResidual_puts (differences_puts puts base x) id (fun _ _ => rfl) (fun _ _ => rfl)
  intro desk
  simp only [differenceJacobian, List.head?_cons, run_bind, List.append_assoc]
  obtain ⟨v, base, ran⟩ | ⟨failure, after, base, ran⟩ :=
    intoBuffer_ends (puts x) (Block.constant 0 [m]) desk
  · rw [base, intoResidual, ran]
    obtain ⟨ended, written⟩ := dropped v { desk with calls := ⟨.f, x.toArray⟩ :: desk.calls }
    rw [Except.map_id] at ended written
    simp only [run_bind] at ended written
    exact ⟨ended, written⟩
  · rw [base, intoResidual, ran]
    exact ⟨rfl, fun a h => by cases h⟩

theorem differenceBoth_puts {residual : {k : Nat} → Array α → Evaluation α k [m, n] Unit}
    {rv : Array α → Except (Failure α) (Vec α m)}
    (puts : ∀ y : Vec α n, (residual y.toArray : Evaluation α m [m, n] Unit).Puts (rv y.toArray)
      Desk.withResidual [⟨.f, y.toArray⟩])
    (x : Vec α n) :
    (differenceBoth residual x.toArray : Evaluation α m [m, n] Unit).Puts (do
        let base ← rv x.toArray
        let jac ← SquareSystem.differencesFrom rv base x n (Nat.le_refl n) (Block.constant 0 [m, n])
        return (base, jac)) (fun p desk => desk.withBoth p)
      (SquareSystem.differenceCalls x n ++ [⟨.f, x.toArray⟩]) := by
  refine puts_both (puts x) (fun base => differences_puts puts base x) fun desk => ?_
  simp only [differenceBoth, run_bind]
  rcases (residual x.toArray).run desk with ⟨_ | _, after⟩ <;> rfl

end Scalars

end Evaluation

namespace SquareSystem

variable [Scalar α]

open Evaluation

theorem residual_puts (s : SquareSystem α) (x : Array α) :
    (s.residual x : Evaluation α m extents Unit).Puts (s.residualValue x m) Desk.withResidual
      (s.residualCalls x) := by
  obtain ⟨convention, sources, dimension⟩ := s
  cases sources with
  | bothOnly fj =>
    -- The Jacobian of the pair goes into a buffer of its own.
    exact intoJacobian_puts (ownBoth_puts _ fj x) (·.1) (fun _ _ => rfl) (fun _ _ => rfl)
  | residualOnly f | separate f _ | withBoth f _ _ => exact ownResidual_puts _ f x

theorem jacobian_puts (s : SquareSystem α) (x : Vec α n) :
    (s.jacobian x.toArray : Evaluation α n [n, n] Unit).Puts
      (s.jacobianValue x) (fun a desk => desk.withJacobian a) (s.jacobianCalls x) := by
  rcases s with ⟨convention, sources, dimension⟩
  cases sources with
  | residualOnly f =>
    exact @differenceJacobian_puts α n n _ (fun {_} => ownResidual _ f)
      (fun y => ownResidualValue _ f y n) (fun y => ownResidual_puts _ f y.toArray) x
  | separate f j => exact ownJacobian_puts _ j x.toArray
  | withBoth f j fj =>
    cases j with
    | none =>
      exact intoResidual_puts (ownBoth_puts _ (some fj) x.toArray) (·.2) (fun _ _ => rfl)
        (fun _ _ => rfl)
    | some j => exact ownJacobian_puts _ j x.toArray
  | bothOnly fj =>
    exact intoResidual_puts (ownBoth_puts _ fj x.toArray) (·.2) (fun _ _ => rfl) (fun _ _ => rfl)

theorem both_puts (s : SquareSystem α) (x : Vec α n) :
    (s.both x.toArray : Evaluation α n [n, n] Unit).Puts
      (s.bothValue x) (fun p desk => desk.withBoth p) (s.bothCalls x) := by
  rcases s with ⟨convention, sources, dimension⟩
  cases sources with
  | residualOnly f =>
    exact @differenceBoth_puts α n n _ (fun {_} => ownResidual _ f)
      (fun y => ownResidualValue _ f y n) (fun y => ownResidual_puts _ f y.toArray) x
  | separate f j =>
    refine puts_both (ownResidual_puts _ f x.toArray) (fun _ => ownJacobian_puts _ j x.toArray)
      fun desk => ?_
    simp only [SquareSystem.both, run_bind]
    rcases (ownResidual _ f x.toArray).run desk with ⟨_ | _, after⟩ <;> rfl
  | withBoth f j fj => exact ownBoth_puts _ (some fj) x.toArray
  | bothOnly fj => exact ownBoth_puts _ fj x.toArray

end SquareSystem

end RootFinding
