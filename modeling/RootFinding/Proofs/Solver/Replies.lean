import RootFinding.Proofs.SquareSystem.Buffers
import RootFinding.Proofs.Plan

namespace RootFinding

variable {α : Type} [Scalar α] {n : Nat}

def Vec.required (x fx : Vec α n) : Except (Failure α) (Vec α n) :=
  if fx.allFinite then .ok fx else .error (.nonFinite Quantity.residual.label x.toArray)

def Mat.required (x : Vec α n) (jac : Mat α n n) : Except (Failure α) (Mat α n n) :=
  if jac.allFinite then .ok jac else .error (.nonFinite Quantity.jacobian.label x.toArray)

theorem Vec.required_ok {x fx v : Vec α n} :
    Vec.required x fx = .ok v ↔ fx = v ∧ v.allFinite := by
  simp only [Vec.required]
  split <;> grind

theorem Mat.required_ok {x : Vec α n} {jac a : Mat α n n} :
    Mat.required x jac = .ok a ↔ jac = a ∧ a.allFinite := by
  simp only [Mat.required]
  split <;> grind

def Request.counts (analytic : Bool) : Request α n → Nat × Nat
  | residual _ => (1, 0)
  | jacobian _ => (if analytic then 0 else n + 1, 1)
  | both _ => (if analytic then 1 else n + 1, 1)
  | note _ => (0, 0)

namespace SquareSystem

/-- The finite answer to a request. -/
def reply (s : SquareSystem α) : (q : Request α n) → Except (Failure α) q.Answer
  | .residual x => s.residualValue x.toArray n >>= Vec.required x
  | .jacobian x => s.jacobianValue x >>= Mat.required x
  | .both x => do
    let (fx, jac) ← s.bothValue x
    let fx ← Vec.required x fx
    let jac ← Mat.required x jac
    return (fx, jac)
  | .note _ => .ok ()

theorem reply_residual_ok {s : SquareSystem α} {x fx : Vec α n} :
    s.reply (.residual x) = .ok fx ↔ s.residualValue x.toArray n = .ok fx ∧ fx.allFinite := by
  simp only [reply, Except.bind_ok, Vec.required_ok]
  grind

theorem reply_jacobian_ok {s : SquareSystem α} {x : Vec α n} {jac : Mat α n n} :
    s.reply (.jacobian x) = .ok jac ↔ s.jacobianValue x = .ok jac ∧ jac.allFinite := by
  simp only [reply, Except.bind_ok, Mat.required_ok]
  grind

theorem reply_both_ok {s : SquareSystem α} {x fx : Vec α n} {jac : Mat α n n} :
    s.reply (.both x) = .ok (fx, jac) ↔
      s.bothValue x = .ok (fx, jac) ∧ fx.allFinite ∧ jac.allFinite := by
  simp only [reply, Except.bind_ok, Vec.required_ok, Mat.required_ok]
  constructor
  · rintro ⟨⟨v, a⟩, value, v', ⟨rfl, finite⟩, a', ⟨rfl, finite'⟩, same⟩
    cases same
    exact ⟨value, finite, finite'⟩
  · rintro ⟨value, finite, finite'⟩
    exact ⟨_, value, fx, ⟨rfl, finite⟩, jac, ⟨rfl, finite'⟩, rfl⟩

theorem bothValue_agrees {s : SquareSystem α} (agree : s.Agrees n) {x fx : Vec α n}
    {jac : Mat α n n} (value : s.bothValue x = .ok (fx, jac)) :
    s.residualValue x.toArray n = .ok fx ∧ s.jacobianValue x = .ok jac := by
  obtain ⟨convention, sources, dimension⟩ := s
  cases sources with
  | residualOnly f =>
    simp only [bothValue, Except.bind_ok] at value
    obtain ⟨base, found, quotients, differences, same⟩ := value
    cases same
    refine ⟨found, ?_⟩
    simp only [jacobianValue, Except.bind_ok]
    exact ⟨fx, found, differences⟩
  | separate f j =>
    simp only [bothValue, Except.bind_ok] at value
    obtain ⟨own, found, matrix, foundToo, same⟩ := value
    cases same
    exact ⟨found, foundToo⟩
  | withBoth f j fj =>
    obtain ⟨residual, jacobian⟩ := agree x fx jac value
    refine ⟨residual, ?_⟩
    cases j with
    | some j => exact jacobian j rfl
    | none =>
      simp only [bothValue] at value
      simp only [jacobianValue, value, Except.map]
  | bothOnly fj =>
    obtain ⟨entries, rfl⟩ := x
    simp only [bothValue] at value
    simp only [residualValue, jacobianValue, value, Except.map, and_self]

theorem reply_both_agrees {s : SquareSystem α} (agree : s.Agrees n) {x fx : Vec α n}
    {jac : Mat α n n} (replied : s.reply (.both x) = .ok (fx, jac)) :
    s.reply (.residual x) = .ok fx ∧ s.reply (.jacobian x) = .ok jac := by
  obtain ⟨value, finite, finiteToo⟩ := reply_both_ok.mp replied
  obtain ⟨residual, jacobian⟩ := bothValue_agrees agree value
  exact ⟨reply_residual_ok.mpr ⟨residual, finite⟩, reply_jacobian_ok.mpr ⟨jacobian, finiteToo⟩⟩

end SquareSystem

namespace Session

omit [Scalar α] in
theorem counted_run (e : Evaluation α n [n, n] Unit) (check : SessionM α n Unit) (f j : Nat)
    (session : Session α n) :
    (do
      count f j
      evaluate e
      check : SessionM α n Unit).run session =
      match e.run session.desk with
      | (.ok _, desk) => check.run ⟨desk, session.fCalls + f, session.jCalls + j⟩
      | (.error failure, desk) =>
        (.error failure, ⟨desk, session.fCalls + f, session.jCalls + j⟩) := by
  have counted : (count f j : SessionM α n Unit).run session =
      (.ok (), ⟨session.desk, session.fCalls + f, session.jCalls + j⟩) := rfl
  have evaluated (s : Session α n) : (evaluate e).run s =
      ((e.run s.desk).1, ⟨(e.run s.desk).2, s.fCalls, s.jCalls⟩) := rfl
  simp only [Evaluation.run_bind, counted, evaluated]
  rcases e.run session.desk with ⟨_ | _, desk⟩ <;> rfl

theorem checkResidual_run (x : Vec α n) (session : Session α n) :
    (checkResidual x.toArray).run session =
      ((Vec.required x session.desk.residual).map fun _ => (), session) := by
  have looked : (get : SessionM α n (Session α n)).run session = (.ok session, session) := rfl
  simp only [checkResidual, Evaluation.run_bind, looked, Vec.required]
  cases session.desk.residual.allFinite <;> rfl

theorem checkJacobian_run (x : Vec α n) (session : Session α n) :
    (checkJacobian x.toArray).run session =
      ((Mat.required x session.desk.jacobian).map fun _ => (), session) := by
  have looked : (get : SessionM α n (Session α n)).run session = (.ok session, session) := rfl
  simp only [checkJacobian, Evaluation.run_bind, looked, Mat.required]
  cases @Mat.allFinite α n n _ session.desk.jacobian <;> rfl

end Session

namespace Ledger

def Answers (s : SquareSystem α) (q : Request α n) (ledger : Ledger α n) : Prop :=
  (answer s q ledger).1 = s.reply q ∧
    (answer s q ledger).2.session.fCalls = ledger.session.fCalls + (q.counts s.analytic).1 ∧
    (answer s q ledger).2.session.jCalls = ledger.session.jCalls + (q.counts s.analytic).2

omit [Scalar α] in
theorem evaluated_run {γ δ : Type} {e : Evaluation α n [n, n] Unit} {v : Except (Failure α) γ}
    {put : γ → Desk α n [n, n] → Desk α n [n, n]} {made : List (Call α)} (puts : e.Puts v put made)
    (f j : Nat) {check : SessionM α n Unit} {look : Desk α n [n, n] → δ}
    {passes : γ → Except (Failure α) δ}
    (checked : ∀ c desk f j, (check.run ⟨put c desk, f, j⟩).1.map (fun _ => look (put c desk)) =
      passes c ∧ (check.run ⟨put c desk, f, j⟩).2 = ⟨put c desk, f, j⟩) (ledger : Ledger α n) :
    let answered := ledger.evaluated (do
      Session.count f j
      Session.evaluate e
      check) look
    answered.1 = v >>= passes ∧
      answered.2.session.fCalls = ledger.session.fCalls + f ∧
      answered.2.session.jCalls = ledger.session.jCalls + j := by
  simp only [evaluated, Session.counted_run]
  obtain ⟨c, rfl, ended⟩ | ⟨failure, after, rfl, ended⟩ := puts.ends ledger.session.desk
  · rw [ended]
    obtain ⟨passed, kept⟩ := checked c
      { ledger.session.desk with calls := made ++ ledger.session.desk.calls }
      (ledger.session.fCalls + f) (ledger.session.jCalls + j)
    dsimp only
    -- A check looks at the session and leaves it as it is.
    generalize check.run _ = outcome at passed kept ⊢
    obtain ⟨r, session⟩ := outcome
    change session = _ at kept
    subst kept
    exact ⟨passed, rfl, rfl⟩
  · rw [ended]
    exact ⟨rfl, rfl, rfl⟩

theorem answers (s : SquareSystem α) (q : Request α n) (ledger : Ledger α n) :
    Answers s q ledger := by
  cases q with
  | residual x =>
    refine evaluated_run (s.residual_puts x.toArray) 1 0 (fun fx desk f j => ?_) ledger
    rw [Session.checkResidual_run]
    change (((Vec.required x fx).map _).map _ = _) ∧ _
    refine ⟨?_, rfl⟩
    simp only [Vec.required]
    split <;> rfl
  | jacobian x =>
    refine evaluated_run (s.jacobian_puts x) (if s.analytic then 0 else n + 1) 1
      (fun jac desk f j => ?_) ledger
    rw [Session.checkJacobian_run]
    change (((Mat.required x jac).map _).map _ = _) ∧ _
    refine ⟨?_, rfl⟩
    simp only [Mat.required]
    split <;> rfl
  | both x =>
    refine evaluated_run (s.both_puts x) (if s.analytic then 1 else n + 1) 1
      (fun pair desk f j => ?_) ledger
    obtain ⟨fx, jac⟩ := pair
    simp only [Evaluation.run_bind, Session.checkResidual_run, Session.checkJacobian_run,
      Desk.withBoth, Vec.required, Mat.required]
    cases fx.allFinite with
    | false => exact ⟨rfl, rfl⟩
    | true =>
      simp only [if_true, Except.map]
      cases Mat.allFinite jac <;> exact ⟨rfl, trivial⟩
  | note m => exact ⟨rfl, rfl, rfl⟩

theorem run_fst {β : Type} (s : SquareSystem α) (p : Solver α n β) (ledger : Ledger α n) :
    (p.run (answer s) ledger).1 = p.value s.reply :=
  Plan.run_fst (fun q ledger => (answers s q ledger).1) p ledger

theorem value_of_run {β : Type} {p : Solver α n β} {ledger after : Ledger α n}
    {r : Except (Failure α) β} (ran : p.run (answer s) ledger = (r, after)) :
    p.value s.reply = r := by
  rw [← run_fst s p ledger, ran]

end Ledger

namespace SquareSystem

/-- Whatever was asked before, the request is answered and this is the answer. -/
def Yields (s : SquareSystem α) (q : Request α n) (a : q.Answer) : Prop :=
  ∀ ledger, (Ledger.answer s q ledger).1 = .ok a

theorem yields_iff {s : SquareSystem α} {q : Request α n} {a : q.Answer} :
    s.Yields q a ↔ s.reply q = .ok a := by
  constructor
  · intro yields
    rw [← (Ledger.answers s q ⟨Session.fresh, []⟩).1]
    exact yields _
  · intro replied ledger
    rw [(Ledger.answers s q ledger).1, replied]

theorem yields_of_answer {s : SquareSystem α} {q : Request α n} {a : q.Answer}
    {ledger after : Ledger α n} (answered : Ledger.answer s q ledger = (.ok a, after)) :
    s.Yields q a ∧ after.session.fCalls = ledger.session.fCalls + (q.counts s.analytic).1 ∧
      after.session.jCalls = ledger.session.jCalls + (q.counts s.analytic).2 := by
  obtain ⟨replied, counted⟩ := Ledger.answers s q ledger
  rw [answered] at replied counted
  exact ⟨yields_iff.mpr replied.symm, counted⟩

theorem Yields.unique {s : SquareSystem α} {q : Request α n} {a b : q.Answer}
    (first : s.Yields q a) (second : s.Yields q b) : a = b := by
  have same := (yields_iff.mp first).symm.trans (yields_iff.mp second)
  exact Except.ok.inj same

theorem Yields.residual_allFinite {s : SquareSystem α} {x fx : Vec α n}
    (yields : s.Yields (.residual x) fx) : fx.allFinite :=
  (reply_residual_ok.mp (yields_iff.mp yields)).2

theorem Yields.separate {s : SquareSystem α} (agree : s.Agrees n) {x fx : Vec α n}
    {jac : Mat α n n} (yields : s.Yields (.both x) (fx, jac)) :
    s.Yields (.residual x) fx ∧ s.Yields (.jacobian x) jac := by
  obtain ⟨residual, jacobian⟩ := reply_both_agrees agree (yields_iff.mp yields)
  exact ⟨yields_iff.mpr residual, yields_iff.mpr jacobian⟩

theorem Yields.both_allFinite {s : SquareSystem α} {x fx : Vec α n} {jac : Mat α n n}
    (yields : s.Yields (.both x) (fx, jac)) : fx.allFinite ∧ jac.allFinite :=
  (reply_both_ok.mp (yields_iff.mp yields)).2

end SquareSystem

end RootFinding
