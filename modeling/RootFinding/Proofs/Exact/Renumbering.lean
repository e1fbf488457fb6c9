import RootFinding.Proofs.Exact.Numbering
import RootFinding.Proofs.Exact.Covariance

namespace RootFinding

open Exact

variable {n : Nat} {rows cols : Equiv.Perm (Fin n)} {s s' : SquareSystem ℝ}

/-- The second system is the first one with other numbers for its unknowns and equations. Nothing is
said of a Jacobian by differences, which is made of the residuals. -/
structure SquareSystem.Renumbers (rows cols : Equiv.Perm (Fin n)) (s s' : SquareSystem ℝ) :
    Prop where
  analytic : s'.analytic = s.analytic
  residual : ∀ y : Vec ℝ n, Alike (fun fx fx' : Vec ℝ n => fx' = renumbered rows fx)
    (s.residualValue (renumbered cols.symm y).toArray n) (s'.residualValue y.toArray n)
  jacobian : s.analytic → ∀ y : Vec ℝ n,
    Alike (fun jac jac' => jac' = renumbered rows (jac.map (renumbered cols)))
      (s.jacobianValue (renumbered cols.symm y)) (s'.jacobianValue y)
  both : s.analytic → ∀ y : Vec ℝ n,
    Alike (fun pair pair' =>
        pair' = (renumbered rows pair.1, renumbered rows (pair.2.map (renumbered cols))))
      (s.bothValue (renumbered cols.symm y)) (s'.bothValue y)

theorem Callables.renumbers {k : Callables ℝ n} (presents : s.Presents k)
    (presents' : s'.Presents (k.inCoordinates (.renumbering rows cols)))
    (analytic : s'.analytic = s.analytic) : s.Renumbers rows cols s' := by
  refine ⟨analytic, fun y => ?_, fun given y => ?_, fun given y => ?_⟩
  · rw [presents.residual, presents'.residual]
    exact .ok rfl
  · rw [presents.jacobian, presents'.jacobian, analytic, given]
    exact .ok rfl
  · rw [presents.both, presents'.both, analytic, given]
    exact .ok rfl

theorem SquareSystem.residualOnly_of_not_analytic {s : SquareSystem ℝ}
    (differences : s.analytic = false) : ∃ f, s.sources = .residualOnly f := by
  obtain ⟨convention, sources, dimension⟩ := s
  cases sources with
  | residualOnly f => exact ⟨f, rfl⟩
  | separate | withBoth | bothOnly => cases differences

namespace SquareSystem.Renumbers

theorem differences (renumbers : s.Renumbers rows cols s') (without : s.analytic = false)
    (y : Vec ℝ n) :
    Alike (fun jac jac' => jac' = (Coordinates.renumbering rows cols).jacobian jac)
        (s.jacobianValue (renumbered cols.symm y)) (s'.jacobianValue y) ∧
      Alike (fun pair pair' => pair' =
          (renumbered rows pair.1, (Coordinates.renumbering rows cols).jacobian pair.2))
        (s.bothValue (renumbered cols.symm y)) (s'.bothValue y) := by
  obtain ⟨f, sources⟩ := residualOnly_of_not_analytic without
  obtain ⟨f', sources'⟩ := residualOnly_of_not_analytic (renumbers.analytic.trans without)
  have residual := renumbers.residual
  simp only [residualValue, sources, sources'] at residual
  have differences (base : Vec ℝ n) :
      Alike (fun jac jac' => jac' = (Coordinates.renumbering rows cols).jacobian jac)
        (s.differencesValue f (renumbered cols.symm y) base)
        (s'.differencesValue f' y (renumbered rows base)) := by
    refine differencesFrom_renumbered rows cols (fun j => ?_) base _ _
    have moved := residual (y.set j (stepped (y.get j)) j.isLt)
    rw [renumbered_steppedPoint] at moved
    exact moved
  simp only [jacobianValue, bothValue, sources, sources']
  refine ⟨(residual y).bind ?_, (residual y).bind ?_⟩
  · rintro base _ rfl
    exact differences base
  · rintro base _ rfl
    refine (differences base).bind ?_
    rintro jac _ rfl
    exact .ok rfl

theorem corresponds (renumbers : s.Renumbers rows cols s') :
    s.Corresponds (.renumbering rows cols) s' := by
  refine ⟨renumbers.analytic, fun y => ?_, fun y => ?_, fun y => ?_⟩
  · rw [(s.reply_values _).1, (s'.reply_values y).1]
    exact renumbers.residual y
  · rw [(s.reply_values _).2.1, (s'.reply_values y).2.1]
    cases given : s.analytic with
    | true => exact renumbers.jacobian given y
    | false => exact (renumbers.differences given y).1
  · rw [(s.reply_values _).2.2, (s'.reply_values y).2.2]
    cases given : s.analytic with
    | true => exact renumbers.both given y
    | false => exact (renumbers.differences given y).2

end SquareSystem.Renumbers

namespace TrustRegion

variable {o : Options ℝ} {t t' : State ℝ n}

structure State.Renumbers (rows cols : Equiv.Perm (Fin n)) (t t' : State ℝ n) : Prop where
  progress : t.progress.Corresponds (.renumbering rows cols) t'.progress
  scaling : t'.scaling = renumbered cols t.scaling
  delta : t'.delta = t.delta

theorem Account.extras_other (account : Account ℝ) :
    ∀ item ∈ account.extras, item.1 ∉ ["x", "fx", "g"] := by
  simp [Account.extras]

namespace State.Renumbers

section Step

variable (renumbers : t.Renumbers rows cols t')
include renumbers

theorem beside : t.Beside (.renumbering rows cols) t' := by
  obtain ⟨progress, scaling, delta⟩ := renumbers
  refine ⟨progress.x, progress.fx, progress.jac, ?_, delta⟩
  rw [scaling]
  exact weighs_renumbered rows cols t.scaling

theorem kept (trial : Vec ℝ n) :
    (t.kept trial).Renumbers rows cols (t'.kept (renumbered rows trial)) := by
  have beside := renumbers.beside
  obtain ⟨x, fx, jac, iteration, tests, recorder⟩ := renumbers.progress
  have rejected : (reject t (t.nextRadius trial)).progress.Corresponds (.renumbering rows cols)
      (reject t' (t'.nextRadius (renumbered rows trial))).progress := by
    refine ⟨x, fx, jac, congrArg (· + 1) iteration, ?_, recorder⟩
    exact congrArg (fun tests => { tests with byStep := false }) tests
  have account : t'.account (renumbered rows trial) = t.account trial := beside.account trial
  refine ⟨?_, renumbers.scaling, beside.nextRadius trial⟩
  simp only [State.kept, account]
  exact rejected.entered (fun _ => rfl) (Account.extras_other _)

theorem taken (trial : Vec ℝ n) (jac : Mat ℝ n n) :
    (t.taken o trial jac).Renumbers rows cols (t'.taken o (renumbered rows trial)
      ((Coordinates.renumbering rows cols).jacobian jac)) := by
  have beside := renumbers.beside
  obtain ⟨x, _, _, iteration, _, recorder⟩ := renumbers.progress
  have isometric := renumbering_isometric rows cols
  have accepted : (accept o t t.trialPoint trial jac (t.nextRadius trial)).1.progress.Corresponds
      (.renumbering rows cols) (accept o t' t'.trialPoint (renumbered rows trial)
        ((Coordinates.renumbering rows cols).jacobian jac)
        (t'.nextRadius (renumbered rows trial))).1.progress := by
    refine ⟨beside.trialPoint, rfl, rfl, congrArg (· + 1) iteration, ?_, recorder⟩
    simp only [accept, ← x, ← beside.trialPoint]
    exact Convergence.assess_corresponds (.inl isometric) _ _ _ _
  have account : t'.account (renumbered rows trial) = t.account trial := beside.account trial
  refine ⟨?_, ?_, beside.nextRadius trial⟩
  · simp only [State.taken, account]
    refine accepted.entered (fun _ => ?_) (Account.extras_other _)
    rw [← x, ← beside.trialPoint, ← Coordinates.point_sub, isometric]
  · simp only [State.taken, accept, renumbers.scaling]
    split
    · exact updateScaling_renumbering rows cols t.scaling jac 0.1
    · rfl

end Step

end State.Renumbers

theorem step_renumbers (system : s.Corresponds (.renumbering rows cols) s')
    (renumbers : t.Renumbers rows cols t') :
    Alike (State.Renumbers rows cols) ((step o t).value s.reply) ((step o t').value s'.reply) := by
  have beside := renumbers.beside
  have trials := system.residual t'.trialPoint
  have matrices := system.jacobian t'.trialPoint
  rw [beside.trialPoint] at trials matrices
  rw [step_value, step_value]
  refine trials.bind ?_
  rintro trial _ rfl
  rw [beside.ratio]
  split
  · refine matrices.bind ?_
    rintro jac _ rfl
    exact .ok (renumbers.taken trial jac)
  · exact .ok (renumbers.kept trial)

theorem first_renumbers (rows cols : Equiv.Perm (Fin n)) (o : Options ℝ) (y fx : Vec ℝ n)
    (jac : Mat ℝ n n) :
    (State.first o (renumbered cols.symm y) fx jac).Renumbers rows cols
      (State.first o y (renumbered rows fx)
        ((Coordinates.renumbering rows cols).jacobian jac)) := by
  have scaling : startScaling o.autoscale ((Coordinates.renumbering rows cols).jacobian jac) =
      renumbered cols (startScaling o.autoscale jac) := by
    rw [startScaling, startScaling]
    split
    · exact initialScaling_renumbering rows cols jac
    · refine ext_get fun j => ?_
      rw [renumbered_get]
      simp only [Vector.get_eq_getElem, Vector.getElem_replicate]
  have delta : startRadius o.factor
      (startScaling o.autoscale ((Coordinates.renumbering rows cols).jacobian jac)) y =
        startRadius o.factor (startScaling o.autoscale jac) (renumbered cols.symm y) := by
    rw [scaling, startRadius, (weighs_renumbered rows cols _).norm]
    rfl
  refine ⟨?_, scaling, delta⟩
  simp only [State.first, delta]
  exact (Progress.start_corresponds (.renumbering rows cols) o y fx jac).entered (fun _ => rfl)
    (Account.extras_other _)

theorem reached_renumbers (system : s.Corresponds (.renumbering rows cols) s') (y : Vec ℝ n)
    (k : Nat) : Alike (State.Renumbers rows cols)
      (Method.trustRegion.reached s o (renumbered cols.symm y) k).1
      (Method.trustRegion.reached s' o y k).1 := by
  have begun : Alike (State.Renumbers rows cols)
      ((start o (renumbered cols.symm y)).value s.reply) ((start o y).value s'.reply) := by
    rw [start_value, start_value]
    refine (system.both y).bind ?_
    rintro ⟨fx, jac⟩ _ rfl
    exact .ok (first_renumbers rows cols o y fx jac)
  exact @Method.reached_alike _ _ _ _ _ _ s s' o o .trustRegion .trustRegion _ y _ begun
    (fun _ _ => step_renumbers system) k

structure State.Abreast (rows cols : Equiv.Perm (Fin n)) (s s' : SquareSystem ℝ)
    (t t' : State ℝ n) : Prop where
  renumbers : t.Renumbers rows cols t'
  p : renumbered cols.symm t'.move.p = t.move.p
  account : ∀ trial, t'.account (renumbered rows trial) = t.account trial
  takes : t'.Takes s' ↔ t.Takes s

theorem abreast (system : s.Corresponds (.renumbering rows cols) s') (o : Options ℝ)
    (y : Vec ℝ n) :
    Method.trustRegion.Abreast (State.Abreast rows cols s s') (.renumbering rows cols) s s' o
      (renumbered cols.symm y) y := by
  refine Method.abreast (m := .trustRegion) (c := .renumbering rows cols) (fun k => ?_) ?_ ?_
  · refine (reached_renumbers system y k).weaken fun t t' renumbers => ?_
    have beside := renumbers.beside
    exact ⟨renumbers, beside.p, beside.account, beside.takes system.residual⟩
  · exact fun t t' holds => holds.renumbers.progress
  · intro length states ledgers states' ledgers' passes passes' holds
    exact passes_sameCounts system.analytic passes passes' (Nat.le_refl length)
      (Nat.le_refl length) fun i less => (holds i less.le).takes

end TrustRegion

/-- Only the numbers change when the unknowns and the equations get others: both methods take the
same steps, at the cost of the same evaluations, and return or fail alike. -/
theorem numbers_irrelevant (renumbers : s.Renumbers rows cols s') (o : Options ℝ)
    (x : Vec ℝ n) :
    (Coordinates.renumbering rows cols).Isometric ∧
      Method.newton.Abreast (Newton.State.Abreast (.renumbering rows cols) s s')
        (.renumbering rows cols) s s' o x (renumbered cols x) ∧
      Method.trustRegion.Abreast (TrustRegion.State.Abreast rows cols s s')
        (.renumbering rows cols) s s' o x (renumbered cols x) := by
  have isometric := renumbering_isometric rows cols
  have system := renumbers.corresponds
  have newton := Newton.abreast (o := o) system (.inl isometric) (.inl isometric)
    (renumbered cols x)
  have trustRegion := TrustRegion.abreast system o (renumbered cols x)
  have point : (Coordinates.renumbering rows cols).point (renumbered cols x) = x :=
    symm_renumbered cols x
  rw [point] at newton
  rw [symm_renumbered] at trustRegion
  exact ⟨isometric, newton, trustRegion⟩

theorem numbers_irrelevant_parabola :
    ∃ s s', Presentation.system (.plain false) TrustRegion.exactParabola = .ok s ∧
      Presentation.system (.plain false) (TrustRegion.exactParabola.inCoordinates
        (.renumbering (Equiv.swap 0 1) (Equiv.swap 0 1))) = .ok s' ∧
      ∃ r r', (solveFrom s .standard .trustRegion #v[1, 3]).result = .ok r ∧
        (solveFrom s' .standard .trustRegion #v[3, 1]).result = .ok r' ∧
        r.Corresponds (.renumbering (Equiv.swap 0 1) (Equiv.swap (0 : Fin 2) 1)) r' := by
  obtain ⟨s, system, presents, analytic⟩ :=
    Presentation.system_ok (by decide) (.plain false) TrustRegion.exactParabola
  obtain ⟨s', system', presents', analytic'⟩ := Presentation.system_ok (by decide) (.plain false)
    (TrustRegion.exactParabola.inCoordinates
      (.renumbering (Equiv.swap 0 1) (Equiv.swap 0 1)))
  have renumbers := Callables.renumbers presents presents' (analytic'.trans analytic.symm)
  obtain ⟨_, _, abreast⟩ := numbers_irrelevant renumbers .standard #v[1, 3]
  have point : renumbered (Equiv.swap 0 1) (#v[1, 3] : Vec ℝ 2) = #v[3, 1] := by
    refine ext_get fun i => ?_
    fin_cases i <;> rfl
  rw [point] at abreast
  obtain ⟨r, returned⟩ := TrustRegion.solveFrom_ok (s := s) (o := .standard) (x := #v[1, 3])
    presents.replies_isOk
  obtain ⟨r', returned', corresponds⟩ := abreast.results.of_ok returned
  exact ⟨s, s', system, system', r, r', returned, returned', corresponds⟩

end RootFinding
