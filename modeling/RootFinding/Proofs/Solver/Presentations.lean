import RootFinding.Proofs.SquareSystem.Presentations
import RootFinding.Proofs.Solver.Passes

namespace RootFinding

variable {α : Type} [Scalar α] {n : Nat}

theorem solveFrom_congr {s s' : SquareSystem α}
    (replies : ∀ q : Request α n, s.reply q = s'.reply q) (analytic : s.analytic = s'.analytic)
    (o : Options α) (m : Method) (x : Vec α n) :
    (solveFrom s o m x).result = (solveFrom s' o m x).result := by
  let alike (ledger ledger' : Ledger α n) : Prop :=
    ledger.session.fCalls = ledger'.session.fCalls ∧ ledger.session.jCalls = ledger'.session.jCalls
  have answers (q : Request α n) (ledger ledger' : Ledger α n) (start : alike ledger ledger') :
      (Ledger.answer s q ledger).1 = (Ledger.answer s' q ledger').1 ∧
        alike (Ledger.answer s q ledger).2 (Ledger.answer s' q ledger').2 := by
    obtain ⟨replied, fCalls, jCalls⟩ := Ledger.answers s q ledger
    obtain ⟨replied', fCalls', jCalls'⟩ := Ledger.answers s' q ledger'
    refine ⟨?_, ?_, ?_⟩
    · rw [replied, replied', replies q]
    · rw [fCalls, fCalls', start.1, analytic]
    · rw [jCalls, jCalls', start.2, analytic]
  have begun : alike (.begun s m) (.begun s' m) := ⟨rfl, rfl⟩
  obtain ⟨ended, fCalls, jCalls⟩ := Plan.run_related answers (m.run o x) begun
  rw [solveFrom_result, solveFrom_result]
  generalize (m.run o x).run (Ledger.answer s) (.begun s m) = outcome at ended fCalls jCalls ⊢
  generalize (m.run o x).run (Ledger.answer s') (.begun s' m) = outcome' at ended fCalls jCalls ⊢
  obtain ⟨result, after⟩ := outcome
  obtain ⟨result', after'⟩ := outcome'
  change result = result' at ended
  subst ended
  cases result with
  | error failure => rfl
  | ok p =>
    change after.session.fCalls = after'.session.fCalls at fCalls
    change after.session.jCalls = after'.session.jCalls at jCalls
    simp only [fCalls, jCalls]

theorem preparePoint_entries {dimension : Option Nat} {given : GivenPoint α} {entries : List α}
    (prepared : preparePoint dimension given = .ok entries) : entries = given.2 := by
  obtain ⟨extents, values⟩ := given
  simp only [preparePoint] at prepared
  grind

theorem preparePoint_ne_nil {dimension : Option Nat} {given : GivenPoint α} {entries : List α}
    (prepared : preparePoint dimension given = .ok entries) : entries ≠ [] := by
  obtain ⟨extents, values⟩ := given
  simp only [preparePoint] at prepared
  grind

theorem preparePoint_suits {dimension : Option Nat} {given : GivenPoint α}
    (suits : ∀ d ∈ dimension, given.2.length = d) :
    preparePoint dimension given = preparePoint none given := by
  have filtered : dimension.filter (· ≠ given.2.length) = none := by
    rw [Option.filter_eq_none_iff]
    intro d member
    simp [suits d member]
  simp only [preparePoint, filtered, Option.filter_none]

theorem preparePoint_ok {dimension : Option Nat} {given : GivenPoint α} {entries : List α}
    (prepared : preparePoint dimension given = .ok entries) :
    ∀ d ∈ dimension, entries.length = d := by
  obtain ⟨extents, values⟩ := given
  simp only [preparePoint] at prepared
  split at prepared
  · cases prepared
  split at prepared
  · cases prepared
  split at prepared
  · cases prepared
  rename_i other
  split at prepared
  · cases prepared
    intro d member
    by_contra different
    rw [Option.mem_def.mp member, Option.filter_some, if_pos] at other
    · cases other
    · exact decide_eq_true fun same => different same.symm
  · cases prepared

theorem preparePoint_of_finite {entries : List α} (some' : entries ≠ [])
    (finite : entries.all Scalar.isFinite) :
    preparePoint none ([entries.length], entries) = .ok entries := by
  have filled : ¬ entries.isEmpty = true := by simpa using some'
  have flat : ¬ [entries.length].length ≠ 1 := by simp
  simp only [preparePoint]
  rw [if_neg flat, if_neg filled, Option.filter_none]
  exact if_pos finite

theorem solve_prepared {s : SquareSystem α} {e : Equations α} {jacobian : Option (Callable α)}
    {given : Except Fault (GivenPoint α)} {method : String} {m : Method} {entries : List α}
    (named : Method.ofOption? method = some m) (system : e.toSystem jacobian = .ok s)
    (prepared : (given.mapError Failure.fault).bind (preparePoint s.dimension) = .ok entries)
    (o : Options α) : solve e jacobian given method o = solveFrom s o m (Vec.ofList entries) := by
  simp only [solve, named, system, prepared]

theorem solve_ok {e : Equations α} {jacobian : Option (Callable α)}
    {given : Except Fault (GivenPoint α)} {method : String} {o : Options α} {r : Results α}
    (returned : (solve e jacobian given method o).result = .ok r) :
    ∃ m s entries, Method.ofOption? method = some m ∧ e.toSystem jacobian = .ok s ∧
      (given.mapError Failure.fault).bind (preparePoint s.dimension) = .ok entries := by
  cases named : Method.ofOption? method with
  | none =>
    simp only [solve, named] at returned
    cases returned
  | some m =>
    cases system : e.toSystem jacobian with
    | error failure =>
      simp only [solve, named, system] at returned
      cases returned
    | ok s =>
      cases prepared : (given.mapError Failure.fault).bind (preparePoint s.dimension) with
      | error failure =>
        simp only [solve, named, system, prepared] at returned
        cases returned
      | ok entries => exact ⟨m, s, entries, rfl, rfl, prepared⟩

theorem solve_result {s : SquareSystem α} {e : Equations α} {jacobian : Option (Callable α)}
    (system : e.toSystem jacobian = .ok s) (suits : ∀ d ∈ s.dimension, n = d) (x : Vec α n)
    (method : String) (o : Options α) :
    (solve e jacobian (.ok ([n], x.toList)) method o).result =
      match Method.ofOption? method with
      | none => .error (.setting (.method method))
      | some m =>
        preparePoint none ([n], x.toList) >>= fun _ => (solveFrom s o m x).result := by
  have begins : preparePoint s.dimension (([n], x.toList) : GivenPoint α) =
      preparePoint none ([n], x.toList) :=
    preparePoint_suits fun d member => x.length_toList.trans (suits d member)
  simp only [solve, system, Except.mapError, Except.bind, begins]
  cases Method.ofOption? method with
  | none => rfl
  | some m =>
    cases prepared : preparePoint none (([n], x.toList) : GivenPoint α) with
    | error failure => rfl
    | ok entries =>
      obtain rfl := preparePoint_entries prepared
      obtain ⟨⟨entries⟩, rfl⟩ := x
      rfl

theorem SquareSystem.Presents.reply_eq {s s' : SquareSystem α} {c : Callables α n}
    (presents : s.Presents c) (presents' : s'.Presents c) (analytic : s.analytic = s'.analytic)
    (q : Request α n) : s.reply q = s'.reply q := by
  cases q with
  | residual x => simp only [reply, presents.residual, presents'.residual]
  | jacobian x => simp only [reply, presents.jacobian, presents'.jacobian, analytic]
  | both x => simp only [reply, presents.both, presents'.both, analytic]
  | note m => rfl

def Presentation.solve (w : Presentation) (c : Callables α n) (x : Vec α n) (method : String)
    (o : Options α) : Except (Failure α) (Results α) := do
  let (e, jacobian) ← w.equations c
  (RootFinding.solve e jacobian (.ok ([n], x.toList)) method o).result

/-- However the same callables are presented, every evaluation yields their values, both at once
what each yields apart, and a solve ends in the same result. -/
theorem presentations_agree (positive : 0 < n) (c : Callables α n) {w w' : Presentation}
    (alike : w.analytic = w'.analytic) (x : Vec α n) (method : String) (o : Options α) :
    w.solve c x method o = w'.solve c x method o ∧
      ∃ s, w.system c = .ok s ∧
        ∀ y : Vec α n, s.Evaluates y (c.map y) (c.jacobian w.analytic y) := by
  obtain ⟨e, jacobian, s, handed, system, analytic, suits, supply⟩ := w.equations_ok positive c
  obtain ⟨e', jacobian', s', handed', system', analytic', suits', supply'⟩ :=
    w'.equations_ok positive c
  have presents := supply.presents positive suits
  have presents' := supply'.presents positive suits'
  have same : s.analytic = s'.analytic := by rw [analytic, analytic', alike]
  refine ⟨?_, s, ?_, fun y => ?_⟩
  · rw [Presentation.solve, Presentation.solve, handed, handed']
    change (solve e jacobian _ method o).result = (solve e' jacobian' _ method o).result
    rw [solve_result system suits, solve_result system' suits']
    cases Method.ofOption? method with
    | none => rfl
    | some m => simp only [solveFrom_congr (presents.reply_eq presents' same) same o m x]
  · rw [Presentation.system, handed]
    exact system
  · rw [← analytic]
    exact presents.evaluates y

def parabola : Callables Float 2 :=
  .of (fun x => #v[x[0] * x[0] - 4, x[1] - x[0]]) fun x => #v[#v[x[0] + x[0], 0], #v[-1, 1]]

theorem presentations_agree_parabola :
    ∃ r, Presentation.solve (.separateArguments true) parabola #v[3, 1] "newton" .standard = .ok r ∧
      r.fConverged ∧ r.fCalls = 9 ∧
      Presentation.solve (.onlyBoth true false) parabola #v[3, 1] "newton" .standard = .ok r := by
  have computed : (Presentation.solve (.separateArguments true) parabola #v[3, 1] "newton"
      .standard).toOption.map (fun r => (r.fConverged, r.fCalls)) = some (true, 9) := by
    decide +kernel
  have alike : (Presentation.separateArguments true).analytic =
      (Presentation.onlyBoth true false).analytic := rfl
  have same := (presentations_agree (by decide) parabola alike #v[3, 1] "newton" .standard).1
  obtain ⟨r, returned, counted⟩ := Plan.ok_of_toOption computed
  rw [Prod.mk.injEq] at counted
  exact ⟨r, returned, counted.1, counted.2, same.symm.trans returned⟩

end RootFinding
