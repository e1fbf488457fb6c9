import RootFinding.Proofs.Solver.Recording

namespace RootFinding

open Scalar

variable {α : Type} {n : Nat} {o : Options α} {m : Method}

def Options.tracing (o : Options α) (store shows extended : Bool) : Options α :=
  { o with storeTrace := store, showTrace := shows, extendedTrace := extended }

abbrev Options.traced (o : Options α) : Options α := o.tracing true true true

def Entry.limited (o : Options α) (e : Entry α) : Entry α := if o.extendedTrace then e else e.plain

def Recorder.limited (o : Options α) (r : Recorder α) : Recorder α where
  store := o.storeTrace
  shows := o.showTrace
  extended := o.extendedTrace
  entries := if o.storeTrace then r.entries.map (·.limited o) else []

structure Recorder.Full (r : Recorder α) : Prop where
  store : r.store
  shows : r.shows
  extended : r.extended

def Options.tell (o : Options α) : (q : Request α n) → Solver α n q.Answer
  | .note (.traced e) => if o.showTrace then Solver.note (.traced (e.limited o)) else pure ()
  | q => Plan.request q

theorem Options.tell_quiet (o : Options α) (q : Request α n) (quiet : q.Quiet) :
    o.tell q = Plan.request q := by
  cases q with
  | residual x | jacobian x | both x => rfl
  | note m =>
    cases m with
    | traced e => exact quiet.elim
    | _ => rfl

theorem Options.tell_unfailing (o : Options α) (q : Request α n) : (o.tell q).Unfailing := by
  cases q with
  | residual x | jacobian x | both x => exact Plan.unfailing_request _
  | note m =>
    cases m with
    | traced e =>
      show (if o.showTrace then Solver.note (.traced (e.limited o)) else pure ()).Unfailing
      split
      · exact Plan.unfailing_request _
      · exact Plan.unfailing_pure _
    | _ => exact Plan.unfailing_request _

variable [Scalar α] {s : SquareSystem α} {x : Vec α n}

def Progress.limited (o : Options α) (p : Progress α n) : Progress α n :=
  { p with recorder := p.recorder.limited o }

theorem Progress.written_limited (o : Options α) {p : Progress α n} (full : p.recorder.Full)
    (stepnorm : α) (more : Extras α) :
    (p.limited o).written stepnorm more =
      Progress.limited o <$> (p.written stepnorm more).serve o.tell := by
  obtain ⟨_, _, _, storeTrace, showTrace, extendedTrace, _, _, _⟩ := o
  obtain ⟨x, fx, jac, iteration, tests, ⟨store, shows, extended, entries⟩⟩ := p
  obtain ⟨rfl, rfl, rfl⟩ := full
  cases storeTrace <;> cases showTrace <;> cases extendedTrace <;> rfl

theorem Progress.written_full {p : Progress α n} (full : p.recorder.Full) (stepnorm : α)
    (more : Extras α) :
    (p.written stepnorm more).Ensures (fun q => q.recorder.Full) fun _ => True := by
  have kept : (p.entered stepnorm more).recorder.Full := by
    rw [entered_recorder]
    exact ⟨full.store, full.shows, full.extended⟩
  unfold written
  rw [if_pos full.shows]
  exact fun _ => kept

namespace Method

def limited (m : Method) (o : Options α) (t : m.State α n) : m.State α n :=
  m.recording (·.limited o) t

theorem Draft.written_limited (o : Options α) {d : m.Draft α n}
    (full : (m.progress d.state).recorder.Full) :
    (d.recording (·.limited o)).written = m.limited o <$> d.written.serve o.tell := by
  unfold written
  show (do
    let p ← (m.progress (m.recording _ d.state)).written d.stepnorm d.more
    pure (m.withProgress (m.recording _ d.state) p)) = _
  rw [progress_recording]
  show (do
    let p ← ((m.progress d.state).limited o).written d.stepnorm d.more
    pure (m.withProgress (m.recording _ d.state) p)) = _
  rw [Progress.written_limited o full, bind_map_left, Plan.serve_bind, map_bind]
  congr 1
  funext p
  cases m <;> rfl

theorem Draft.written_full {d : m.Draft α n} (full : (m.progress d.state).recorder.Full) :
    d.written.Ensures (fun t => (m.progress t).recorder.Full) fun _ => True := by
  apply (Progress.written_full full _ _).bind
  intro p kept
  apply Plan.ensures_pure
  cases m <;> exact kept

theorem begins_limited (m : Method) (o : Options α) (x : Vec α n) :
    m.begins o x = Draft.recording (·.limited o) <$> m.begins o.traced x := by
  have empty : (⟨o.storeTrace, o.showTrace, o.extendedTrace, []⟩ : Recorder α) =
      Recorder.limited o ⟨true, true, true, []⟩ := by
    unfold Recorder.limited
    rw [List.map_nil, ite_self]
  cases m with
  | trustRegion =>
    show TrustRegion.begins o x = _ <$> TrustRegion.begins _ x
    unfold TrustRegion.begins Progress.start
    rw [empty]
    rfl
  | newton =>
    show Newton.begins o x = _ <$> Newton.begins _ x
    unfold Newton.begins Progress.start
    rw [empty]
    rfl

theorem begins_full (m : Method) (o : Options α) (x : Vec α n) :
    (m.begins o.traced x).Ensures (fun d => (m.progress d.state).recorder.Full)
      fun _ => True := by
  apply (begins_continues m o.traced x).imp
  intro d continues
  rw [continues.recorder]
  exact ⟨rfl, rfl, rfl⟩

theorem start_limited (m : Method) (o : Options α) (x : Vec α n) :
    m.start o x = m.limited o <$> (m.start o.traced x).serve o.tell := by
  rw [start_eq, start_eq, begins_limited, bind_map_left, Plan.serve_bind, map_bind,
    (begins_quiet m o.traced x).serve_eq o.tell_quiet]
  exact (begins_full m o x).bind_congr fun d full => Draft.written_limited o full

theorem start_full (m : Method) (o : Options α) (x : Vec α n) :
    (m.start o.traced x).Ensures (fun t => (m.progress t).recorder.Full) fun _ => True := by
  rw [start_eq]
  exact (begins_full m o x).bind fun d full => Draft.written_full full

theorem step_limited (o : Options α) {t : m.State α n} (full : (m.progress t).recorder.Full) :
    m.step o (m.limited o t) = m.limited o <$> (m.step o.traced t).serve o.tell := by
  have same : m.moves o.traced t = m.moves o t := by cases m <;> rfl
  rw [step_eq, step_eq, limited, moves_recording, bind_map_left, Plan.serve_bind, map_bind,
    (moves_quiet m o.traced t).serve_eq o.tell_quiet, same]
  apply (moves_continues m o t).bind_congr
  intro d continues
  exact Draft.written_limited o (continues.recorder ▸ full)

theorem step_full (o : Options α) {t : m.State α n} (full : (m.progress t).recorder.Full) :
    (m.step o t).Ensures (fun next => (m.progress next).recorder.Full) fun _ => True := by
  rw [step_eq]
  apply (moves_continues m o t).bind
  intro d continues
  exact Draft.written_full (continues.recorder ▸ full)

theorem iterate_limited (o : Options α) (passes : Nat) {t : m.State α n}
    (full : (m.progress t).recorder.Full) :
    m.iterate o passes (m.limited o t) =
      m.limited o <$> (m.iterate o.traced passes t).serve o.tell := by
  induction passes generalizing t with
  | zero =>
    rw [iterate_zero, iterate_zero]
    rfl
  | succ passes ih =>
    -- The tests do not depend on the recorder, so both stop together.
    have tests : (m.progress (m.limited o t)).tests = (m.progress t).tests := by
      rw [limited, progress_recording]
    rw [iterate_succ, iterate_succ, tests]
    split
    · rfl
    · rw [step_limited o full, bind_map_left, Plan.serve_bind, map_bind]
      apply ((step_full o.traced full).serve o.tell_unfailing).bind_congr
      intro next full'
      exact ih full'

theorem run_limited (m : Method) (o : Options α) (x : Vec α n) :
    m.run o x = Progress.limited o <$> (m.run o.traced x).serve o.tell := by
  rw [run_eq, run_eq, start_limited, bind_map_left, Plan.serve_bind, map_bind]
  apply ((start_full m o x).serve o.tell_unfailing).bind_congr
  intro t full
  rw [iterate_limited o _ full, bind_map_left, Plan.serve_bind, map_bind]
  congr 1
  funext final
  have progress : m.progress (m.limited o final) = (m.progress final).limited o :=
    progress_recording m _ final
  rw [progress]
  show (if !(m.progress final).tests.any then _ else _) = _
  split
  · cases m <;> rfl
  · rfl

end Method

def Notice.limited? (o : Options α) : Notice α → Option (Notice α)
  | .traced e => if o.showTrace then some (.traced (e.limited o)) else none
  | m => some m

def Ledger.limited (o : Options α) (ledger : Ledger α n) : Ledger α n :=
  { ledger with notices := ledger.notices.filterMap (Notice.limited? o) }

theorem Ledger.answer_limited (o : Options α) (q : Request α n) (ledger : Ledger α n) :
    (o.tell q).run (answer s) (ledger.limited o) =
      ((answer s q ledger).1, (answer s q ledger).2.limited o) := by
  cases q with
  | residual x | jacobian x | both x => exact Plan.run_request _ _ _
  | note m =>
    cases m with
    | traced e =>
      show (if o.showTrace then Solver.note (.traced (e.limited o)) else pure ()).run _ _ =
        (.ok (), Ledger.limited o ⟨ledger.session, .traced e :: ledger.notices⟩)
      unfold limited
      rw [List.filterMap_cons]
      unfold Notice.limited?
      cases o.showTrace <;> rfl
    | _ => exact Plan.run_request _ _ _

def Results.limited (o : Options α) (r : Results α) : Results α :=
  { r with trace := if o.storeTrace then r.trace.map (·.limited o) else [] }

omit [Scalar α] in
theorem Progress.trace_limited (o : Options α) (p : Progress α n) :
    (p.limited o).recorder.trace =
      if o.storeTrace then p.recorder.trace.map (·.limited o) else [] := by
  unfold Progress.limited Recorder.limited Recorder.trace
  dsimp only
  split
  · exact List.map_reverse.symm
  · rfl

theorem Progress.results_limited (o : Options α) (p : Progress α n) (method : String)
    (initial : Vec α n) (f j : Nat) :
    (p.limited o).results o method initial f j =
      (p.results o.traced method initial f j).limited o := by
  unfold results Results.limited
  rw [trace_limited]
  rfl

def Outcome.limited (o : Options α) (out : Outcome α) : Outcome α where
  result := out.result.map (·.limited o)
  calls := out.calls
  notices := out.notices.filterMap (Notice.limited? o)

theorem run_ledger (m : Method) (o : Options α) (x : Vec α n) (ledger : Ledger α n) :
    (m.run o x).run (Ledger.answer s) (ledger.limited o) =
      (((m.run o.traced x).run (Ledger.answer s) ledger).1.map (Progress.limited o),
        ((m.run o.traced x).run (Ledger.answer s) ledger).2.limited o) := by
  have answers (q : Request α n) (whole part : Ledger α n) (known : part = whole.limited o) :
      (Ledger.answer s q whole).1 = ((o.tell q).run (Ledger.answer s) part).1 ∧
        ((o.tell q).run (Ledger.answer s) part).2 = (Ledger.answer s q whole).2.limited o := by
    rw [known, Ledger.answer_limited]
    exact ⟨rfl, rfl⟩
  obtain ⟨same, after⟩ := Plan.run_related answers (m.run o.traced x) (s := ledger) rfl
  rw [m.run_limited o x, Plan.run_map, Plan.run_serve, ← same, after]

theorem solveFrom_limited (s : SquareSystem α) (o : Options α) (m : Method) (x : Vec α n) :
    solveFrom s o m x = (solveFrom s o.traced m x).limited o := by
  have ran := run_ledger (s := s) m o x
    ⟨Session.fresh, [.solveStart m.option s.convention s.analytic]⟩
  have begun : Ledger.limited o (⟨Session.fresh, [.solveStart m.option s.convention s.analytic]⟩ :
      Ledger α n) = ⟨Session.fresh, [.solveStart m.option s.convention s.analytic]⟩ := rfl
  rw [begun] at ran
  unfold solveFrom
  dsimp only
  rw [ran]
  rcases (m.run o.traced x).run (Ledger.answer s) _ with ⟨failure | p, ledger⟩
  · show Outcome.mk _ _ (ledger.notices.filterMap _).reverse =
      Outcome.mk _ _ (ledger.notices.reverse.filterMap _)
    rw [List.filterMap_reverse]
    rfl
  · show Outcome.mk (.ok ((p.limited o).results o m.name x _ _)) _
      (_ :: ledger.notices.filterMap _).reverse =
        Outcome.mk _ _ ((_ :: ledger.notices).reverse.filterMap _)
    rw [List.filterMap_reverse, Progress.results_limited]
    rfl

theorem solve_limited (e : Equations α) (jacobian : Option (Callable α))
    (given : Except Fault (GivenPoint α)) (method : String) (o : Options α) :
    solve e jacobian given method o = (solve e jacobian given method o.traced).limited o := by
  unfold solve
  split
  · rfl
  split
  · rfl
  split
  · rfl
  · exact solveFrom_limited _ _ _ _

end RootFinding
