import RootFinding.Proofs.Solver.Limited
import RootFinding.Proofs.Storage.Solved

namespace RootFinding

variable {α : Type} [Scalar α] {n : Nat} {s : SquareSystem α} {o : Options α} {m : Method}
  {x : Vec α n}

def Notice.traced? : Notice α → Option (Entry α)
  | .traced e => some e
  | _ => none

def Ledger.shown (ledger : Ledger α n) : List (Entry α) := ledger.notices.filterMap Notice.traced?

structure Ledger.ShowsAll (ledger : Ledger α n) (r : Recorder α) : Prop where
  full : r.Full
  entries : ledger.shown = r.entries

theorem Ledger.answer_quiet {q : Request α n} (quiet : q.Quiet) (ledger : Ledger α n) :
    (answer s q ledger).2.shown = ledger.shown := by
  cases q with
  | residual x | jacobian x | both x => rfl
  | note m =>
    cases m with
    | traced e => exact quiet.elim
    | _ => rfl

theorem Progress.written_shows {p q : Progress α n} {stepnorm : α} {more : Extras α}
    {ledger after : Ledger α n} (shows : ledger.ShowsAll p.recorder)
    (ran : (p.written stepnorm more).run (Ledger.answer s) ledger = (.ok q, after)) :
    after.ShowsAll q.recorder := by
  have kept := (Progress.written_full shows.full stepnorm more).of_run ran
  unfold written at ran
  rw [if_pos shows.full.shows] at ran
  obtain ⟨_, told, noted, rest⟩ := Plan.run_bind_ok.mp ran
  rw [Solver.note, Plan.run_request] at noted
  cases noted
  cases rest
  refine ⟨kept, ?_⟩
  rw [entered_recorder]
  exact (congrArg _ shows.entries).trans (if_pos shows.full.store).symm

namespace Method

theorem Draft.written_shows {d : m.Draft α n} {t : m.State α n} {ledger after : Ledger α n}
    (shows : ledger.ShowsAll (m.progress d.state).recorder)
    (ran : d.written.run (Ledger.answer s) ledger = (.ok t, after)) :
    after.ShowsAll (m.progress t).recorder := by
  obtain ⟨p, between, wrote, rest⟩ := Plan.run_bind_ok.mp ran
  have written := Progress.written_shows shows wrote
  cases m <;>
  · cases rest
    exact written

theorem start_shows {t : m.State α n} {after : Ledger α n}
    (ran : (m.start o.traced x).run (Ledger.answer s) (.begun s m) = (.ok t, after)) :
    after.ShowsAll (m.progress t).recorder := by
  rw [start_eq] at ran
  obtain ⟨d, between, began, rest⟩ := Plan.run_bind_ok.mp ran
  -- Nothing is shown before the entry is written.
  have quiet := (begins_quiet m o.traced x).run_kept (Ledger.answer s) (·.shown = [])
    (fun q ledger quiet none => (Ledger.answer_quiet quiet ledger).trans none) (s := .begun s m) rfl
  rw [began] at quiet
  have continues := (begins_continues m o.traced x).of_run began
  apply Draft.written_shows _ rest
  rw [continues.recorder]
  exact ⟨⟨rfl, rfl, rfl⟩, quiet⟩

theorem step_shows {t next : m.State α n} {ledger after : Ledger α n}
    (shows : ledger.ShowsAll (m.progress t).recorder)
    (ran : (m.step o t).run (Ledger.answer s) ledger = (.ok next, after)) :
    after.ShowsAll (m.progress next).recorder := by
  rw [step_eq] at ran
  obtain ⟨d, between, moved, rest⟩ := Plan.run_bind_ok.mp ran
  have quiet := (moves_quiet m o t).run_kept (Ledger.answer s) (·.shown = ledger.shown)
    (fun q later quiet same => (Ledger.answer_quiet quiet later).trans same) (s := ledger) rfl
  rw [moved] at quiet
  have continues := (moves_continues m o t).of_run moved
  apply Draft.written_shows _ rest
  rw [continues.recorder]
  exact ⟨shows.full, quiet.trans shows.entries⟩

theorem iterate_shows {passes : Nat} {t final : m.State α n} {ledger after : Ledger α n}
    (shows : ledger.ShowsAll (m.progress t).recorder)
    (ran : (m.iterate o passes t).run (Ledger.answer s) ledger = (.ok final, after)) :
    after.ShowsAll (m.progress final).recorder := by
  induction passes generalizing t ledger with
  | zero =>
    rw [iterate_zero] at ran
    cases ran
    exact shows
  | succ passes ih =>
    rw [iterate_succ] at ran
    split at ran
    · cases ran
      exact shows
    · obtain ⟨next, between, stepped, rest⟩ := Plan.run_bind_ok.mp ran
      exact ih (step_shows shows stepped) rest

theorem run_shows {p : Progress α n} {after : Ledger α n}
    (ran : (m.run o.traced x).run (Ledger.answer s) (.begun s m) = (.ok p, after)) :
    after.ShowsAll p.recorder := by
  rw [run_eq] at ran
  obtain ⟨t, between, started, rest⟩ := Plan.run_bind_ok.mp ran
  obtain ⟨final, later, iterated, rest⟩ := Plan.run_bind_ok.mp rest
  have shows := iterate_shows (start_shows started) iterated
  dsimp only at rest
  split at rest
  · obtain ⟨_, told, noted, rest⟩ := Plan.run_bind_ok.mp rest
    rw [Solver.note, Plan.run_request] at noted
    cases noted
    cases rest
    refine ⟨shows.full, ?_⟩
    cases m <;> exact shows.entries
  · cases rest
    exact shows

end Method

def Outcome.shown (out : Outcome α) : List (Entry α) := out.notices.filterMap Notice.traced?

theorem solveFrom_shown (s : SquareSystem α) (o : Options α) (m : Method) (x : Vec α n) :
    (solveFrom s o m x).shown =
      ((m.run o x).run (Ledger.answer s) (.begun s m)).2.shown.reverse := by
  have begun : (Ledger.begun s m : Ledger α n) =
      ⟨Session.fresh, [.solveStart m.option s.convention s.analytic]⟩ := rfl
  unfold solveFrom
  dsimp only
  rw [← begun]
  rcases (m.run o x).run (Ledger.answer s) (.begun s m) with ⟨failure | p, ledger⟩ <;>
    exact List.filterMap_reverse

theorem solveFrom_shows {r : Results α} (returned : (solveFrom s o.traced m x).result = .ok r) :
    (solveFrom s o.traced m x).shown = r.trace := by
  rw [solveFrom_shown]
  rw [solveFrom_result] at returned
  split at returned
  · rename_i p ledger ended
    cases returned
    rw [ended]
    exact congrArg List.reverse (Method.run_shows ended).entries
  · cases returned

theorem solveFrom_entries {r : Results α} (stored : o.storeTrace)
    (returned : (solveFrom s o m x).result = .ok r) : r.trace.length = r.iterations + 1 := by
  obtain ⟨length, states, ledgers, passes, _, _, _, rfl⟩ := solveFrom_passes returned
  obtain ⟨_, count, _⟩ := passes.trace stored length (Nat.le_refl length)
  have iteration := passes.iteration length (Nat.le_refl length)
  show ((m.trace (states length)).length : Int) = (m.progress (states length)).iteration + 1
  rw [count, iteration]
  rfl

def Entry.Known (n : Nat) (e : Entry α) : Prop := e.extras = [] ∨ Extras.Computed n e.extras

def Request.Showing : Request α n → Prop
  | .note (.traced e) => e.Known n
  | _ => True

theorem Request.Quiet.showing {q : Request α n} (quiet : q.Quiet) : q.Showing := by
  cases q with
  | residual x | jacobian x | both x => trivial
  | note m =>
    cases m with
    | traced e => exact quiet.elim
    | _ => trivial

theorem Ledger.answer_known {q : Request α n} (showing : q.Showing) {ledger : Ledger α n}
    (known : ∀ e ∈ ledger.shown, e.Known n) : ∀ e ∈ (answer s q ledger).2.shown, e.Known n := by
  cases q with
  | residual x | jacobian x | both x => exact known
  | note m =>
    cases m with
    | traced e => exact List.forall_mem_cons.mpr ⟨showing, known⟩
    | _ => exact known

theorem Progress.written_showing (p : Progress α n) (stepnorm : α) {more : Extras α}
    (computed : Extras.Computed n (p.extras ++ more)) :
    (p.written stepnorm more).AsksOnly Request.Showing := by
  have known : (p.entry p.recorder.extended stepnorm more).Known n := by
    unfold entry
    split
    · exact .inr computed
    · exact .inl rfl
  unfold written
  split
  · have shown : (Solver.note (.traced (p.entry p.recorder.extended stepnorm more)) :
        Solver α n Unit).AsksOnly Request.Showing := Plan.asksOnly_request known
    exact shown.bind fun _ => Plan.asksOnly_pure _
  · exact Plan.asksOnly_pure _

namespace Method

theorem Draft.written_showing {d : m.Draft α n} {r : Recorder α} (continues : d.Continues r) :
    d.written.AsksOnly Request.Showing :=
  (Progress.written_showing _ _ (continues.computed _)).bind fun _ => Plan.asksOnly_pure _

theorem start_showing (m : Method) (o : Options α) (x : Vec α n) :
    (m.start o x).AsksOnly Request.Showing := by
  rw [start_eq]
  apply ((begins_quiet m o x).weaken fun _ => Request.Quiet.showing).bind_ensures
    (begins_continues m o x)
  intro d continues
  exact Draft.written_showing continues

theorem step_showing (m : Method) (o : Options α) (t : m.State α n) :
    (m.step o t).AsksOnly Request.Showing := by
  rw [step_eq]
  apply ((moves_quiet m o t).weaken fun _ => Request.Quiet.showing).bind_ensures
    (moves_continues m o t)
  intro d continues
  exact Draft.written_showing continues

theorem run_showing (m : Method) (o : Options α) (x : Vec α n) :
    (m.run o x).AsksOnly Request.Showing := by
  have last : ∀ k, Request.Showing (n := n) (.note (m.stopped (α := α) k)) := by
    cases m <;> exact fun _ => trivial
  rw [run_finish]
  exact (start_showing m o x).bind (finish_asks (step_showing m o) last)

end Method

theorem solveFrom_known (s : SquareSystem α) (o : Options α) (m : Method) (x : Vec α n) :
    ∀ e ∈ (solveFrom s o m x).shown, e.Known n := by
  intro e inside
  rw [solveFrom_shown, List.mem_reverse] at inside
  have kept := (m.run_showing o x).run_kept (Ledger.answer s)
    (fun ledger => ∀ e ∈ ledger.shown, e.Known n)
    (fun _ _ showing known => Ledger.answer_known showing known) (s := .begun s m)
    fun _ none => nomatch none
  exact kept e inside

section Lines

theorem Entry.scalarTexts_ok {extras : Extras Float} (places : Nat)
    (numbers : ∀ member ∈ extras, ∀ number, member.2.scalar? = some number → number.isOk) :
    ∃ texts, scalarTexts places extras = .ok texts := by
  induction extras with
  | nil => exact ⟨[], rfl⟩
  | cons member extras ih =>
    obtain ⟨texts, written⟩ := ih fun other inside => numbers other (List.mem_cons_of_mem _ inside)
    obtain ⟨key, value⟩ := member
    unfold scalarTexts
    cases read : value.scalar? with
    | none => exact ⟨texts, written⟩
    | some number =>
      have fine := numbers (key, value) List.mem_cons_self number read
      cases number with
      | error fault => cases fine
      | ok v =>
        rw [written]
        exact ⟨_, rfl⟩

theorem Datum.Recorded.number {v : Datum Float} (recorded : v.Recorded)
    {number : Except Fault Float} (read : v.scalar? = some number) : number.isOk := by
  cases recorded with
  | float v =>
    cases read
    rfl
  | null | text visible | array items => cases read

theorem Entry.Known.line {e : Entry Float} (known : e.Known n) :
    ∃ text, e.line 3 4 = .ok text := by
  have numbers : ∀ member ∈ e.extras, ∀ number, member.2.scalar? = some number →
      number.isOk := by
    intro member inside number read
    rcases known with none | computed
    · rw [none] at inside
      cases inside
    · exact (computed.recorded member inside).number read
  obtain ⟨texts, written⟩ := scalarTexts_ok 3 numbers
  unfold Entry.line
  rw [if_neg (by decide)]
  show ∃ text, (scalarTexts 3 e.extras >>= _) = .ok text
  rw [written]
  exact ⟨_, rfl⟩

end Lines

end RootFinding
