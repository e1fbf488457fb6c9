import RootFinding.Proofs.Solver.Entries

namespace RootFinding

open Scalar

variable {α : Type} [Scalar α] {n : Nat} {s : SquareSystem α} {o : Options α} {m : Method}

/-- Anything but an entry of a trace. -/
def Request.Quiet : Request α n → Prop
  | .note (.traced _) => False
  | _ => True

def Request.IsJacobian : Request α n → Prop
  | .jacobian _ => True
  | _ => False

def Request.IsBoth : Request α n → Prop
  | .both _ => True
  | _ => False

def Progress.written (p : Progress α n) (stepnorm : α) (more : Extras α) :
    Solver α n (Progress α n) := do
  if p.recorder.shows then
    Solver.note (.traced (p.entry p.recorder.extended stepnorm more))
  return p.entered stepnorm more

theorem TrustRegion.recorded_eq (p : Progress α n) (stepnorm : α) (account : Account α) :
    recorded p stepnorm account = p.written stepnorm account.extras := by
  obtain ⟨x, fx, jac, iteration, tests, ⟨store, shows, extended, entries⟩⟩ := p
  cases store <;> cases shows <;> rfl

theorem Newton.recorded_eq (p : Progress α n) (stepnorm alpha : α) :
    recorded p stepnorm alpha = p.written stepnorm [("alpha", .float alpha)] := by
  obtain ⟨x, fx, jac, iteration, tests, ⟨store, shows, extended, entries⟩⟩ := p
  cases store <;> cases shows <;> rfl

namespace Method

def withProgress : (m : Method) → m.State α n → Progress α n → m.State α n
  | trustRegion, (t : TrustRegion.State α n), p => { t with progress := p }
  | newton, (t : Newton.State α n), p => { t with progress := p }

/-- A state whose entry is still to be written, with what the entry says of the step. -/
structure Draft (m : Method) (α : Type) (n : Nat) where
  state : m.State α n
  stepnorm : α
  more : Extras α

def Draft.written (d : m.Draft α n) : Solver α n (m.State α n) := do
  let p ← (m.progress d.state).written d.stepnorm d.more
  return m.withProgress d.state p

end Method

namespace TrustRegion

def begins (o : Options α) (x : Vec α n) : Solver α n (Method.trustRegion.Draft α n) := do
  let (fx, jac) ← Solver.both x
  let scaling := startScaling o.autoscale jac
  let delta := startRadius o.factor scaling x
  let t : State α n := ⟨Progress.start o x fx jac, scaling, delta⟩
  return ⟨t, undefined, Account.extras ⟨delta, undefined, none⟩⟩

/-- The end of an iteration up to its entry, once the residual at the trial point is known. -/
def settles (o : Options α) (t : State α n) (trial : Vec α n) :
    Solver α n (Method.trustRegion.Draft α n) :=
  if acceptRatio < t.ratio trial then do
    let jac ← Solver.jacobian t.trialPoint
    let (next, stepnorm) := accept o t t.trialPoint trial jac (t.nextRadius trial)
    return ⟨next, stepnorm, (t.account trial).extras⟩
  else return ⟨reject t (t.nextRadius trial), 0, (t.account trial).extras⟩

def moves (o : Options α) (t : State α n) : Solver α n (Method.trustRegion.Draft α n) :=
  (if t.move.singular then Solver.note (.singularStep (t.progress.iteration + 1)) else pure ()) >>=
    fun _ => Solver.residual t.trialPoint >>= settles o t

theorem start_eq (o : Options α) (x : Vec α n) :
    start o x = begins o x >>= Method.Draft.written := by
  unfold start
  simp only [recorded_eq]
  rfl

theorem settle_eq (o : Options α) (t : State α n) (trial : Vec α n) :
    settle o t trial = settles o t trial >>= Method.Draft.written := by
  unfold settle settles
  simp only [recorded_eq]
  split <;> rfl

theorem step_eq_moves (o : Options α) (t : State α n) :
    step o t = moves o t >>= Method.Draft.written := by
  rw [step_eq]
  unfold moves
  rw [bind_assoc]
  congr 1
  funext _
  rw [bind_assoc]
  exact congrArg _ (funext (settle_eq o t))

end TrustRegion

namespace Newton

def begins (o : Options α) (x : Vec α n) : Solver α n (Method.newton.Draft α n) := do
  let (fx, jac) ← Solver.both x
  let t : State α n := ⟨Progress.start o x fx jac, o.lineSearch⟩
  return ⟨t, undefined, [("alpha", .float undefined)]⟩

def moves (o : Options α) (t : State α n) : Solver α n (Method.newton.Draft α n) := do
  let direction ← Solver.ofExcept
    (newtonDirection t.progress.jac t.progress.fx (t.progress.iteration + 1 : Nat))
  let (chosen, lineSearch) ← (t.merit direction).search t.lineSearch (t.slope direction)
  let alpha ← Solver.ofExcept (checkStep chosen)
  let x := (t.merit direction).point alpha
  let (fx, jac) ← Solver.both x
  let next : State α n := ⟨t.moved o x fx jac, lineSearch⟩
  return ⟨next, (x - t.progress.x).norm, [("alpha", .float alpha)]⟩

theorem start_eq (o : Options α) (x : Vec α n) :
    start o x = begins o x >>= Method.Draft.written := by
  unfold start
  simp only [recorded_eq]
  rfl

theorem step_eq_moves (o : Options α) (t : State α n) :
    step o t = moves o t >>= Method.Draft.written := by
  unfold step moves
  simp only [recorded_eq, bind_assoc]
  rfl

end Newton

namespace Method

def begins : (m : Method) → Options α → Vec α n → Solver α n (m.Draft α n)
  | trustRegion => TrustRegion.begins
  | newton => Newton.begins

def moves : (m : Method) → Options α → m.State α n → Solver α n (m.Draft α n)
  | trustRegion => TrustRegion.moves
  | newton => Newton.moves

theorem start_eq (m : Method) (o : Options α) (x : Vec α n) :
    m.start o x = m.begins o x >>= Draft.written := by
  cases m with
  | trustRegion => exact TrustRegion.start_eq o x
  | newton => exact Newton.start_eq o x

theorem step_eq (m : Method) (o : Options α) (t : m.State α n) :
    m.step o t = m.moves o t >>= Draft.written := by
  cases m with
  | trustRegion => exact TrustRegion.step_eq_moves o t
  | newton => exact Newton.step_eq_moves o t

def recording (m : Method) (f : Recorder α → Recorder α) (t : m.State α n) : m.State α n :=
  m.withProgress t { m.progress t with recorder := f (m.progress t).recorder }

omit [Scalar α] in
theorem progress_recording (m : Method) (f : Recorder α → Recorder α) (t : m.State α n) :
    m.progress (m.recording f t) =
      { m.progress t with recorder := f (m.progress t).recorder } := by
  cases m <;> rfl

def Draft.recording (f : Recorder α → Recorder α) (d : m.Draft α n) : m.Draft α n :=
  { d with state := m.recording f d.state }

theorem begins_quiet (m : Method) (o : Options α) (x : Vec α n) :
    (m.begins o x).AsksOnly Request.Quiet := by
  cases m <;> exact (Plan.asksOnly_request trivial).bind fun pair => Plan.asksOnly_pure _

end Method

omit [Scalar α] in
theorem Solver.ofExcept_asks {β : Type} {among : Request α n → Prop} (e : Except (Failure α) β) :
    (Solver.ofExcept e : Solver α n β).AsksOnly among := by
  cases e <;> trivial

theorem Merit.search_asks (merit : Merit α n) (strategy : LineSearch α) (slope : α) :
    (merit.search strategy slope).AsksOnly fun q => q.Quiet ∧ ¬ q.IsJacobian := by
  apply (strategy.search_quiet _ _ _).serve
  intro q quiet
  cases q with
  | value alpha =>
    show (merit.value alpha).AsksOnly fun q => q.Quiet ∧ ¬ q.IsJacobian
    unfold value
    split
    · exact Plan.asksOnly_pure _
    · exact (Plan.asksOnly_request ⟨trivial, id⟩).bind fun fx => Plan.asksOnly_pure _
  | slope alpha =>
    exact (Plan.asksOnly_request ⟨trivial, id⟩).bind fun pair => Plan.asksOnly_pure _
  | note m =>
    cases m with
    | traced e => exact quiet.elim
    | _ => exact Plan.asksOnly_request ⟨trivial, id⟩

theorem TrustRegion.moves_asks (o : Options α) (t : State α n) :
    (moves o t).AsksOnly fun q => q.Quiet ∧ ¬ q.IsBoth := by
  apply Plan.AsksOnly.bind
  · split
    · exact Plan.asksOnly_request ⟨trivial, id⟩
    · exact Plan.asksOnly_pure _
  · intro _
    apply (Plan.asksOnly_request ⟨trivial, id⟩).bind
    intro trial
    unfold settles
    split
    · exact (Plan.asksOnly_request ⟨trivial, id⟩).bind fun jac => Plan.asksOnly_pure _
    · exact Plan.asksOnly_pure _

theorem Newton.moves_asks (o : Options α) (t : State α n) :
    (moves o t).AsksOnly fun q => q.Quiet ∧ ¬ q.IsJacobian := by
  apply (Solver.ofExcept_asks _).bind
  intro direction
  apply (Merit.search_asks _ _ _).bind
  intro found
  apply (Solver.ofExcept_asks _).bind
  intro alpha
  exact (Plan.asksOnly_request ⟨trivial, id⟩).bind fun pair => Plan.asksOnly_pure _

theorem Method.moves_quiet (m : Method) (o : Options α) (t : m.State α n) :
    (m.moves o t).AsksOnly Request.Quiet := by
  cases m with
  | trustRegion => exact (TrustRegion.moves_asks o t).weaken fun _ => And.left
  | newton => exact (Newton.moves_asks o t).weaken fun _ => And.left

theorem Method.Draft.written_asks {among : Request α n → Prop}
    (notes : ∀ notice, among (.note notice)) (d : m.Draft α n) : d.written.AsksOnly among := by
  refine Plan.AsksOnly.bind ?_ fun p => Plan.asksOnly_pure _
  unfold Progress.written
  split
  · exact (Plan.asksOnly_request (notes _)).bind fun _ => Plan.asksOnly_pure _
  · exact Plan.asksOnly_pure _

/-- The extras that a solver records for a point of this dimension. -/
inductive Extras.Computed (n : Nat) : Extras α → Prop
  | newton (p : Progress α n) (alpha : α) : Computed n (p.extras ++ [("alpha", .float alpha)])
  | trustRegion (p : Progress α n) (account : TrustRegion.Account α) :
      Computed n (p.extras ++ account.extras)

theorem Extras.Computed.ne_nil {extras : Extras α} (computed : Computed n extras) :
    extras ≠ [] := by
  cases computed <;> exact List.cons_ne_nil _ _

/-- A draft with entries so far and with extras that the method computes. -/
structure Method.Draft.Continues (d : m.Draft α n) (r : Recorder α) : Prop where
  recorder : (m.progress d.state).recorder = r
  computed : ∀ p : Progress α n, Extras.Computed n (p.extras ++ d.more)

theorem TrustRegion.draft_continues (t : State α n) (stepnorm : α) (account : Account α) :
    (⟨t, stepnorm, account.extras⟩ : Method.trustRegion.Draft α n).Continues
      t.progress.recorder :=
  ⟨rfl, fun p => .trustRegion p account⟩

theorem Newton.draft_continues (t : State α n) (stepnorm alpha : α) :
    (⟨t, stepnorm, [("alpha", .float alpha)]⟩ : Method.newton.Draft α n).Continues
      t.progress.recorder :=
  ⟨rfl, fun p => .newton p alpha⟩

theorem Method.begins_continues (m : Method) (o : Options α) (x : Vec α n) :
    (m.begins o x).Ensures
      (fun d => d.Continues ⟨o.storeTrace, o.showTrace, o.extendedTrace, []⟩) fun _ => True := by
  cases m with
  | trustRegion =>
    apply (Plan.ensures_nothing _).bind
    intro pair _
    exact Plan.ensures_pure (TrustRegion.draft_continues _ _ _)
  | newton =>
    apply (Plan.ensures_nothing _).bind
    intro pair _
    exact Plan.ensures_pure (Newton.draft_continues _ _ _)

theorem TrustRegion.moves_continues (o : Options α) (t : State α n) :
    (moves o t).Ensures (fun d => d.Continues t.progress.recorder) fun _ => True := by
  apply (Plan.ensures_nothing _).bind
  intro _ _
  apply (Plan.ensures_nothing _).bind
  intro trial _
  unfold settles
  split
  · apply (Plan.ensures_nothing _).bind
    intro jac _
    exact Plan.ensures_pure (draft_continues _ _ _)
  · exact Plan.ensures_pure (draft_continues _ _ _)

theorem Newton.moves_continues (o : Options α) (t : State α n) :
    (moves o t).Ensures (fun d => d.Continues t.progress.recorder) fun _ => True := by
  apply (Plan.ensures_nothing _).bind
  intro direction _
  apply (Plan.ensures_nothing _).bind
  intro found _
  apply (Plan.ensures_nothing _).bind
  intro alpha _
  apply (Plan.ensures_nothing _).bind
  intro pair _
  exact Plan.ensures_pure (draft_continues _ _ _)

theorem Method.moves_continues (m : Method) (o : Options α) (t : m.State α n) :
    (m.moves o t).Ensures (fun d => d.Continues (m.progress t).recorder) fun _ => True := by
  cases m with
  | trustRegion => exact TrustRegion.moves_continues o t
  | newton => exact Newton.moves_continues o t

theorem TrustRegion.moves_recording (f : Recorder α → Recorder α) (o : Options α)
    (t : State α n) :
    moves o (Method.trustRegion.recording f t) = Method.Draft.recording f <$> moves o t := by
  have settled (trial : Vec α n) : settles o (Method.trustRegion.recording f t) trial =
      Method.Draft.recording f <$> settles o t trial := by
    show (if acceptRatio < t.ratio trial then _ else _) = _
    unfold settles
    split <;> rfl
  unfold moves
  rw [map_bind]
  show (if t.move.singular then Solver.note (.singularStep (t.progress.iteration + 1))
    else pure ()) >>= (fun _ => Solver.residual t.trialPoint >>= _) = _
  congr 1
  funext _
  rw [map_bind]
  exact congrArg _ (funext settled)

theorem Newton.moves_recording (f : Recorder α → Recorder α) (o : Options α) (t : State α n) :
    moves o (Method.newton.recording f t) = Method.Draft.recording f <$> moves o t := by
  unfold moves
  simp only [map_bind]
  rfl

theorem Method.moves_recording (m : Method) (f : Recorder α → Recorder α) (o : Options α)
    (t : m.State α n) : m.moves o (m.recording f t) = Draft.recording f <$> m.moves o t := by
  cases m with
  | trustRegion => exact TrustRegion.moves_recording f o t
  | newton => exact Newton.moves_recording f o t

end RootFinding
