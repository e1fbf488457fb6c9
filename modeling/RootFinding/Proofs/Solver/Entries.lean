import RootFinding.Proofs.Solver.Iterations
import RootFinding.Proofs.Solver.Counters

namespace RootFinding

open Scalar

variable {α : Type} [Scalar α] {n : Nat} {s : SquareSystem α} {o : Options α} {m : Method}
  {x : Vec α n}

/-- One recorder has an entry more than the other, which tells of this progress. -/
structure Recorder.Adds (before after : Recorder α) (p : Progress α n) (e : Entry α) : Prop where
  store : after.store = before.store
  entries : after.entries = e :: before.entries
  iteration : e.iteration = p.iteration
  fnorm : e.fnorm = p.fx.maxNorm

theorem Recorder.Adds.trace {before after : Recorder α} {p : Progress α n} {e : Entry α}
    (adds : before.Adds after p e) : after.trace = before.trace ++ [e] := by
  rw [Recorder.trace, adds.entries, List.reverse_cons]
  rfl

def Entry.plain (e : Entry α) : Entry α := { e with extras := [] }

def Recorder.holding (r : Recorder α) (e : Entry α) : Recorder α :=
  { r with entries := if r.store then e :: r.entries else r.entries }

omit [Scalar α] in
theorem Recorder.holding_trace {r : Recorder α} (stored : r.store) (e : Entry α) :
    (r.holding e).trace = r.trace ++ [e] := by
  rw [trace, holding, if_pos stored, List.reverse_cons]
  rfl

def Progress.entry (p : Progress α n) (extended : Bool) (stepnorm : α) (more : Extras α) :
    Entry α :=
  ⟨p.iteration, p.fx.maxNorm, stepnorm, if extended then p.extras ++ more else []⟩

theorem Progress.entry_added {p q : Progress α n} {r : Recorder α} (stored : r.store)
    {stepnorm : α} {more : Extras α}
    (held : q.recorder = r.holding (p.entry r.extended stepnorm more)) :
    r.Adds q.recorder p (p.entry r.extended stepnorm more) := by
  rw [held]
  exact ⟨rfl, if_pos stored, rfl, rfl⟩

theorem Progress.entered_recorder (p : Progress α n) (stepnorm : α) (more : Extras α) :
    (p.entered stepnorm more).recorder =
      p.recorder.holding (p.entry p.recorder.extended stepnorm more) := by
  obtain ⟨x, fx, jac, iteration, tests, ⟨store, shows, extended, entries⟩⟩ := p
  cases store <;> cases shows <;> rfl

namespace Method

def trace (m : Method) (t : m.State α n) : List (Entry α) := (m.progress t).recorder.trace

def stepnorm (s : SquareSystem α) : (m : Method) → (t next : m.State α n) → α
  | trustRegion, t, next =>
    if TrustRegion.State.Takes s t then (next.progress.x - t.progress.x).norm else 0
  | newton, t, next => (next.progress.x - t.progress.x).norm

/-- The extras that a method gives of its own: of an iteration by the trust-region method those of
its step, by Newton's method the step length. -/
def Particulars (s : SquareSystem α) :
    (m : Method) → (t next : m.State α n) → Extras α → Prop
  | trustRegion, (t : TrustRegion.State α n), _, more =>
    ∃ trial, s.Yields (.residual t.trialPoint) trial ∧ more = (t.account trial).extras
  | newton, (t : Newton.State α n), (next : Newton.State α n), more =>
    ∃ direction alpha,
      newtonDirection t.progress.jac t.progress.fx (t.progress.iteration + 1 : Nat) =
        .ok direction ∧
      next.progress.x = (t.merit direction).point alpha ∧ more = [("alpha", .float alpha)]

def firstParticulars : (m : Method) → m.State α n → Extras α
  | trustRegion, (t : TrustRegion.State α n) =>
    TrustRegion.Account.extras ⟨t.delta, undefined, none⟩
  | newton, _ => [("alpha", .float undefined)]

end Method

theorem TrustRegion.step_recorder {t next : TrustRegion.State α n}
    (stepped : (TrustRegion.step o t).value s.reply = .ok next) :
    ∃ more, Method.trustRegion.Particulars s t next more ∧
      next.progress.recorder = t.progress.recorder.holding (next.progress.entry
        t.progress.recorder.extended (Method.trustRegion.stepnorm s t next) more) := by
  rw [TrustRegion.step_value] at stepped
  obtain ⟨trial, replied, rest⟩ := Except.bind_ok.mp stepped
  have yields := SquareSystem.yields_iff.mpr replied
  refine ⟨(t.account trial).extras, ⟨trial, yields, rfl⟩, ?_⟩
  split at rest
  · rename_i good
    obtain ⟨jac, _, same⟩ := Except.bind_ok.mp rest
    cases same
    have takes : t.Takes s := ⟨trial, yields, good⟩
    simp only [Method.stepnorm, takes, if_true]
    exact Progress.entered_recorder _ _ _
  · rename_i poor
    cases rest
    have rejected : ¬ t.Takes s := by
      intro takes
      obtain ⟨other, yieldsToo, good⟩ := takes
      rw [yieldsToo.unique yields] at good
      exact poor good
    simp only [Method.stepnorm, rejected, if_false]
    exact Progress.entered_recorder _ _ _

theorem Newton.step_recorder {t next : Newton.State α n}
    (stepped : (Newton.step o t).value s.reply = .ok next) :
    ∃ more, Method.newton.Particulars s t next more ∧
      next.progress.recorder = t.progress.recorder.holding (next.progress.entry
        t.progress.recorder.extended (Method.newton.stepnorm s t next) more) := by
  obtain ⟨direction, alpha, known, left, leads, rfl⟩ := Newton.step_eq_ok.mp stepped
  exact ⟨_, ⟨direction, alpha, leads.directed, rfl, rfl⟩, Progress.entered_recorder _ _ _⟩

namespace Method

theorem step_recorder {t next : m.State α n} {ledger after : Ledger α n}
    (ran : (m.step o t).run (Ledger.answer s) ledger = (.ok next, after)) :
    ∃ more, m.Particulars s t next more ∧ (m.progress next).recorder =
      (m.progress t).recorder.holding ((m.progress next).entry (m.progress t).recorder.extended
        (m.stepnorm s t next) more) := by
  have stepped := Ledger.value_of_run ran
  cases m with
  | trustRegion => exact TrustRegion.step_recorder stepped
  | newton => exact Newton.step_recorder stepped

theorem start_recorder {t : m.State α n} {ledger after : Ledger α n}
    (ran : (m.start o x).run (Ledger.answer s) ledger = (.ok t, after)) :
    (m.progress t).recorder = Recorder.holding ⟨o.storeTrace, o.showTrace, o.extendedTrace, []⟩
      ((m.progress t).entry o.extendedTrace undefined (m.firstParticulars t)) := by
  have started := Ledger.value_of_run ran
  cases m with
  | trustRegion =>
    rw [start, TrustRegion.start_value] at started
    obtain ⟨pair, _, same⟩ := Except.bind_ok.mp started
    cases same
    exact Progress.entered_recorder (Progress.start o x pair.1 pair.2) _ _
  | newton =>
    rw [start, Newton.start_value] at started
    obtain ⟨pair, _, same⟩ := Except.bind_ok.mp started
    cases same
    exact Progress.entered_recorder (Progress.start o x pair.1 pair.2) _ _

theorem step_adds {t next : m.State α n} {ledger after : Ledger α n}
    (stored : (m.progress t).recorder.store)
    (ran : (m.step o t).run (Ledger.answer s) ledger = (.ok next, after)) :
    ∃ e, (m.progress t).recorder.Adds (m.progress next).recorder (m.progress next) e ∧
      e.stepnorm = m.stepnorm s t next := by
  obtain ⟨more, _, held⟩ := step_recorder ran
  exact ⟨_, Progress.entry_added stored held, rfl⟩

theorem start_adds {t : m.State α n} {ledger after : Ledger α n} (stored : o.storeTrace)
    (ran : (m.start o x).run (Ledger.answer s) ledger = (.ok t, after)) :
    ∃ e, Recorder.Adds ⟨o.storeTrace, o.showTrace, o.extendedTrace, []⟩ (m.progress t).recorder
      (m.progress t) e :=
  ⟨_, Progress.entry_added (r := ⟨o.storeTrace, o.showTrace, o.extendedTrace, []⟩) stored
    (start_recorder ran)⟩

end Method

variable {length : Nat} {states : Nat → m.State α n} {ledgers : Nat → Ledger α n}

theorem Passes.recorder (passes : Passes s o m x length states ledgers) :
    ∀ k ≤ length, ∃ entries, (m.progress (states k)).recorder =
      ⟨o.storeTrace, o.showTrace, o.extendedTrace, entries⟩ := by
  refine passes.induct (motive := fun _ t => ∃ entries, (m.progress t).recorder =
    ⟨o.storeTrace, o.showTrace, o.extendedTrace, entries⟩) (fun ran => ?_) fun k _ ran before => ?_
  · exact ⟨_, Method.start_recorder ran⟩
  · obtain ⟨entries, same⟩ := before
    obtain ⟨more, _, held⟩ := Method.step_recorder ran
    rw [same] at held
    exact ⟨_, held⟩

/-- What the entry for the state after `k` iterations says. -/
structure Entry.Tells (s : SquareSystem α) (m : Method) (states : Nat → m.State α n) (k : Nat)
    (e : Entry α) : Prop where
  iteration : e.iteration = (m.progress (states k)).iteration
  fnorm : e.fnorm = (m.progress (states k)).fx.maxNorm
  stepnorm : ∀ j, k = j + 1 → e.stepnorm = m.stepnorm s (states j) (states k)

theorem Passes.trace (stored : o.storeTrace) (passes : Passes s o m x length states ledgers) :
    ∀ k ≤ length, (m.progress (states k)).recorder.store ∧
      (m.trace (states k)).length = k + 1 ∧
      ∀ j ≤ k, m.trace (states j) <+: m.trace (states k) ∧
        ∃ e, (m.trace (states k))[j]? = some e ∧ e.Tells s m states j := by
  intro k
  induction k with
  | zero =>
    intro _
    obtain ⟨e, adds⟩ := Method.start_adds stored passes.start
    have one : m.trace (states 0) = [e] := adds.trace
    refine ⟨adds.store.trans stored, by rw [one]; rfl, fun j none => ?_⟩
    obtain rfl : j = 0 := by omega
    refine ⟨List.prefix_refl _, e, by rw [one]; rfl, ⟨adds.iteration, adds.fnorm, ?_⟩⟩
    intro j before
    omega
  | succ k ih =>
    intro within
    obtain ⟨store, count, earlier⟩ := ih (by omega)
    obtain ⟨e, adds, stepnorm⟩ := Method.step_adds store (passes.step k within)
    have more : m.trace (states (k + 1)) = m.trace (states k) ++ [e] := adds.trace
    have kept : m.trace (states k) <+: m.trace (states (k + 1)) := more ▸ List.prefix_append _ _
    refine ⟨adds.store.trans store, by rw [more, List.length_append, count]; rfl, ?_⟩
    intro j le
    rcases Nat.lt_or_eq_of_le le with less | rfl
    · obtain ⟨shorter, e', found, tells⟩ := earlier j (by omega)
      refine ⟨shorter.trans kept, e', ?_, tells⟩
      rw [more, List.getElem?_append_left (by omega)]
      exact found
    · refine ⟨List.prefix_refl _, e, ?_, ⟨adds.iteration, adds.fnorm, fun i before => ?_⟩⟩
      · rw [more, ← count, List.getElem?_concat_length]
      · obtain rfl : k = i := by omega
        exact stepnorm

end RootFinding
