import RootFinding.Proofs.Solver.Showing
import RootFinding.Proofs.Solver.Presentations

namespace RootFinding

section Untraced

variable {α : Type} {n : Nat}

def Progress.untraced (p : Progress α n) : Progress α n :=
  { p with recorder := ⟨false, false, false, []⟩ }

def Results.untraced (r : Results α) : Results α := { r with trace := [] }

def Outcome.untraced (out : Outcome α) : Outcome α where
  result := out.result.map Results.untraced
  calls := out.calls
  notices := out.notices.filter (·.traced?.isNone)

theorem Notice.limited_filter (o : Options α) (m : Notice α) :
    (m.limited? o).filter (·.traced?.isNone) = (some m).filter (·.traced?.isNone) := by
  cases m with
  | traced e =>
    show Option.filter _ (if o.showTrace then some (traced (e.limited o)) else none) = none
    split <;> rfl
  | _ => rfl

theorem Notice.limited_entry (o : Options α) (m : Notice α) :
    (m.limited? o).bind traced? =
      if o.showTrace then m.traced?.map (·.limited o) else none := by
  cases m with
  | traced e =>
    show (if o.showTrace then some (traced (e.limited o)) else none).bind traced? = _
    split <;> rfl
  | _ => exact (ite_self none).symm

theorem Outcome.limited_ok {o : Options α} {out : Outcome α} {r : Results α}
    (returned : (out.limited o).result = .ok r) :
    ∃ whole, out.result = .ok whole ∧ r = whole.limited o := by
  unfold limited at returned
  cases ended : out.result with
  | error failure =>
    rw [ended] at returned
    cases returned
  | ok whole =>
    rw [ended] at returned
    cases returned
    exact ⟨whole, rfl, rfl⟩

theorem Outcome.limited_untraced (o : Options α) (out : Outcome α) :
    (out.limited o).untraced = out.untraced := by
  have result : (out.result.map (Results.limited o)).map Results.untraced =
      out.result.map Results.untraced := by
    cases out.result <;> rfl
  have notices : (out.notices.filterMap (Notice.limited? o)).filter (·.traced?.isNone) =
      out.notices.filter (·.traced?.isNone) := by
    rw [List.filter_filterMap, ← List.filterMap_eq_filter]
    congr 1
    funext m
    exact Notice.limited_filter o m
  unfold untraced limited
  rw [result, notices]

theorem Outcome.untraced_ok {out out' : Outcome α} (same : out'.untraced = out.untraced)
    {r : Results α} (returned : out.result = .ok r) :
    ∃ r', out'.result = .ok r' ∧ r'.untraced = r.untraced ∧ out'.calls = out.calls := by
  have result : out'.result.map Results.untraced = out.result.map Results.untraced :=
    congrArg Outcome.result same
  have calls : out'.untraced.calls = out.untraced.calls := congrArg Outcome.calls same
  rw [returned] at result
  cases returned' : out'.result with
  | error failure =>
    rw [returned'] at result
    cases result
  | ok r' =>
    rw [returned'] at result
    exact ⟨r', rfl, Except.ok.inj result, calls⟩

theorem Outcome.limited_shown (o : Options α) (out : Outcome α) :
    (out.limited o).shown = if o.showTrace then out.shown.map (·.limited o) else [] := by
  show (out.notices.filterMap (Notice.limited? o)).filterMap Notice.traced? = _
  rw [List.filterMap_filterMap]
  simp only [Notice.limited_entry]
  split
  · exact List.map_filterMap.symm
  · exact List.filterMap_none _

theorem Entry.limited_plain (o : Options α) (e : Entry α) : (e.limited o).plain = e.plain := by
  unfold limited
  split <;> rfl

theorem Results.limited_plain {o : Options α} (stored : o.storeTrace) (r : Results α) :
    (r.limited o).trace.map Entry.plain = r.trace.map Entry.plain := by
  unfold limited
  rw [if_pos stored, List.map_map]
  congr 1
  funext e
  exact Entry.limited_plain o e

end Untraced

section Stateful

variable {α σ : Type} {n : Nat}

def Request.unheard (evaluate : (q : Request α n) → σ → Except (Failure α) q.Answer × σ) :
    (q : Request α n) → σ → Except (Failure α) q.Answer × σ
  | .note _, t => (.ok (), t)
  | q, t => evaluate q t

theorem Options.tell_unheard (o : Options α)
    (evaluate : (q : Request α n) → σ → Except (Failure α) q.Answer × σ) (q : Request α n) (t : σ) :
    (o.tell q).run (Request.unheard evaluate) t = Request.unheard evaluate q t := by
  cases q with
  | residual x | jacobian x | both x => exact Plan.run_request _ _ _
  | note m =>
    cases m with
    | traced e =>
      show (if o.showTrace then Solver.note (.traced (e.limited o)) else pure ()).run _ t =
        (.ok (), t)
      split <;> rfl
    | _ => exact Plan.run_request _ _ _

variable [Scalar α]

theorem Method.run_unheard (m : Method) (o : Options α) (x : Vec α n)
    (evaluate : (q : Request α n) → σ → Except (Failure α) q.Answer × σ) (t : σ) :
    (m.run o x).run (Request.unheard evaluate) t =
      (((m.run o.traced x).run (Request.unheard evaluate) t).1.map (Progress.limited o),
        ((m.run o.traced x).run (Request.unheard evaluate) t).2) := by
  have told : (fun q t => (o.tell q).run (Request.unheard evaluate) t) =
      Request.unheard (n := n) evaluate := by
    funext q t
    exact o.tell_unheard evaluate q t
  rw [run_limited, Plan.run_map, Plan.run_serve, told]

/-- The state that the evaluations lead to does not depend on the flags, and neither does what the
solve ends in, but for the trace. -/
theorem Method.run_untraced (m : Method) (o : Options α) (store shows extended : Bool) (x : Vec α n)
    (evaluate : (q : Request α n) → σ → Except (Failure α) q.Answer × σ) (t : σ) :
    let ran := (m.run o x).run (Request.unheard evaluate) t
    let ran' := (m.run (o.tracing store shows extended) x).run (Request.unheard evaluate) t
    (ran'.1.map Progress.untraced, ran'.2) = (ran.1.map Progress.untraced, ran.2) := by
  have untraced (o : Options α) (ended : Except (Failure α) (Progress α n)) :
      (ended.map (Progress.limited o)).map Progress.untraced = ended.map Progress.untraced := by
    cases ended <;> rfl
  dsimp only
  rw [run_unheard m o, run_unheard m (o.tracing _ _ _), untraced, untraced]
  rfl

end Stateful

variable {n : Nat} {s : SquareSystem Float} {m : Method} {x : Vec Float n}
  {e : Equations Float} {jacobian : Option (Callable Float)}
  {given : Except Fault (GivenPoint Float)} {method : String}

/-- What is kept and shown of the trace of a result is what the flags say. -/
structure Outcome.Follows (o : Options Float) (out : Outcome Float) (r : Results Float) :
    Prop where
  unstored : ¬ o.storeTrace → r.trace = []
  stored : o.storeTrace → r.trace.length = r.iterations + 1
  plain : ¬ o.extendedTrace → ∀ e ∈ r.trace, e.extras = []
  extended : o.extendedTrace → ∀ e ∈ r.trace, e.extras ≠ []
  shown : o.showTrace → out.shown.length = r.iterations + 1
  same : o.storeTrace → o.showTrace → out.shown = r.trace

theorem solveFrom_follows {o : Options Float} {r : Results Float}
    (returned : (solveFrom s o m x).result = .ok r) : (solveFrom s o m x).Follows o r := by
  obtain ⟨traced, _⟩ := solveFrom_traced returned
  rw [solveFrom_limited] at returned ⊢
  obtain ⟨whole, ended, rfl⟩ := Outcome.limited_ok returned
  have shows := solveFrom_shows ended
  have entries := solveFrom_entries (o := o.traced) rfl ended
  have shown : o.showTrace → ((solveFrom s o.traced m x).limited o).shown =
      whole.trace.map (·.limited o) := by
    intro some'
    rw [Outcome.limited_shown, if_pos some', shows]
  have stored : o.storeTrace → (whole.limited o).trace = whole.trace.map (·.limited o) := by
    intro some'
    exact if_pos some'
  have plain : ¬ o.extendedTrace → ∀ e ∈ (whole.limited o).trace, e.extras = [] := by
    intro none
    exact traced.plain (Bool.eq_false_iff.mpr none)
  have extended : o.extendedTrace → ∀ e ∈ (whole.limited o).trace, e.extras ≠ [] := by
    intro some' e inside
    exact (traced.extended some' e inside).ne_nil
  refine ⟨fun none => if_neg none, ?_, plain, extended, ?_, ?_⟩
  · intro some'
    rw [stored some', List.length_map]
    exact entries
  · intro some'
    rw [shown some', List.length_map]
    exact entries
  · intro some' some''
    rw [shown some'', stored some']

theorem solve_follows {o : Options Float} {r : Results Float}
    (returned : (solve e jacobian given method o).result = .ok r) :
    (solve e jacobian given method o).Follows o r := by
  obtain ⟨m, s, entries, named, system, prepared⟩ := solve_ok returned
  rw [solve_prepared named system prepared] at returned ⊢
  exact solveFrom_follows returned

theorem solve_shown {o : Options Float} :
    ∀ entry ∈ (solve e jacobian given method o).shown,
      ∃ text, (Notice.traced entry).line? = some (.info text) := by
  intro entry inside
  have known : ∃ n, entry.Known n := by
    unfold solve at inside
    split at inside
    · cases inside
    split at inside
    · cases inside
    split at inside
    · cases inside
    · exact ⟨_, solveFrom_known _ _ _ _ entry inside⟩
  obtain ⟨n, known⟩ := known
  obtain ⟨text, written⟩ := known.line
  have told : (Notice.traced entry).text = .ok text := written
  refine ⟨text, ?_⟩
  unfold Notice.line?
  rw [told]
  rfl

/-- The flags of the trace change neither how a solve ends nor what it evaluates, and what is kept
and shown of the trace is what they say. -/
theorem tracing_does_not_interfere (o : Options Float) (store shows extended : Bool)
    (e : Equations Float) (jacobian : Option (Callable Float))
    (given : Except Fault (GivenPoint Float)) (method : String) :
    let o' := o.tracing store shows extended
    let out := solve e jacobian given method o
    let out' := solve e jacobian given method o'
    out'.untraced = out.untraced ∧
      (∀ r, out.result = .ok r → out.Follows o r) ∧
      (∀ r r', out.result = .ok r → out'.result = .ok r' → o.storeTrace → o'.storeTrace →
        r'.trace.map Entry.plain = r.trace.map Entry.plain) ∧
      (¬ o.showTrace → out.shown = []) ∧
      (∀ entry ∈ out.shown, ∃ text, (Notice.traced entry).line? = some (.info text)) ∧
      ∀ (m : Method) (n : Nat) (σ : Type) (x : Vec Float n)
        (evaluate : (q : Request Float n) → σ → Except (Failure Float) q.Answer × σ) (t : σ),
        let ran := (m.run o x).run (Request.unheard evaluate) t
        let ran' := (m.run o' x).run (Request.unheard evaluate) t
        (ran'.1.map Progress.untraced, ran'.2) = (ran.1.map Progress.untraced, ran.2) := by
  have limited := solve_limited e jacobian given method o
  have limited' := solve_limited e jacobian given method (o.tracing store shows extended)
  change _ = (solve e jacobian given method o.traced).limited _ at limited'
  intro o' out out'
  refine ⟨?_, fun r => solve_follows, ?_, ?_, solve_shown, ?_⟩
  · show out'.untraced = out.untraced
    rw [show out = _ from limited, show out' = _ from limited', Outcome.limited_untraced,
      Outcome.limited_untraced]
  · intro r r' returned returned' stored stored'
    rw [show out = _ from limited] at returned
    rw [show out' = _ from limited'] at returned'
    obtain ⟨whole, ended, rfl⟩ := Outcome.limited_ok returned
    obtain ⟨_, ended', rfl⟩ := Outcome.limited_ok returned'
    cases ended.symm.trans ended'
    rw [Results.limited_plain stored', Results.limited_plain stored]
  · intro none
    rw [show out = _ from limited, Outcome.limited_shown, if_neg none]
  · intro m n σ x evaluate t
    exact m.run_untraced o store shows extended x evaluate t

def stepsFromFour (o : Options Float) : Outcome Float :=
  solve (.system (line Float)) none (.ok ([1], [4])) "trust_region" { o with factor := 0.25 }

theorem tracing_does_not_interfere_line :
    ∃ r r', (stepsFromFour .standard).result = .ok r ∧
      (stepsFromFour Options.standard.traced).result = .ok r' ∧ r.iterations = 3 ∧
      r'.untraced = r.untraced ∧
      (stepsFromFour Options.standard.traced).calls = (stepsFromFour .standard).calls ∧
      r.trace = [] ∧ r'.trace.length = 4 ∧ (stepsFromFour .standard).shown = [] ∧
      (stepsFromFour Options.standard.traced).shown = r'.trace := by
  have computed : (stepsFromFour .standard).result.toOption.map Results.iterations = some 3 := by
    decide +kernel
  obtain ⟨r, returned, iterations⟩ := Plan.ok_of_toOption computed
  have alike := tracing_does_not_interfere { Options.standard with factor := 0.25 } true true true
    (.system (line Float)) none (.ok ([1], [4])) "trust_region"
  have same : (stepsFromFour Options.standard.traced).untraced =
      (stepsFromFour .standard).untraced := alike.1
  have follows : (stepsFromFour .standard).Follows _ r := alike.2.1 r returned
  have hidden : (stepsFromFour .standard).shown = [] := alike.2.2.2.1 Bool.false_ne_true
  obtain ⟨r', returned', untraced, calls⟩ := Outcome.untraced_ok same returned
  have follows' : (stepsFromFour Options.standard.traced).Follows _ r' :=
    (tracing_does_not_interfere { Options.standard.traced with factor := 0.25 } true true true
      (.system (line Float)) none (.ok ([1], [4])) "trust_region").2.1 r' returned'
  have length := follows'.stored rfl
  have iterations' : r'.untraced.iterations = r.untraced.iterations :=
    congrArg Results.iterations untraced
  rw [show r'.iterations = r.iterations from iterations', iterations] at length
  exact ⟨r, r', returned, returned', iterations, untraced, calls,
    follows.unstored Bool.false_ne_true, Int.ofNat.inj length, hidden, follows'.same rfl rfl⟩

end RootFinding
