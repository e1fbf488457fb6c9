import RootFinding.Proofs.Solver.Recording

namespace RootFinding

variable {α : Type} [Scalar α] {n : Nat} {o : Options α}

structure Traced (o : Options α) (n : Nat) (entries : List (Entry α)) : Prop where
  stored : o.storeTrace = false → entries = []
  plain : o.extendedTrace = false → ∀ e ∈ entries, e.extras = []
  extended : o.extendedTrace → ∀ e ∈ entries, Extras.Computed n e.extras

theorem Traced.reverse {entries : List (Entry α)} (traced : Traced o n entries) :
    Traced o n entries.reverse :=
  ⟨fun none => List.reverse_eq_nil_iff.mpr (traced.stored none),
    fun plain e inside => traced.plain plain e (List.mem_reverse.mp inside),
    fun extended e inside => traced.extended extended e (List.mem_reverse.mp inside)⟩

theorem Traced.cons {entries : List (Entry α)} (traced : Traced o n entries) (stored : o.storeTrace)
    {e : Entry α} (plain : o.extendedTrace = false → e.extras = [])
    (extended : o.extendedTrace → Extras.Computed n e.extras) : Traced o n (e :: entries) where
  stored none := by
    rw [none] at stored
    cases stored
  plain none := List.forall_mem_cons.mpr ⟨plain none, traced.plain none⟩
  extended some' := List.forall_mem_cons.mpr ⟨extended some', traced.extended some'⟩

theorem Traced.empty_or_computed {entries : List (Entry α)} (traced : Traced o n entries)
    {e : Entry α} (inside : e ∈ entries) : e.extras = [] ∨ Extras.Computed n e.extras := by
  cases extended : o.extendedTrace with
  | false => exact .inl (traced.plain extended e inside)
  | true => exact .inr (traced.extended extended e inside)

structure Recorder.Follows (o : Options α) (n : Nat) (r : Recorder α) : Prop where
  store : r.store = o.storeTrace
  extended : r.extended = o.extendedTrace
  entries : Traced o n r.entries

structure Recorder.Filled (o : Options α) (n : Nat) (r : Recorder α) : Prop
    extends r.Follows o n where
  filled : o.storeTrace → r.entries ≠ []

theorem Recorder.start_follows (o : Options α) (n : Nat) :
    (⟨o.storeTrace, o.showTrace, o.extendedTrace, []⟩ : Recorder α).Follows o n :=
  ⟨rfl, rfl, fun _ => rfl, fun _ _ none => (nomatch none), fun _ _ none => (nomatch none)⟩

theorem Recorder.holding_filled {r : Recorder α} (follows : r.Follows o n) (p : Progress α n)
    (stepnorm : α) {more : Extras α} (computed : Extras.Computed n (p.extras ++ more)) :
    (r.holding (p.entry r.extended stepnorm more)).Filled o n := by
  obtain ⟨store, extended, entries⟩ := follows
  cases storing : r.store with
  | false =>
    have kept : (r.holding (p.entry r.extended stepnorm more)).entries = r.entries :=
      if_neg (Bool.eq_false_iff.mp storing)
    refine ⟨⟨store, extended, kept ▸ entries⟩, fun some' => ?_⟩
    rw [← store, storing] at some'
    cases some'
  | true =>
    have added : (r.holding (p.entry r.extended stepnorm more)).entries =
        p.entry r.extended stepnorm more :: r.entries := if_pos storing
    refine ⟨⟨store, extended, ?_⟩, fun _ => added ▸ List.cons_ne_nil _ _⟩
    rw [added, extended]
    apply entries.cons (store ▸ storing)
    · intro none
      exact if_neg (Bool.eq_false_iff.mp none)
    · intro some'
      rw [Progress.entry, some']
      exact computed

theorem Progress.written_filled {p : Progress α n} (follows : p.recorder.Follows o n)
    (stepnorm : α) {more : Extras α} (computed : Extras.Computed n (p.extras ++ more)) :
    (p.written stepnorm more).Ensures (fun q => q.recorder.Filled o n) fun _ => True := by
  have filled : (p.entered stepnorm more).recorder.Filled o n := by
    rw [entered_recorder]
    exact Recorder.holding_filled follows p stepnorm computed
  unfold written
  split
  · exact fun _ => filled
  · exact filled

namespace Method

variable {m : Method}

theorem Draft.written_filled {d : m.Draft α n} {r : Recorder α} (follows : r.Follows o n)
    (continues : d.Continues r) :
    d.written.Ensures (fun t => (m.progress t).recorder.Filled o n) fun _ => True := by
  rw [← continues.recorder] at follows
  apply (Progress.written_filled follows _ (continues.computed _)).bind
  intro p filled
  apply Plan.ensures_pure
  cases m <;> exact filled

theorem start_filled (m : Method) (o : Options α) (x : Vec α n) :
    (m.start o x).Ensures (fun t => (m.progress t).recorder.Filled o n) fun _ => True := by
  rw [start_eq]
  apply (begins_continues m o x).bind
  intro d continues
  exact Draft.written_filled (Recorder.start_follows o n) continues

theorem step_filled {t : m.State α n} (filled : (m.progress t).recorder.Filled o n) :
    (m.step o t).Ensures (fun next => (m.progress next).recorder.Filled o n) fun _ => True := by
  rw [step_eq]
  apply (moves_continues m o t).bind
  intro d continues
  exact Draft.written_filled filled.toFollows continues

theorem run_filled (m : Method) (o : Options α) (x : Vec α n) :
    (m.run o x).Ensures (fun p => p.recorder.Filled o n) fun _ => True :=
  run_ensures (start_filled m o x) (fun _ => step_filled) fun _ filled => filled

end Method

theorem solveFrom_traced {s : SquareSystem α} {m : Method} {x : Vec α n} {r : Results α}
    (returned : (solveFrom s o m x).result = .ok r) :
    Traced o n r.trace ∧ (o.storeTrace → r.trace ≠ []) := by
  rw [solveFrom_result] at returned
  split at returned
  · rename_i p ledger ended
    have filled := (m.run_filled o x).of_run ended
    cases returned
    exact ⟨filled.entries.reverse, fun some' none =>
      filled.filled some' (List.reverse_eq_nil_iff.mp none)⟩
  · cases returned

theorem solve_from {e : Equations α} {jacobian : Option (Callable α)}
    {given : Except Fault (GivenPoint α)} {method : String} {r : Results α}
    (returned : (solve e jacobian given method o).result = .ok r) :
    ∃ n, ∃ (s : SquareSystem α) (m : Method) (x : Vec α n), (solveFrom s o m x).result = .ok r := by
  simp only [solve] at returned
  split at returned
  · cases returned
  split at returned
  · cases returned
  split at returned
  · cases returned
  · exact ⟨_, _, _, _, returned⟩

theorem solveFrom_method {s : SquareSystem α} {m : Method} {x : Vec α n} {r : Results α}
    (returned : (solveFrom s o m x).result = .ok r) : r.method = m.name := by
  rw [solveFrom_result] at returned
  split at returned
  · cases returned
    rfl
  · cases returned

end RootFinding
