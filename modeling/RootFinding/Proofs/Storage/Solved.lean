import RootFinding.Proofs.Solver.Report
import RootFinding.Proofs.Solver.Trace
import RootFinding.Proofs.Storage.Run

namespace RootFinding

open Json

inductive Datum.Recorded : Datum Float → Prop
  | null : Recorded null
  | float (v : Float) : Recorded (float v)
  | text {s : String} (visible : s.toList.all isVisible) : Recorded (text s)
  | array (items : List (Nested Float)) : Recorded (array (.list items))

namespace Datum.Recorded

variable {v : Datum Float}

theorem fits_listed [Limits] {level : Nat} (recorded : Recorded v) (fits : v.stored.fits level) :
    v.listed.stored.fits level := by
  cases recorded with
  | array items => rfl
  | null | float | text => exact fits

theorem fits_shown [Limits] {level : Nat} (recorded : Recorded v) (fits : v.stored.fits level) :
    v.listed.shown.stored.fits level := by
  cases recorded with
  | array items => rfl
  | null | float | text => exact fits

theorem reloaded (recorded : Recorded v) : v.reloaded = v.listed := by
  cases recorded with
  | null | float => rfl
  | text visible => exact reloaded_text visible
  | array items => exact reloaded_array _

theorem reloaded_listed (recorded : Recorded v) : v.listed.reloaded = v.listed.shown := by
  cases recorded with
  | null | float => rfl
  | text visible => exact reloaded_text visible
  | array items => exact reloaded_list items

theorem reloaded_shown (recorded : Recorded v) : v.listed.shown.reloaded = v.listed.shown := by
  cases recorded with
  | null | float => rfl
  | text visible => exact reloaded_text visible
  | array items =>
    have visible := all_isVisible_display (.list items)
    exact reloaded_text (by rwa [String.toList_ofList])

end Datum.Recorded

theorem TrustRegion.StepKind.isVisible_name (kind : StepKind) :
    kind.name.toList.all isVisible := by
  cases kind <;> decide

namespace Extras.Computed

variable {n : Nat} {extras : Extras Float}

theorem keyed (computed : Computed n extras) : Keyed extras := by
  cases computed with
  | newton p alpha =>
    exact .ofNames (show _ = ["x", "fx", "g", "alpha"] from rfl) (by decide) (by decide)
  | trustRegion p account =>
    exact .ofNames (show _ = ["x", "fx", "g", "delta", "rho", "step_kind"] from rfl) (by decide)
      (by decide)

theorem recorded (computed : Computed n extras) : ∀ m ∈ extras, m.2.Recorded := by
  have shared (p : Progress Float n) : ∀ m ∈ p.extras, m.2.Recorded := by
    simp only [Progress.extras, List.forall_mem_cons]
    exact ⟨.array _, .array _, .array _, fun _ none => nomatch none⟩
  cases computed with
  | newton p alpha =>
    refine List.forall_mem_append.mpr ⟨shared p, ?_⟩
    exact List.forall_mem_singleton.mpr (.float alpha)
  | trustRegion p account =>
    refine List.forall_mem_append.mpr ⟨shared p, ?_⟩
    simp only [TrustRegion.Account.extras, List.forall_mem_cons]
    refine ⟨.float _, .float _, ?_, fun _ none => nomatch none⟩
    split
    · exact .text (TrustRegion.StepKind.isVisible_name _)
    · exact .null

theorem shown_ne (computed : Computed n extras) :
    (extras.map fun m => (m.1, m.2.listed.shown)) ≠ extras.map fun m => (m.1, m.2.listed) := by
  have first (p : Progress Float n) (others : Extras Float) :
      ((p.extras ++ others).map fun m => (m.1, m.2.listed.shown)) ≠
        (p.extras ++ others).map fun m => (m.1, m.2.listed) := by
    intro same
    cases List.head_eq_of_cons_eq same
  cases computed with
  | newton p alpha => exact first p _
  | trustRegion p account => exact first p _

end Extras.Computed

structure Results.Recorded (r : Results Float) : Prop where
  method : r.method.toList.all isVisible
  keyed : ∀ e ∈ r.trace, Keyed e.extras
  values : ∀ e ∈ r.trace, ∀ m ∈ e.extras, m.2.Recorded

section Traced

variable {o : Options Float} {n : Nat} {entries : List (Entry Float)}

theorem Traced.keyed (traced : Traced o n entries) : ∀ e ∈ entries, Keyed e.extras := by
  intro e inside
  rcases traced.empty_or_computed inside with empty | computed
  · rw [empty]
    exact ⟨List.nodup_nil, fun _ none => nomatch none⟩
  · exact computed.keyed

theorem Traced.values (traced : Traced o n entries) :
    ∀ e ∈ entries, ∀ m ∈ e.extras, m.2.Recorded := by
  intro e inside
  rcases traced.empty_or_computed inside with empty | computed
  · rw [empty]
    exact fun _ none => nomatch none
  · exact computed.recorded

end Traced

theorem Method.isVisible_name (m : Method) : m.name.toList.all isVisible := by
  cases m <;> decide

theorem solve_recorded {e : Equations Float} {jacobian : Option (Callable Float)}
    {given : Except Fault (GivenPoint Float)} {method : String} {o : Options Float}
    {r : Results Float} (returned : (solve e jacobian given method o).result = .ok r) :
    r.Recorded := by
  obtain ⟨n, s, m, x, ended⟩ := solve_from returned
  obtain ⟨traced, _⟩ := solveFrom_traced ended
  refine ⟨?_, traced.keyed, traced.values⟩
  rw [solveFrom_method ended]
  exact m.isVisible_name

/-- The result with its arrays as lists of the same numbers. -/
def Results.listed (r : Results Float) : Results Float := r.mapValues Datum.listed

/-- The result with its lists as the texts that show them. -/
def Results.shown (r : Results Float) : Results Float := r.mapValues Datum.shown

namespace Results.Recorded

variable {r : Results Float}

theorem read_mapValues [Limits] (recorded : r.Recorded) {f g : Datum Float → Datum Float}
    (reloads : ∀ v, v.Recorded → (f v).reloaded = g v) {label : Run.Label} {directory : Path}
    (fits : Run.Fits (r.mapValues f) label directory) (t : FileTree) :
    Run.read (Run.write t directory (r.mapValues f) label) directory = .ok (r.mapValues g) := by
  have keyed : ∀ e ∈ (r.mapValues f).trace, Keyed e.extras := by
    refine List.forall_mem_map.mpr fun e inside => ?_
    exact (recorded.keyed e inside).map f
  have method : (r.mapValues f).method.toList.all isVisible := recorded.method
  rw [Run.read_write method keyed t fits, mapValues_mapValues]
  exact congrArg Except.ok (mapValues_congr fun e inside m among =>
    reloads m.2 (recorded.values e inside m among))

section Limited

variable [Limits] {label : Run.Label} {directory : Path}

theorem fits_mapValues (recorded : r.Recorded) {f : Datum Float → Datum Float}
    (keeps : ∀ v, v.Recorded → v.stored.fits 3 → (f v).stored.fits 3)
    (fits : Run.Fits r label directory) : Run.Fits (r.mapValues f) label directory :=
  ⟨fits.description, Trace.fits_mapValues
    (fun e inside m among => keeps m.2 (recorded.values e inside m among)) fits.trace⟩

theorem read (recorded : r.Recorded) (fits : Run.Fits r label directory) (t : FileTree) :
    Run.read (Run.write t directory r label) directory = .ok r.listed := by
  rw [← mapValues_id r] at fits
  have ran := recorded.read_mapValues (fun v => Datum.Recorded.reloaded) fits t
  rwa [mapValues_id] at ran

theorem read_listed (recorded : r.Recorded) (fits : Run.Fits r label directory) (t : FileTree) :
    Run.read (Run.write t directory r.listed label) directory = .ok r.listed.shown := by
  rw [shown, listed, mapValues_mapValues]
  exact recorded.read_mapValues (fun v => Datum.Recorded.reloaded_listed)
    (recorded.fits_mapValues (fun v => Datum.Recorded.fits_listed) fits) t

theorem read_shown (recorded : r.Recorded) (fits : Run.Fits r label directory) (t : FileTree) :
    Run.read (Run.write t directory r.listed.shown label) directory = .ok r.listed.shown := by
  rw [shown, listed, mapValues_mapValues]
  exact recorded.read_mapValues (fun v => Datum.Recorded.reloaded_shown)
    (recorded.fits_mapValues (fun v => Datum.Recorded.fits_shown) fits) t

end Limited

end Results.Recorded

section Solve

variable {e : Equations Float} {jacobian : Option (Callable Float)}
  {given : Except Fault (GivenPoint Float)} {method : String} {o : Options Float}
  {r : Results Float}

theorem listed_shown_eq_iff (returned : (solve e jacobian given method o).result = .ok r) :
    r.listed.shown = r.listed ↔ ¬ (o.storeTrace ∧ o.extendedTrace) := by
  obtain ⟨n, s, m, x, ended⟩ := solve_from returned
  obtain ⟨traced, filled⟩ := solveFrom_traced ended
  constructor
  · rintro same ⟨stored, extended⟩
    obtain ⟨e, entries, long⟩ := List.exists_cons_of_ne_nil (filled stored)
    have computed := traced.extended extended e (long ▸ List.mem_cons_self)
    have traces := congrArg Results.trace same
    simp only [Results.listed, Results.shown, Results.mapValues, long, List.map_cons,
      List.cons.injEq] at traces
    have extras := congrArg Entry.extras traces.1
    simp only [Entry.mapValues, List.map_map, Function.comp_def] at extras
    exact computed.shown_ne extras
  · intro without
    rw [Results.shown, Results.listed, Results.mapValues_mapValues]
    refine Results.mapValues_congr fun e inside m among => ?_
    cases stored : o.storeTrace with
    | false =>
      rw [traced.stored stored] at inside
      cases inside
    | true =>
      have plain : o.extendedTrace = false :=
        Bool.eq_false_iff.mpr fun extended => without ⟨stored, extended⟩
      rw [traced.plain plain e inside] at among
      cases among

/-- Where no limit is passed, a result is read as it was written, with the arrays in its trace as
lists of the same numbers; and the files of the run do not depend on what was there before. -/
theorem solve_read_write [Limits] (returned : (solve e jacobian given method o).result = .ok r)
    (t : FileTree) (directory : Path) (label : Run.Label) :
    (Run.Fits r label directory →
      Run.read (Run.write t directory r label) directory = .ok r.listed) ∧
      @Run.read .unlimited (Run.write t directory r label) directory = .ok r.listed ∧
      ∀ t', ∀ name ∈ [Run.vectorsName, Run.descriptionName, Run.traceName],
        (Run.write t directory r label).read? (directory.child name) =
          (Run.write t' directory r label).read? (directory.child name) := by
  have recorded := solve_recorded returned
  refine ⟨fun fits => recorded.read fits t,
    @Results.Recorded.read _ .unlimited _ _ recorded Run.fits_unlimited t, fun t' => ?_⟩
  obtain ⟨arrays, text, trace⟩ := Run.read?_write t directory r label
  obtain ⟨arrays', text', trace'⟩ := Run.read?_write t' directory r label
  simp only [List.forall_mem_cons]
  exact ⟨arrays.trans arrays'.symm, text.trans text'.symm, trace.trans trace'.symm,
    fun _ none => nomatch none⟩

/-- What was read and is written again is read with its lists as texts, which is the same only where
no extras are stored; from then on writing and reading change nothing. -/
theorem solve_rewrite [Limits] (returned : (solve e jacobian given method o).result = .ok r) :
    (r.listed.shown = r.listed ↔ ¬ (o.storeTrace ∧ o.extendedTrace)) ∧
      ∀ (t : FileTree) (directory : Path) (label : Run.Label), Run.Fits r label directory →
        Run.read (Run.write t directory r label) directory = .ok r.listed ∧
        Run.read (Run.write t directory r.listed label) directory = .ok r.listed.shown ∧
        Run.read (Run.write t directory r.listed.shown label) directory = .ok r.listed.shown := by
  have recorded := solve_recorded returned
  exact ⟨listed_shown_eq_iff returned, fun t directory label fits =>
    ⟨recorded.read fits t, recorded.read_listed fits t, recorded.read_shown fits t⟩⟩

end Solve

def recording : Options Float :=
  { Options.standard with storeTrace := true, extendedTrace := true }

def lineRun : Path := ⟨true, ["runs", "line"]⟩

def earlierRun : FileTree :=
  match (solve (.system (line Float)) none (.ok ([1], [2])) "newton" recording).result with
  | .ok r => Run.write .empty lineRun r ⟨some "earlier", "2024-01-01T00:00:00+00:00", []⟩
  | .error _ => .empty

def lineLabel : Run.Label := ⟨none, "2024-01-02T00:00:00+00:00", []⟩

theorem solve_read_write_line :
    earlierRun.hasFile (lineRun.child Run.traceName) ∧
      ∃ r, (solve (.system (line Float)) none (.ok ([1], [4])) "trust_region" recording).result =
          .ok r ∧ r.trace.length = 2 ∧ Run.Fits r lineLabel lineRun ∧
        Run.read (Run.write earlierRun lineRun r lineLabel) lineRun = .ok r.listed := by
  have computed : (solve (.system (line Float)) none (.ok ([1], [4])) "trust_region"
      recording).result.toOption.map (fun r => (r.trace.length,
        decide (Run.Fits r lineLabel lineRun))) = some (2, true) := by
    decide +kernel
  obtain ⟨r, returned, facts⟩ := Plan.ok_of_toOption computed
  obtain ⟨length, fits⟩ := Prod.mk.inj facts
  have fits := of_decide_eq_true fits
  exact ⟨by decide +kernel, r, returned, length, fits, (solve_read_write returned _ _ _).1 fits⟩

theorem solve_rewrite_line :
    ∃ r, (solve (.system (line Float)) none (.ok ([1], [4])) "newton" recording).result = .ok r ∧
      r.trace.length = 2 ∧ Run.Fits r lineLabel lineRun ∧ r.listed.shown ≠ r.listed ∧
      Run.read (Run.write earlierRun lineRun r.listed lineLabel) lineRun = .ok r.listed.shown := by
  have computed : (solve (.system (line Float)) none (.ok ([1], [4])) "newton"
      recording).result.toOption.map (fun r => (r.trace.length,
        decide (Run.Fits r lineLabel lineRun))) = some (2, true) := by
    decide +kernel
  obtain ⟨r, returned, facts⟩ := Plan.ok_of_toOption computed
  obtain ⟨length, fits⟩ := Prod.mk.inj facts
  have fits := of_decide_eq_true fits
  obtain ⟨stays, reads⟩ := solve_rewrite returned
  exact ⟨r, returned, length, fits, fun same => stays.mp same ⟨rfl, rfl⟩,
    (reads _ _ _ fits).2.1⟩

/-- What is read the second time is not what was read the first time. -/
theorem second_read_differs :
    ∃ r first second,
      (solve (.system (line Float)) none (.ok ([1], [0])) "trust_region" recording).result =
        .ok r ∧
      let written := Run.write .empty lineRun r lineLabel
      Run.read written lineRun = .ok first ∧
      Run.read (Run.write written lineRun first lineLabel) lineRun = .ok second ∧
      second ≠ first := by
  have computed : (solve (.system (line Float)) none (.ok ([1], [0])) "trust_region"
      recording).result.toOption.map (fun r => decide (Run.Fits r lineLabel lineRun)) =
        some true := by
    decide +kernel
  obtain ⟨r, returned, fits⟩ := Plan.ok_of_toOption computed
  have fits := of_decide_eq_true fits
  have recorded := solve_recorded returned
  exact ⟨r, r.listed, r.listed.shown, returned, recorded.read fits _,
    recorded.read_listed fits _, fun same => (listed_shown_eq_iff returned).mp same ⟨rfl, rfl⟩⟩

end RootFinding
