import RootFinding.Proofs.CommandLine.Invocation
import RootFinding.Proofs.Storage.Host
import RootFinding.Proofs.Storage.Solved
import RootFinding.CommandLine.Execution

namespace RootFinding

theorem Problem.named_of_mem {α : Type} [Elementary α] {p : Problem α} (among : p ∈ all) :
    named p.name = .ok p := by
  simp only [all, List.mem_cons, List.not_mem_nil, or_false] at among
  rcases among with rfl | rfl | rfl | rfl | rfl | rfl | rfl <;> rfl

namespace CommandLine

namespace Invocation

variable {i : Invocation} {run : Path} {t : FileTree}

def settings (i : Invocation) : Options Float where
  xtol := i.xtol
  ftol := i.ftol
  iterations := .whole i.iterations
  storeTrace := true
  showTrace := i.showTrace
  extendedTrace := i.extendedTrace
  factor := i.factor
  autoscale := !i.noAutoscale
  lineSearch := i.search.lineSearch

def solution (i : Invocation) (p : Problem Float) : Except (Failure Float) (Results Float) := do
  let o ← Options.check i.settings
  let entries := i.x0.getD p.start.toList
  (solve (.system (p.system !i.finiteDifference)) none (.ok ([entries.length], entries))
    i.method.option o).result

theorem options_eq (kept : i.outPath? = some run) : i.options = Options.check i.settings := by
  obtain ⟨out, known, _⟩ := Option.map_eq_some_iff.mp kept
  rw [options, known]
  rfl

theorem attempt_result {p : Problem Float} (kept : i.outPath? = some run) (among : p ∈ Problem.all)
    (named : p.name = i.problem) :
    (attempt i >>= fun a => a.outcome.result) = i.solution p := by
  rw [attempt, ← named, Problem.named_of_mem among, options_eq kept, solution]
  cases Options.check i.settings <;> rfl

theorem attempt_problem {p : Problem Float} {a : Attempt} (among : p ∈ Problem.all)
    (named : p.name = i.problem) (attempted : attempt i = .ok a) : a.problem = p := by
  obtain ⟨q, found, attempted⟩ := Except.bind_ok.mp attempted
  obtain ⟨o, -, made⟩ := Except.bind_ok.mp attempted
  rw [Except.mapError_ok, ← named, Problem.named_of_mem among] at found
  cases found
  cases made
  rfl

theorem solution_recorded {p : Problem Float} {r : Results Float}
    (returned : i.solution p = .ok r) : r.Recorded := by
  obtain ⟨o, _, solved⟩ := Except.bind_ok.mp returned
  exact solve_recorded solved

end Invocation

section Hosted

open FileWork

variable [Host] {i : Invocation} {run : Path} {t : FileTree}

/-- The directory can be made as it is named, and the log in it opened. -/
structure Logs (t : FileTree) (run : Path) : Prop where
  makes : Makes t run
  opens : Opens t (run.child logName)

theorem Invocation.openLog_on (kept : i.outPath? = some run) (logs : Logs t run) :
    ∃ opened, i.openLog.on t = (.ok (), opened) ∧
      ∀ q ≠ run.child logName, opened.read? q = t.read? q := by
  rw [openLog, kept]
  simp only [on_bind, makeDirectory_on logs.makes]
  exact extendFile_on (opens_makeDirectory.mpr logs.opens)

theorem Invocation.openLog_refused (kept : i.outPath? = some run) (refused : ¬ Logs t run) :
    ∃ f left, i.openLog.on t = (.error f, left) ∧ left.files = t.files := by
  rw [openLog, kept]
  by_cases makes : Makes t run
  · have log : ¬ Opens (t.makeDirectory run) (run.child logName) :=
      fun opens => refused ⟨makes, opens_makeDirectory.mp opens⟩
    obtain ⟨f, failed⟩ := extendFile_refused log
    refine ⟨f, t.makeDirectory run, ?_, rfl⟩
    simp only [on_bind, makeDirectory_on makes, failed]
  · obtain ⟨f, left, failed, same⟩ := makeDirectory_refused makes
    exact ⟨f, left, by simp only [on_bind, failed], same⟩

end Hosted

theorem other_of_mem {name : String}
    (among : name ∈ [Run.vectorsName, Run.descriptionName, Run.traceName]) : name ≠ logName := by
  rintro rfl
  exact absurd among (by decide)

variable {i : Invocation} {run : Path}

namespace Report

theorem ending_logged (r : Report) : (r.logged i).ending = r.ending := by
  rw [logged]
  split <;> rfl

theorem hasDirectory_logged (r : Report) (p : Path) :
    (r.logged i).tree.hasDirectory p = r.tree.hasDirectory p := by
  rw [logged]
  split <;> rfl

theorem read?_logged (kept : i.outPath? = some run) {q : Path} (other : q ≠ run.child logName)
    (r : Report) : (r.logged i).tree.read? q = r.tree.read? q := by
  rw [logged, kept]
  exact FileTree.read?_write_of_ne other _ _

end Report

section Attempted

variable [Host] {attempted : Except (Failure Float) Attempt} {r : Results Float}

theorem report_of_error {e : Failure Float}
    (failed : (attempted >>= fun a => a.outcome.result) = .error e) (t : FileTree) (clock : Clock) :
    (report i attempted t clock).ending = .error e ∧ (report i attempted t clock).tree = t := by
  rcases Except.bind_error.mp failed with rfl | ⟨a, rfl, ended⟩
  · exact ⟨rfl, rfl⟩
  · rw [report, Attempt.report, ended]
    exact ⟨rfl, rfl⟩

theorem report_of_ok (kept : i.outPath? = some run) {a : Attempt}
    (returned : a.outcome.result = .ok r) {t left : FileTree} {clock : Clock}
    (saved : (Run.save run r (label i a.problem clock)).on t = (.ok (), left)) :
    (report i (.ok a) t clock).ending = .ok (exitStatus r) ∧
      (report i (.ok a) t clock).tree = left := by
  simp only [report, Attempt.report, returned, kept, saved, and_self]

theorem report_of_refused (kept : i.outPath? = some run) {a : Attempt}
    (returned : a.outcome.result = .ok r) {t left : FileTree} {clock : Clock} {f : Fault}
    (refused : (Run.save run r (label i a.problem clock)).on t = (.error f, left)) :
    (report i (.ok a) t clock).ending = .error (.fault f) := by
  simp only [report, Attempt.report, returned, kept, refused]

section Opened

variable {t opened : FileTree}

theorem execute_eq (log : i.openLog.on t = (.ok (), opened))
    (attempted : Except (Failure Float) Attempt) (clock : Clock) :
    execute i attempted t clock = (report i attempted opened clock).logged i := by
  rw [execute, log]

variable (kept : i.outPath? = some run) (log : i.openLog.on t = (.ok (), opened)) (clock : Clock)

include kept log

theorem execute_of_error {e : Failure Float}
    (failed : (attempted >>= fun a => a.outcome.result) = .error e) :
    (execute i attempted t clock).ending = .error e ∧
      ∀ q ≠ run.child logName, (execute i attempted t clock).tree.read? q = opened.read? q := by
  obtain ⟨ending, tree⟩ := report_of_error (i := i) failed opened clock
  rw [execute_eq log]
  constructor
  · rw [Report.ending_logged, ending]
  · intro q other
    rw [Report.read?_logged kept other, tree]

variable {a : Attempt} (returned : a.outcome.result = .ok r)

include returned

theorem execute_of_admits [Limits] {directory : Path} (admits : Run.Admits opened run directory)
    (recorded : r.Recorded) :
    (execute i (.ok a) t clock).ending = .ok (exitStatus r) ∧
      (Run.Fits r (label i a.problem clock) directory →
        Run.load (execute i (.ok a) t clock).tree run = .ok r.listed) := by
  obtain ⟨ending, tree⟩ :=
    report_of_ok kept returned (Run.save_on admits r (label i a.problem clock))
  rw [execute_eq log]
  constructor
  · rw [Report.ending_logged, ending]
  · intro fits
    have written := recorded.read fits opened
    rw [← tree] at written
    rw [Run.load, admits.expands]
    refine Eq.trans ?_ written
    apply Run.read_congr (Report.hasDirectory_logged _ _)
    intro name member
    exact Report.read?_logged kept (Path.child_ne (other_of_mem member)) _

theorem execute_of_refused (refused : ∀ directory, ¬ Run.Admits opened run directory) :
    ∃ f left, (Run.save run r (label i a.problem clock)).on opened = (.error f, left) ∧
      (execute i (.ok a) t clock).ending = .error (.fault f) := by
  obtain ⟨f, left, failed⟩ := Run.save_refused refused r (label i a.problem clock)
  refine ⟨f, left, failed, ?_⟩
  rw [execute_eq log, Report.ending_logged]
  exact report_of_refused kept returned failed

end Opened

end Attempted

/-- A run that is kept and can be written ends as the solve that the line asks for: where the line
leads there are the results, with the arrays of the trace as lists, and the status says whether they
are converged; or the failure is the same, and no file but the log is touched. Where the log cannot
be opened, or the run not be written, the run fails for that reason. -/
theorem execute_solution [Limits] [Host] {arguments : List String} {i : Invocation} {out : String}
    (accepted : read arguments = .ok i) (kept : i.out = some out) (t : FileTree) (clock : Clock) :
    ∃ words p, Word.ofTexts arguments = .ok words ∧ Says (sections words) i ∧
      p ∈ Problem.all ∧ p.name = i.problem ∧
      let run := Path.ofText out
      let report := execute i (attempt i) t clock
      (¬ Logs t run → ∃ f left, i.openLog.on t = (.error f, left) ∧ left.files = t.files ∧
        report.ending = .error (.fault f) ∧ report.tree = left) ∧
      (Logs t run → ∃ opened, i.openLog.on t = (.ok (), opened) ∧
        match i.solution p with
        | .ok r =>
          (∀ directory, Run.Admits opened run directory →
            report.ending = .ok (if r.listed.converged then 0 else 1) ∧
            (Run.Fits r (label i p clock) directory →
              Run.load report.tree run = .ok r.listed)) ∧
          ((∀ directory, ¬ Run.Admits opened run directory) →
            ∃ f left, (Run.save run r (label i p clock)).on opened = (.error f, left) ∧
              report.ending = .error (.fault f))
        | .error e => report.ending = .error e ∧
            ∀ q ≠ run.child logName, report.tree.read? q = t.read? q) := by
  obtain ⟨words, known, said⟩ := read_says accepted
  obtain ⟨p, among, named, _⟩ := said.problem
  refine ⟨words, p, known, said, among, named, ?_⟩
  have kept : i.outPath? = some (Path.ofText out) := congrArg (Option.map Path.ofText) kept
  have result := Invocation.attempt_result kept among named
  intro run report
  refine ⟨fun refused => ?_, fun logs => ?_⟩
  · obtain ⟨f, left, failed, same⟩ := Invocation.openLog_refused kept refused
    exact ⟨f, left, failed, same, by simp only [report, execute, failed, and_self]⟩
  obtain ⟨opened, log, files⟩ := Invocation.openLog_on kept logs
  refine ⟨opened, log, ?_⟩
  cases solved : i.solution p with
  | error e =>
    obtain ⟨ending, reads⟩ := execute_of_error kept log clock (result.trans solved)
    exact ⟨ending, fun q other => (reads q other).trans (files q other)⟩
  | ok r =>
    obtain ⟨a, attempted, returned⟩ := Except.bind_ok.mp (result.trans solved)
    obtain rfl := Invocation.attempt_problem among named attempted
    have recorded := Invocation.solution_recorded solved
    simp only [report, attempted]
    exact ⟨fun _ admits => execute_of_admits kept log clock returned admits recorded,
      execute_of_refused kept log clock returned⟩

def affineLine : List String :=
  ["--problem", "affine", "--out", "/runs/affine", "--method=newton", "--x0", "1", "1", "1",
    "--ftol", "1e-3", "--ftol", "1e-6", "--linesearch", "static", "--no-autoscale"]

def affineRun : Path := ⟨true, ["runs", "affine"]⟩

def affineOpened : FileTree :=
  ⟨[⟨true, ["runs"]⟩, affineRun], [(affineRun.child logName, .text "")]⟩

def affineClock : Clock := ⟨0.25, "2024-01-01T00:00:00+00:00"⟩

theorem execute_solution_affine :
    ∃ i r, read affineLine = .ok i ∧ i.out = some "/runs/affine" ∧ i.ftol = 1e-6 ∧
      i.solution .affine = .ok r ∧ r.trace.length = 2 ∧
      let report := execute i (attempt i) .empty affineClock
      Run.load report.tree affineRun = .ok r.listed ∧ report.ending = .ok 0 := by
  have computed : (read affineLine).toOption.map (fun i => (i.out, i.problem, i.ftol,
      (i.solution .affine).toOption.map fun r => (r.trace.length,
        decide (r.converged ∧ Run.Fits r (label i .affine affineClock) affineRun)))) =
        some (some "/runs/affine", "affine", 1e-6, some (2, true)) := by
    decide +kernel
  obtain ⟨i, accepted, facts⟩ := Plan.ok_of_toOption computed
  simp only [Prod.mk.injEq] at facts
  obtain ⟨kept, problem, ftol, solved⟩ := facts
  obtain ⟨r, returned, facts⟩ := Plan.ok_of_toOption solved
  obtain ⟨length, facts⟩ := Prod.mk.inj facts
  obtain ⟨converged, fits⟩ := of_decide_eq_true facts
  obtain ⟨_, p, _, _, among, named, -, ran⟩ :=
    execute_solution accepted kept .empty affineClock
  have found := Problem.named_of_mem among
  rw [named, problem] at found
  cases found
  have path : Path.ofText "/runs/affine" = affineRun := by decide
  rw [path] at ran
  have logs : Logs .empty affineRun :=
    ⟨FileWork.makes_iff.mpr (by decide), ⟨by decide, rfl⟩⟩
  have log : i.openLog.on .empty = (.ok (), affineOpened) := by
    rw [Invocation.openLog, Invocation.outPath?, kept, Option.map_some, path]
    rfl
  obtain ⟨opened, same, ran⟩ := ran logs
  obtain rfl := congrArg Prod.snd (log.symm.trans same)
  rw [returned] at ran
  have admits : Run.Admits affineOpened affineRun affineRun := by
    refine ⟨rfl, FileWork.makes_iff.mpr (by decide), ?_⟩
    simp only [List.forall_mem_cons]
    exact ⟨⟨by decide, rfl⟩, ⟨by decide, rfl⟩, ⟨by decide, rfl⟩, nofun⟩
  obtain ⟨ending, read⟩ := ran.1 affineRun admits
  refine ⟨i, r, accepted, kept, ftol, returned, length, read fits, ending.trans ?_⟩
  exact congrArg Except.ok (if_pos converged)

def homelessLine : List String :=
  ["--problem", "constant", "--ftol", "2", "--out", "~nosuchuser/x"]

def homelessRun : Path := ⟨false, ["~nosuchuser", "x"]⟩

/-- The solve converges, but nobody is known by the name in front of the path. -/
theorem execute_homeless :
    ∃ i r, read homelessLine = .ok i ∧ i.outPath? = some homelessRun ∧
      i.solution .constant = .ok r ∧ r.converged ∧
      let report := execute i (attempt i) .empty affineClock
      report.ending = .error (.fault .noHome) ∧
        Run.load report.tree homelessRun = .error (.badValue .noHome) := by
  have computed : (read homelessLine).toOption.map (fun i => (i.outPath?, i.problem,
      (i.solution .constant).toOption.map (·.converged))) =
        some (some homelessRun, "constant", some true) := by
    decide +kernel
  obtain ⟨i, accepted, facts⟩ := Plan.ok_of_toOption computed
  simp only [Prod.mk.injEq] at facts
  obtain ⟨kept, problem, solved⟩ := facts
  obtain ⟨r, returned, converged⟩ := Plan.ok_of_toOption solved
  have logs : Logs .empty homelessRun :=
    ⟨FileWork.makes_iff.mpr (by decide), ⟨by decide, rfl⟩⟩
  obtain ⟨opened, log, -⟩ := Invocation.openLog_on kept logs
  have among : .constant ∈ Problem.all (α := Float) := by simp [Problem.all]
  have result := Invocation.attempt_result kept among problem.symm
  rw [returned] at result
  obtain ⟨a, attempted, ended⟩ := Except.bind_ok.mp result
  have expands : Host.expand homelessRun = .error .noHome := rfl
  have refused : (Run.save homelessRun r (label i a.problem affineClock)).on opened =
      (.error .noHome, opened) := by
    simp only [Run.save, FileWork.on_bind, FileWork.on_lift, expands]
  refine ⟨i, r, accepted, kept, returned, converged, ?_, rfl⟩
  rw [execute_eq log, attempted]
  exact (Report.ending_logged _).trans (report_of_refused kept ended refused)

end CommandLine

end RootFinding
