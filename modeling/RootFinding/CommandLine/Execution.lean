import RootFinding.CommandLine.Invocation
import RootFinding.Storage.Run

namespace RootFinding.CommandLine

def logName : String := "solve.log"

namespace Invocation

variable (i : Invocation)

def outPath? : Option Path := i.out.map Path.ofText

/-- Makes the directory as it is named, with a log in it; a log that is there stays. -/
def openLog [Host] : FileWork Unit :=
  match i.outPath? with
  | none => return ()
  | some directory => do
    FileWork.makeDirectory directory
    FileWork.extendFile (directory.child logName)

def logs (line : LogLine) : Bool := i.logLevel.rank ≤ line.level.rank

end Invocation

structure Attempt where
  problem : Problem Float
  start : LogLine
  outcome : Outcome Float

def startLine (i : Invocation) (p : Problem Float) : LogLine :=
  .info <| s!"solve start (problem={p.name}, n={p.dimension}, method={i.method.option}, " ++
    s!"analytic_jacobian={Datum.boolText !i.finiteDifference})"

def attempt (i : Invocation) : Except (Failure Float) Attempt := do
  let p ← (Problem.named i.problem).mapError .fault
  let options ← i.options
  let entries := i.x0.getD p.start.toList
  let outcome := RootFinding.solve (.system (p.system !i.finiteDifference)) none
    (.ok ([entries.length], entries)) i.method.option options
  return ⟨p, startLine i p, outcome⟩

/-- How long the solve took, in seconds, and when the run was saved. -/
structure Clock where
  elapsed : Float
  savedAt : String

def vectorText (entries : List Float) : String :=
  "[" ++ ", ".intercalate (entries.map (Decimal.scientificText 6)) ++ "]"

def summary (r : Results Float) (clock : Clock) : List LogLine :=
  [.info s!"method: {r.method}",
    .info s!"zero: {vectorText r.zero}",
    .info s!"inf-norm(residual): {Decimal.scientificText 3 r.residualNorm}",
    .info s!"iterations: {r.iterations}",
    .info <| s!"x converged: {Datum.boolText r.xConverged} " ++
      s!"(xtol={Decimal.scientificText 1 r.xtol})",
    .info <| s!"f converged: {Datum.boolText r.fConverged} " ++
      s!"(ftol={Decimal.scientificText 1 r.ftol})",
    .info s!"calls: f={r.fCalls} j={r.jCalls}",
    .info s!"elapsed: {Decimal.fixedText 3 clock.elapsed}s"]

def distanceLine? (p : Problem Float) (r : Results Float) : Option LogLine := do
  let root ← p.root
  let zero ← vecOfList? p.dimension r.zero
  return .info <| "distance to known root: " ++
    Decimal.scientificText 3 (Vec.norm (zero - root))

def warningLine? (r : Results Float) : Option LogLine :=
  if r.converged then none
  else some ⟨.warning, s!"solver did not converge in {r.iterations} iterations"⟩

def label (i : Invocation) (p : Problem Float) (clock : Clock) : Run.Label where
  name := some p.name
  savedAt := clock.savedAt
  extra := [
    ("problem", .text p.name),
    ("solver", .text i.method.option),
    ("linesearch", .text i.search.text),
    ("finite_difference", .bool i.finiteDifference),
    ("autoscale", .bool !i.noAutoscale),
    ("factor", .float i.factor),
    ("elapsed_s", .float clock.elapsed)]

/-- What a run shows and how it ends: with an exit status, or with a failure. -/
structure Report where
  lines : List LogLine
  ending : Except (Failure Float) Nat
  tree : FileTree

def exitStatus (r : Results Float) : Nat := if r.converged then 0 else 1

/-- The report on an attempt that could be made, and the run written where it was asked for, or as
much of it as could be written. -/
def Attempt.report [Host] (a : Attempt) (i : Invocation) (t : FileTree) (clock : Clock) : Report :=
  let begun := a.start :: a.outcome.notices.filterMap Notice.line?
  match a.outcome.result with
  | .error e => ⟨begun, .error e, t⟩
  | .ok r =>
    let lines := begun ++ summary r clock ++ (distanceLine? a.problem r).toList ++
      (warningLine? r).toList
    match i.outPath? with
    | none => ⟨lines, .ok (exitStatus r), t⟩
    | some directory =>
      match (Run.save directory r (label i a.problem clock)).on t with
      | (.ok (), t) =>
        ⟨lines ++ [.info ("wrote run to " ++ directory.text)], .ok (exitStatus r), t⟩
      | (.error f, t) => ⟨lines, .error (.fault f), t⟩

/-- The report on an invocation whose attempt is at hand; only lines of enough importance stay. -/
def report [Host] (i : Invocation) (attempted : Except (Failure Float) Attempt) (t : FileTree)
    (clock : Clock) : Report :=
  match attempted with
  | .error e => ⟨[], .error e, t⟩
  | .ok a =>
    let r := a.report i t clock
    { r with lines := r.lines.filter i.logs }

def Report.logged (r : Report) (i : Invocation) : Report :=
  match i.outPath? with
  | none => r
  | some directory =>
    let path := directory.child logName
    let old := match r.tree.read? path with
      | some (.text s) => s
      | _ => ""
    let lines := r.lines.map fun line => line.shown ++ "\n"
    { r with tree := r.tree.write path (.text (old ++ String.join lines)) }

/-- A whole run: the log is opened first, so that it is there however the run ends. -/
def execute [Host] (i : Invocation) (attempted : Except (Failure Float) Attempt) (t : FileTree)
    (clock : Clock) : Report :=
  match i.openLog.on t with
  | (.error f, t) => ⟨[], .error (.fault f), t⟩
  | (.ok (), t) => (report i attempted t clock).logged i

end RootFinding.CommandLine
