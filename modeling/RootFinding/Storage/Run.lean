import RootFinding.Storage.Failure
import RootFinding.Storage.Host
import RootFinding.Solver.Results
import RootFinding.Json.Printer
import RootFinding.Text.Line

namespace RootFinding

namespace FileTree

def readText (t : FileTree) (p : Path) : Except StorageFailure String :=
  match t.read? p with
  | none => .error (.noSuchFile p)
  | some (.arrays _) => .ok ""
  | some (.text s) => .ok (String.ofList (Text.unifyLineEnds s.toList))

def readDocument [Limits] (t : FileTree) (p : Path) : Except StorageFailure Json := do
  let text ← t.readText p
  (Json.read text).mapError (.unreadable · text)

def writeTrace (t : FileTree) (p : Path) (trace : List (Entry Float)) : FileTree :=
  t.write p (.text (Trace.toJson trace).render)

def readTrace [Limits] (t : FileTree) (p : Path) : Except StorageFailure (List (Entry Float)) := do
  let document ← t.readDocument p
  (Trace.ofJson document).mapError (.malformed · p)

end FileTree

namespace Run

def vectorsName : String := "results.npz"
def descriptionName : String := "meta.json"
def traceName : String := "trace.json"

structure Label where
  name : Option String
  savedAt : String
  extra : Extras Float

def Label.title (label : Label) (directory : Path) : String :=
  match label.name with
  | some "" | none => directory.name
  | some name => name

def vectors (r : Results Float) : List (String × Nested Float) :=
  [("zero", .row r.zero), ("residual", .row r.residual), ("initial_x", .row r.initialX)]

def sortedMembers (members : List (String × Json)) : List (String × Json) :=
  members.mergeSort fun a b => a.1 ≤ b.1

def particulars (r : Results Float) (label : Label) (directory : Path) : List (String × Json) :=
  let extra := label.extra.map fun (key, value) => (key, value.stored)
  [ ("schema_version", .int 1),
    ("name", .str (label.title directory)),
    ("saved_at", .str label.savedAt),
    ("method", .str r.method),
    ("iterations", .int r.iterations),
    ("converged", .bool r.converged),
    ("x_converged", .bool r.xConverged),
    ("f_converged", .bool r.fConverged),
    ("xtol", .float r.xtol),
    ("ftol", .float r.ftol),
    ("residual_norm", .float r.residualNorm),
    ("f_calls", .int r.fCalls),
    ("j_calls", .int r.jCalls)] ++
  if extra.isEmpty then [] else [("extra", .obj (sortedMembers extra))]

def description (r : Results Float) (label : Label) (directory : Path) : Json :=
  .obj (sortedMembers (particulars r label directory))

def write (t : FileTree) (directory : Path) (r : Results Float) (label : Label) : FileTree :=
  let t := t.makeDirectory directory
  let t := t.write (directory.child vectorsName) (.arrays (vectors r))
  let t := t.write (directory.child descriptionName)
    (.text (description r label directory).render)
  t.writeTrace (directory.child traceName) r.trace

def contents (r : Results Float) (label : Label) (directory : Path) : List (String × Content) :=
  [(vectorsName, .arrays (vectors r)),
    (descriptionName, .text (description r label directory).render),
    (traceName, .text (Trace.toJson r.trace).render)]

def save [Host] (p : Path) (r : Results Float) (label : Label) : FileWork Unit := do
  let directory ← Host.expand p
  FileWork.makeDirectory directory
  FileWork.storeAll directory (contents r label directory)

def vector (members : List (String × Nested Float)) (key : String) (path : Path) :
    Except StorageFailure (List Float) :=
  match members.find? (·.1 == key) with
  | some (_, entries) => .ok entries.leaves
  | none => .error (.missingArray key path)

def readArrays (t : FileTree) (path : Path) :
    Except StorageFailure (List (String × Nested Float)) :=
  match t.read? path with
  | none => .error (.noSuchFile path)
  | some (.arrays members) => .ok members
  | some (.text "") => .error .emptyArrays
  | some (.text _) => .error .notArrays

def field (members : List (String × Json)) (key : String) : Except StorageFailure Json :=
  match Json.lookup members key with
  | some value => .ok value
  | none => .error (.missingField key)

def floatField (members : List (String × Json)) (key : String) : Except StorageFailure Float := do
  (← field members key).toFloat.mapError .badValue

def intField [Limits] (members : List (String × Json)) (key : String) :
    Except StorageFailure Int := do
  (← field members key).toInt.mapError .badValue

def boolField (members : List (String × Json)) (key : String) : Except StorageFailure Bool := do
  return (← field members key).truth

def assemble [Limits] (zero residual initialX : List Float) (members : List (String × Json))
    (trace : List (Entry Float)) : Except StorageFailure (Results Float) := do
  let method ← field members "method"
  let residualNorm ← floatField members "residual_norm"
  let iterations ← intField members "iterations"
  let xConverged ← boolField members "x_converged"
  let xtol ← floatField members "xtol"
  let fConverged ← boolField members "f_converged"
  let ftol ← floatField members "ftol"
  let fCalls ← intField members "f_calls"
  let jCalls ← intField members "j_calls"
  return {
    method := (Datum.ofJson method).plainText, initialX, zero, residual, residualNorm, iterations,
    xConverged, xtol, fConverged, ftol, trace, fCalls, jCalls }

def read [Limits] (t : FileTree) (directory : Path) : Except StorageFailure (Results Float) := do
  let vectorsPath := directory.child vectorsName
  let descriptionPath := directory.child descriptionName
  let tracePath := directory.child traceName
  if !t.hasDirectory directory then throw (.noRunDirectory directory)
  if !t.hasFile vectorsPath then throw (.noFileIn vectorsName directory)
  if !t.hasFile descriptionPath then throw (.noFileIn descriptionName directory)
  let arrays ← readArrays t vectorsPath
  let zero ← vector arrays "zero" vectorsPath
  let residual ← vector arrays "residual" vectorsPath
  let initialX ← vector arrays "initial_x" vectorsPath
  match ← t.readDocument descriptionPath with
  | .obj members => do
    let trace ← if t.hasFile tracePath then t.readTrace tracePath else pure []
    assemble zero residual initialX members trace
  | _ => throw (.malformed .notObject descriptionPath)

def load [Limits] [Host] (t : FileTree) (p : Path) : Except StorageFailure (Results Float) := do
  let directory ← (Host.expand p).mapError .badValue
  read t directory

end Run

end RootFinding
