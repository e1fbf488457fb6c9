import RootFinding.CommandLine.Flag
import RootFinding.Decimal.Reading
import RootFinding.Options
import RootFinding.Problem
import RootFinding.Solver.Solve

namespace RootFinding.CommandLine

inductive SearchChoice where
  | backtracking
  | fixed
  | strongWolfe
  deriving DecidableEq, Repr

namespace SearchChoice

def all : List SearchChoice := [backtracking, fixed, strongWolfe]

def text : SearchChoice → String
  | backtracking => "backtracking"
  | fixed => "static"
  | strongWolfe => "strong-wolfe"

def lineSearch : SearchChoice → LineSearch Float
  | backtracking => .backtracking .standard
  | fixed => .fixed 1.0
  | strongWolfe => .standardWolfe

end SearchChoice

structure Invocation where
  problem : String
  out : Option String
  method : Method
  x0 : Option (List Float)
  xtol : Float
  ftol : Float
  iterations : Int
  factor : Float
  noAutoscale : Bool
  search : SearchChoice
  finiteDifference : Bool
  showTrace : Bool
  extendedTrace : Bool
  logLevel : Level

namespace Invocation

def standard (problem : String) : Invocation where
  problem := problem
  out := none
  method := .trustRegion
  x0 := none
  xtol := 0.0
  ftol := 1e-8
  iterations := 1000
  factor := 1.0
  noAutoscale := false
  search := .backtracking
  finiteDifference := false
  showTrace := false
  extendedTrace := false
  logLevel := .info

/-- The settings of the solve; the trace is kept when it is written or extended. -/
def options (i : Invocation) : Except (Failure Float) (Options Float) :=
  Options.check {
    xtol := i.xtol
    ftol := i.ftol
    iterations := .whole i.iterations
    storeTrace := i.out.isSome || i.extendedTrace
    showTrace := i.showTrace
    extendedTrace := i.extendedTrace
    factor := i.factor
    autoscale := !i.noAutoscale
    lineSearch := i.search.lineSearch }

end Invocation

inductive Halt where
  | help
  | misuse (m : Misuse)

/-- What was read so far; the problem is the one thing without a default. -/
structure Draft where
  problem : Option String
  rest : Invocation

namespace Draft

def blank : Draft := ⟨none, .standard ""⟩

def float (flag : Flag) (s : String) : Except Misuse Float :=
  match Decimal.readFloat? s with
  | some v => .ok v
  | none => .error (.notFloat flag s)

def int [Limits] (flag : Flag) (s : String) : Except Misuse Int :=
  (Decimal.readInt s).mapError fun _ => .notInt flag s

def choice {β : Type} (flag : Flag) (choices : List β) (name : β → String) (s : String) :
    Except Misuse β :=
  match choices.find? (name · = s) with
  | some b => .ok b
  | none => .error (.notChoice flag s ((choices.map name).mergeSort (· ≤ ·)))

def problemNames : List String := (Problem.all (α := Float)).map (·.name)

def setOne [Limits] (d : Draft) (flag : Flag) (s : String) : Except Misuse Draft :=
  let r := d.rest
  match flag with
  | .problem => return { d with problem := some (← choice flag problemNames id s) }
  | .out => return { d with rest := { r with out := some s } }
  | .method => do
    let method ← choice flag [.newton, .trustRegion] Method.option s
    return { d with rest := { r with method } }
  | .xtol => return { d with rest := { r with xtol := ← float flag s } }
  | .ftol => return { d with rest := { r with ftol := ← float flag s } }
  | .iterations => return { d with rest := { r with iterations := ← int flag s } }
  | .factor => return { d with rest := { r with factor := ← float flag s } }
  | .linesearch => do
    let search ← choice flag SearchChoice.all SearchChoice.text s
    return { d with rest := { r with search } }
  | .logLevel => do
    let logLevel ← choice flag [.debug, .info, .warning] Level.name s
    return { d with rest := { r with logLevel } }
  | _ => .ok d

def setMany (d : Draft) (flag : Flag) (values : List String) : Except Misuse Draft := do
  let x0 ← values.mapM (float flag)
  return { d with rest := { d.rest with x0 := some x0 } }

def setNone (d : Draft) (flag : Flag) : Except Halt Draft :=
  let r := d.rest
  match flag with
  | .help => .error .help
  | .noAutoscale => .ok { d with rest := { r with noAutoscale := true } }
  | .finiteDifference => .ok { d with rest := { r with finiteDifference := true } }
  | .showTrace => .ok { d with rest := { r with showTrace := true } }
  | .extendedTrace => .ok { d with rest := { r with extendedTrace := true } }
  | _ => .ok d

def set [Limits] (d : Draft) (flag : Flag) (values : List String) : Except Halt Draft :=
  match flag.arity, values with
  | .none, _ => d.setNone flag
  | .one, [s] => (d.setOne flag s).mapError .misuse
  | .some, s :: rest => (d.setMany flag (s :: rest)).mapError .misuse
  | _, _ => .error (.misuse (.noValue flag))

def setGiven [Limits] (d : Draft) (flag : Flag) (s : String) : Except Halt Draft :=
  if flag.arity = .none then .error (.misuse (.needlessValue flag s)) else d.set flag [s]

end Draft

/-- What follows a short option in its word: more of them, or a value, which it does not take. -/
def haltOfShort : List Char → Halt
  | '=' :: rest => .misuse (.needlessValue .help (String.ofList rest))
  | '-' :: rest => .misuse (.needlessValue .help (String.ofList ('-' :: rest)))
  | 'h' :: rest => haltOfShort rest
  | _ => .help

/-- An option that may still take values, with those it has. -/
structure Pending where
  flag : Flag
  values : List String

def Pending.takesMore (p : Pending) : Bool :=
  match p.flag.arity with
  | .none => false
  | .one => p.values.isEmpty
  | .some => true

def close [Limits] (d : Draft) : Option Pending → Except Halt Draft
  | none => .ok d
  | some p => d.set p.flag p.values

/-- Reads words in order; an option is set as soon as its values are complete. Words that belong to
no option are kept. -/
def collect [Limits] : List Word → Draft → Option Pending → (loose : List String) →
    Except Halt (Draft × List String)
  | [], d, pending, loose => do
    return (← close d pending, loose)
  | .value s :: words, d, pending, loose =>
    match pending.filter Pending.takesMore with
    | some p => collect words d (some ⟨p.flag, p.values ++ [s]⟩) loose
    | none => do
      collect words (← close d pending) none (loose ++ [s])
  | .flag f none :: words, d, pending, loose => do
    collect words (← close d pending) (some ⟨f, []⟩) loose
  | .flag f (some s) :: words, d, pending, loose => do
    let d ← close d pending
    collect words (← d.setGiven f s) none loose
  | .joined s :: _, d, pending, _ => do
    let _ ← close d pending
    throw (haltOfShort s.toList)
  | .stop :: words, d, pending, loose => do
    collect words (← close d pending) none (loose ++ ["--"])
  | .unknown s :: words, d, pending, loose => do
    collect words (← close d pending) none (loose ++ [s])

def read [Limits] (arguments : List String) : Except Halt Invocation := do
  let words ← (Word.ofTexts arguments).mapError .misuse
  let (d, loose) ← collect words .blank none []
  match d.problem with
  | none => throw (.misuse (.required .problem))
  | some problem =>
    if loose.isEmpty then return { d.rest with problem := problem }
    else throw (.misuse (.unrecognized loose))

end RootFinding.CommandLine
