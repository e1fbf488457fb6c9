import RootFinding.Text.Quoted
import RootFinding.Text.Character

namespace RootFinding.CommandLine

inductive Flag where
  | help
  | problem
  | out
  | method
  | x0
  | xtol
  | ftol
  | iterations
  | factor
  | noAutoscale
  | linesearch
  | finiteDifference
  | showTrace
  | extendedTrace
  | logLevel
  deriving DecidableEq, Repr

inductive Arity where
  | none
  | one
  | some
  deriving DecidableEq, Repr

namespace Flag

def all : List Flag :=
  [help, problem, out, method, x0, xtol, ftol, iterations, factor, noAutoscale, linesearch,
    finiteDifference, showTrace, extendedTrace, logLevel]

def text : Flag → String
  | help => "--help"
  | problem => "--problem"
  | out => "--out"
  | method => "--method"
  | x0 => "--x0"
  | xtol => "--xtol"
  | ftol => "--ftol"
  | iterations => "--iterations"
  | factor => "--factor"
  | noAutoscale => "--no-autoscale"
  | linesearch => "--linesearch"
  | finiteDifference => "--finite-difference"
  | showTrace => "--show-trace"
  | extendedTrace => "--extended-trace"
  | logLevel => "--log-level"

def label : Flag → String
  | help => "-h/--help"
  | flag => flag.text

def arity : Flag → Arity
  | help | noAutoscale | finiteDifference | showTrace | extendedTrace => .none
  | x0 => .some
  | _ => .one

def usage (flag : Flag) : String :=
  let form := match flag.arity with
    | .none => flag.text
    | .one => flag.text ++ " VALUE"
    | .some => flag.text ++ " VALUE [VALUE ...]"
  if flag = problem then form else "[" ++ form ++ "]"

end Flag

inductive Misuse where
  | ambiguous (word : String) (candidates : List Flag)
  | noValue (flag : Flag)
  | needlessValue (flag : Flag) (value : String)
  | notFloat (flag : Flag) (value : String)
  | notInt (flag : Flag) (value : String)
  | notChoice (flag : Flag) (value : String) (choices : List String)
  | required (flag : Flag)
  | unrecognized (words : List String)
  deriving DecidableEq, Repr

namespace Misuse

def about (flag : Flag) (text : String) : String := "argument " ++ flag.label ++ ": " ++ text

def text : Misuse → String
  | ambiguous word candidates =>
    s!"ambiguous option: {word} could match " ++ ", ".intercalate (candidates.map Flag.text)
  | noValue flag =>
    about flag (if flag.arity = .some then "expected at least one argument"
      else "expected one argument")
  | needlessValue flag value =>
    about flag ("ignored explicit argument " ++ Text.quoted value)
  | notFloat flag value => about flag ("invalid float value: " ++ Text.quoted value)
  | notInt flag value => about flag ("invalid int value: " ++ Text.quoted value)
  | notChoice flag value choices =>
    about flag ("invalid choice: " ++ Text.quoted value ++ " (choose from " ++
      ", ".intercalate (choices.map Text.quoted) ++ ")")
  | required flag => "the following arguments are required: " ++ flag.text
  | unrecognized words => "unrecognized arguments: " ++ " ".intercalate words

end Misuse

inductive Word where
  | flag (f : Flag) (value : Option String)
  | value (s : String)
  | stop
  | unknown (s : String)
  /-- A short option run together with a text. -/
  | joined (s : String)

namespace Word

def splitEquals (cs : List Char) : List Char × Option (List Char) :=
  match cs.dropWhile (· ≠ '=') with
  | [] => (cs, none)
  | _ :: rest => (cs.takeWhile (· ≠ '='), some rest)

def isDigits (cs : List Char) : Bool :=
  !cs.isEmpty && cs.all fun c => (Text.digitValue? c).isSome

def isNegativeNumber : List Char → Bool
  | '-' :: rest =>
    let rest := if rest.getLast? = some '\n' then rest.dropLast else rest
    isDigits rest ||
      match rest.dropWhile fun c => (Text.digitValue? c).isSome with
      | '.' :: after => isDigits after
      | _ => false
  | _ => false

def plain (cs : List Char) : Word :=
  let s := String.ofList cs
  if isNegativeNumber cs || cs.contains ' ' then value s else unknown s

def ofLong (cs : List Char) : Except Misuse Word :=
  let s := String.ofList cs
  let (start, given) := splitEquals cs
  match Flag.all.find? (·.text = s) with
  | some f => .ok (flag f none)
  | none =>
    match Flag.all.find? (·.text.toList = start) with
    | some f => .ok (flag f (given.map String.ofList))
    | none =>
      match Flag.all.filter fun f => start.isPrefixOf f.text.toList with
      | [] => .ok (plain cs)
      | [f] => .ok (flag f (given.map String.ofList))
      | candidates => .error (.ambiguous s candidates)

def ofText (s : String) : Except Misuse Word :=
  match s.toList with
  | ['-', '-'] => .ok stop
  | '-' :: '-' :: rest => ofLong ('-' :: '-' :: rest)
  | ['-', 'h'] => .ok (flag .help none)
  | '-' :: 'h' :: rest => .ok (joined (String.ofList rest))
  | ['-'] => .ok (value "-")
  | '-' :: rest => .ok (plain ('-' :: rest))
  | _ => .ok (value s)

def ofTexts : List String → Except Misuse (List Word)
  | [] => .ok []
  | s :: rest => do
    match ← ofText s with
    | stop => return stop :: rest.map value
    | word => return word :: (← ofTexts rest)

end Word

end RootFinding.CommandLine
