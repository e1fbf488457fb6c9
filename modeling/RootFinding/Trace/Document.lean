import RootFinding.Trace.Entry

namespace RootFinding.Trace

def extrasJson (extras : Extras Float) : Json :=
  .obj (extras.map fun (key, value) => (key, value.stored))

def toJson (entries : List (Entry Float)) : Json :=
  .obj [
    ("iters", .arr (entries.map fun e => .int e.iteration)),
    ("fnorm", .arr (entries.map fun e => .float e.fnorm)),
    ("stepnorm", .arr (entries.map fun e => .float e.stepnorm)),
    ("extras", .arr (entries.map fun e => extrasJson e.extras))]

inductive Malformed where
  | notObject
  | noList (key : String)
  | unequalLengths
  | extrasNotObject
  | badValue (f : Fault)
  deriving DecidableEq, Repr

def list (document : Json) (key : String) : Except Malformed (List Json) :=
  match document.get? key with
  | some (.arr items) => .ok items
  | _ => .error (.noList key)

def entry [Limits] (iteration fnorm stepnorm extras : Json) : Except Malformed (Entry Float) :=
  match extras with
  | .obj members => do
    let i ← iteration.toInt.mapError .badValue
    let f ← fnorm.toFloatOrNaN.mapError .badValue
    let s ← stepnorm.toFloatOrNaN.mapError .badValue
    return ⟨i, f, s, Datum.ofJsonMembers members⟩
  | _ => .error .extrasNotObject

def zipEntries [Limits] :
    (iters fnorm stepnorm extras : List Json) → Except Malformed (List (Entry Float))
  | i :: iters, f :: fnorm, s :: stepnorm, e :: extras => do
    let first ← entry i f s e
    let rest ← zipEntries iters fnorm stepnorm extras
    return first :: rest
  | _, _, _, _ => .ok []

def ofJson [Limits] (document : Json) : Except Malformed (List (Entry Float)) := do
  if document.members?.isNone then throw .notObject
  let iters ← list document "iters"
  let fnorm ← list document "fnorm"
  let stepnorm ← list document "stepnorm"
  let extras ← list document "extras"
  if iters.length ≠ fnorm.length ∨ fnorm.length ≠ stepnorm.length ∨
      stepnorm.length ≠ extras.length then
    throw .unequalLengths
  zipEntries iters fnorm stepnorm extras

end RootFinding.Trace
