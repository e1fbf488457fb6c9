import RootFinding.Text.Quoted

namespace RootFinding

def extentsText (separator : String) : List Nat → String
  | [] => "()"
  | [n] => s!"({n},)"
  | extents => "(" ++ separator.intercalate (extents.map toString) ++ ")"

/-- The class of a fault. Its name is part of the messages built on it. -/
inductive FaultKind where
  | zeroDivision
  | value
  | key
  | runtime
  | type
  | shape
  | overflow
  | index
  | recursion
  | os
  | permission
  | fileExists
  | notADirectory
  | isADirectory
  | solver
  | evaluation
  | singularJacobian
  deriving DecidableEq, Repr

def FaultKind.name : FaultKind → String
  | zeroDivision => "ZeroDivisionError"
  | value => "ValueError"
  | key => "KeyError"
  | runtime => "RuntimeError"
  | type => "TypeError"
  | shape => "ShapeError"
  | overflow => "OverflowError"
  | index => "IndexError"
  | recursion => "RecursionError"
  | os => "OSError"
  | permission => "PermissionError"
  | fileExists => "FileExistsError"
  | notADirectory => "NotADirectoryError"
  | isADirectory => "IsADirectoryError"
  | solver => "NLSolveError"
  | evaluation => "EvaluationError"
  | singularJacobian => "SingularJacobianError"

def FaultKind.isOwn : FaultKind → Bool
  | shape | solver | evaluation | singularJacobian => true
  | _ => false

inductive Fault where
  | divisionByZero
  | powerRange
  | functionRange
  | functionDomain
  | noEntry (index : Int) (size : Nat)
  | noArgument
  | noCallable
  | noDimension
  | ragged (extents : List Nat)
  | notUnpackable
  | notTwo (count : Nat)
  | cannotFill (value target : List Nat)
  | cannotCombine (left right : List Nat)
  | productMismatch (size expected : Nat)
  | rightSideMismatch (size expected : Nat)
  | notAligned (left right : Nat)
  | notFloatText (text : String)
  | notIntText (text : String)
  | notFloat (sort : String)
  | notInt (sort : String)
  | tooManyDigits (limit count : Nat)
  | tooDeep (container : String)
  | fractionalCount
  | intTooLarge
  | infiniteInt
  | undefinedInt
  | negativeWidth (width : Int)
  | noHome
  | raised (kind : FaultKind) (text : String)
  deriving DecidableEq, Repr

namespace Fault

def kind : Fault → FaultKind
  | divisionByZero => .zeroDivision
  | powerRange | functionRange | intTooLarge | infiniteInt => .overflow
  | noEntry .. | noArgument => .index
  | tooDeep _ => .recursion
  | noHome => .runtime
  | noCallable | noDimension | notUnpackable | notFloat _ | notInt _ | fractionalCount => .type
  | raised kind _ => kind
  | _ => .value

def text : Fault → String
  | divisionByZero => "float division by zero"
  | powerRange => "(34, 'Numerical result out of range')"
  | functionRange => "math range error"
  | functionDomain => "math domain error"
  | noEntry index size => s!"index {index} is out of bounds for axis 0 with size {size}"
  | noArgument => "tuple index out of range"
  | noCallable => "'NoneType' object is not callable"
  | noDimension => "'<' not supported between instances of 'NoneType' and 'int'"
  | ragged extents =>
    "setting an array element with a sequence. The requested array has an inhomogeneous shape " ++
      s!"after {extents.length} dimensions. The detected shape was " ++
      extentsText ", " extents ++ " + inhomogeneous part."
  | notUnpackable => "cannot unpack non-iterable float object"
  | notTwo count =>
    if count < 2 then s!"not enough values to unpack (expected 2, got {count})"
    else "too many values to unpack (expected 2)"
  | cannotFill value target =>
    "could not broadcast input array from shape " ++ extentsText "," value ++ " into shape " ++
      extentsText "," target
  | cannotCombine left right =>
    "operands could not be broadcast together with shapes " ++ extentsText "," left ++ " " ++
      extentsText "," right ++ " "
  | productMismatch size expected =>
    "matmul: Input operand 1 has a mismatch in its core dimension 0, with gufunc signature " ++
      s!"(n?,k),(k,m?)->(n?,m?) (size {size} is different from {expected})"
  | rightSideMismatch size expected =>
    "solve1: Input operand 1 has a mismatch in its core dimension 0, with gufunc signature " ++
      s!"(m,m),(m)->(m) (size {size} is different from {expected})"
  | notAligned left right =>
    s!"shapes ({left},) and ({right},) not aligned: {left} (dim 0) != {right} (dim 0)"
  | notFloatText text => "could not convert string to float: " ++ Text.quoted text
  | notIntText text =>
    "invalid literal for int() with base 10: " ++ String.ofList ((Text.quoted text).toList.take 200)
  | notFloat sort => s!"float() argument must be a string or a real number, not '{sort}'"
  | notInt sort =>
    s!"int() argument must be a string, a bytes-like object or a real number, not '{sort}'"
  | tooManyDigits limit count =>
    s!"Exceeds the limit ({limit} digits) for integer string conversion: " ++
      s!"value has {count} digits; use sys.set_int_max_str_digits() to increase the limit"
  | tooDeep container =>
    s!"maximum recursion depth exceeded while decoding a JSON {container} from a unicode string"
  | fractionalCount => "'float' object cannot be interpreted as an integer"
  | intTooLarge => "int too large to convert to float"
  | infiniteInt => "cannot convert float infinity to integer"
  | undefinedInt => "cannot convert float NaN to integer"
  | negativeWidth width => s!"Invalid format specifier '0{width}d' for object of type 'int'"
  | noHome => "Could not determine home directory."
  | raised _ text => text

def summary (f : Fault) : String :=
  f.kind.name ++ ": " ++ if f.kind = .key then Text.quoted f.text else f.text

end Fault

end RootFinding
