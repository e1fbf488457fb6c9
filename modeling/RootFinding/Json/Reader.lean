import RootFinding.Json.Basic
import RootFinding.Decimal.Reading
import RootFinding.Text.Surrogate

namespace RootFinding.Json

inductive Problem where
  | expectedValue
  | expectedComma
  | expectedColon
  | expectedKey
  | extraData
  | unterminatedString
  | invalidEscape
  | invalidCodeEscape
  | controlCharacter
  | byteOrderMark
  deriving DecidableEq, Repr

def Problem.text : Problem → String
  | expectedValue => "Expecting value"
  | expectedComma => "Expecting ',' delimiter"
  | expectedColon => "Expecting ':' delimiter"
  | expectedKey => "Expecting property name enclosed in double quotes"
  | extraData => "Extra data"
  | unterminatedString => "Unterminated string starting at"
  | invalidEscape => "Invalid \\escape"
  | invalidCodeEscape => "Invalid \\uXXXX escape"
  | controlCharacter => "Invalid control character at"
  | byteOrderMark => "Unexpected UTF-8 BOM (decode using utf-8-sig)"

/-- A text that is no document, or one beyond the limits. -/
inductive ReadError where
  | syntactic (problem : Problem) (position : Nat)
  | fault (f : Fault)
  deriving DecidableEq, Repr

namespace ReadError

def className : ReadError → String
  | syntactic .. => "JSONDecodeError"
  | fault f => f.kind.name

def message (text : String) : ReadError → String
  | syntactic problem position =>
    let before := text.toList.take position
    let line := before.count '\n' + 1
    let column := (before.reverse.takeWhile (· != '\n')).length + 1
    s!"{problem.text}: line {line} column {column} (char {position})"
  | fault f => f.text

end ReadError

/-- What is left of the text, and the position of its first character. -/
structure Cursor where
  position : Nat
  rest : List Char

namespace Cursor

def advance (c : Cursor) (count : Nat) : Cursor := ⟨c.position + count, c.rest.drop count⟩

def isSpace (c : Char) : Bool := c == ' ' || c == '\t' || c == '\n' || c == '\r'

def skipSpace (c : Cursor) : Cursor := c.advance (c.rest.takeWhile isSpace).length

def fail {β : Type} (c : Cursor) (problem : Problem) : Except ReadError β :=
  .error (.syntactic problem c.position)

end Cursor

def hexValue? (c : Char) : Option Nat :=
  if c.isDigit then some (c.toNat - 48)
  else if 'a' ≤ c && c ≤ 'f' then some (c.toNat - 87)
  else if 'A' ≤ c && c ≤ 'F' then some (c.toNat - 55)
  else none

def codeUnit? : List Char → Option Nat
  | a :: b :: c :: d :: _ => do
    let a ← hexValue? a
    let b ← hexValue? b
    let c ← hexValue? c
    let d ← hexValue? d
    return ((a * 16 + b) * 16 + c) * 16 + d
  | _ => none

def simpleEscape? : Char → Option Char
  | '"' => some '"'
  | '\\' => some '\\'
  | '/' => some '/'
  | 'b' => some '\x08'
  | 'f' => some '\x0c'
  | 'n' => some '\n'
  | 'r' => some '\r'
  | 't' => some '\t'
  | _ => none

/-- The escape after a backslash and `u`: the character, and how many characters it takes. -/
def codeEscape (c : Cursor) : Except ReadError (Char × Nat) :=
  match codeUnit? c.rest with
  | none => .error (.syntactic .invalidCodeEscape (c.position - 1))
  | some unit =>
    match c.rest.drop 4 with
    | [] => .error (.syntactic .invalidCodeEscape (c.position - 1))
    | '\\' :: 'u' :: low =>
      if Text.isHighSurrogate unit && 4 < low.length then
        match codeUnit? low with
        | none => .error (.syntactic .invalidCodeEscape (c.position + 5))
        | some second =>
          if Text.isLowSurrogate second then .ok (Text.ofPair unit second, 10)
          else .ok (Text.ofCodeUnit unit, 4)
      else .ok (Text.ofCodeUnit unit, 4)
    | _ => .ok (Text.ofCodeUnit unit, 4)

def readString (start : Nat) : Nat → Cursor → List Char → Except ReadError (String × Cursor)
  | 0, _, _ => .error (.syntactic .unterminatedString start)
  | fuel + 1, c, taken =>
    match c.rest with
    | [] => .error (.syntactic .unterminatedString start)
    | '"' :: _ => .ok (String.ofList taken.reverse, c.advance 1)
    | ['\\'] => .error (.syntactic .unterminatedString start)
    | '\\' :: 'u' :: _ => do
      let (char, count) ← codeEscape (c.advance 2)
      readString start fuel (c.advance (count + 2)) (char :: taken)
    | '\\' :: mark :: _ =>
      match simpleEscape? mark with
      | some char => readString start fuel (c.advance 2) (char :: taken)
      | none => c.fail .invalidEscape
    | char :: _ =>
      if char.toNat < 0x20 then c.fail .controlCharacter
      else readString start fuel (c.advance 1) (char :: taken)

/-- The digits of a fraction or of an exponent, with how many characters they take. -/
def fractionLength : List Char → Nat
  | '.' :: rest => match (rest.takeWhile Char.isDigit).length with
    | 0 => 0
    | k => k + 1
  | _ => 0

def exponentLength : List Char → Nat
  | mark :: rest =>
    if mark == 'e' || mark == 'E' then
      let digits := (Decimal.takeSign rest).2
      match (digits.takeWhile Char.isDigit).length with
      | 0 => 0
      | k => k + 1 + (rest.length - digits.length)
    else 0
  | [] => 0

def wholeLength : List Char → Nat
  | '0' :: _ => 1
  | cs => (cs.takeWhile Char.isDigit).length

def takeMinus : List Char → Bool × List Char
  | '-' :: rest => (true, rest)
  | cs => (false, cs)

def readNumber [Limits] (c : Cursor) : Except ReadError (Json × Cursor) :=
  let (negative, body) := takeMinus c.rest
  let sign := c.rest.length - body.length
  let whole := wholeLength body
  let fraction := fractionLength (body.drop whole)
  let exponent := exponentLength (body.drop (whole + fraction))
  if whole == 0 then c.fail .expectedValue
  else
    let after := c.advance (sign + whole + fraction + exponent)
    if fraction + exponent == 0 then do
      let i ← (Decimal.intOfDigits negative (body.take whole)).mapError .fault
      return (.int i, after)
    else
      match Decimal.unsignedFloat? negative (body.take (whole + fraction + exponent)) with
      | some v => .ok (.float v, after)
      | none => c.fail .expectedValue

def descend [Limits] (container : String) (level : Nat) : Except ReadError Unit :=
  if Limits.admitsLevel level then .ok () else .error (.fault (.tooDeep container))

mutual

def readValue [Limits] (level : Nat) : Nat → Cursor → Except ReadError (Json × Cursor)
  | 0, c => c.fail .expectedValue
  | fuel + 1, c =>
    match c.rest with
    | '"' :: rest => do
      let (s, after) ← readString c.position (rest.length + 1) (c.advance 1) []
      return (.str s, after)
    | '\x7b' :: _ => do
      descend "object" level
      let inside := (c.advance 1).skipSpace
      match inside.rest with
      | '\x7d' :: _ => .ok (.obj [], inside.advance 1)
      | _ => readMembers (level + 1) fuel inside []
    | '[' :: _ => do
      descend "array" level
      let inside := (c.advance 1).skipSpace
      match inside.rest with
      | ']' :: _ => .ok (.arr [], inside.advance 1)
      | _ => readItems (level + 1) fuel inside []
    | 'n' :: 'u' :: 'l' :: 'l' :: _ => .ok (.null, c.advance 4)
    | 't' :: 'r' :: 'u' :: 'e' :: _ => .ok (.bool true, c.advance 4)
    | 'f' :: 'a' :: 'l' :: 's' :: 'e' :: _ => .ok (.bool false, c.advance 5)
    | 'N' :: 'a' :: 'N' :: _ => .ok (.float (0.0 / 0.0), c.advance 3)
    | 'I' :: 'n' :: 'f' :: 'i' :: 'n' :: 'i' :: 't' :: 'y' :: _ =>
      .ok (.float (1.0 / 0.0), c.advance 8)
    | '-' :: 'I' :: 'n' :: 'f' :: 'i' :: 'n' :: 'i' :: 't' :: 'y' :: _ =>
      .ok (.float (-(1.0 / 0.0)), c.advance 9)
    | _ => readNumber c

def readItems [Limits] (level : Nat) : Nat → Cursor → List Json → Except ReadError (Json × Cursor)
  | 0, c, _ => c.fail .expectedValue
  | fuel + 1, c, taken => do
    let (item, after) ← readValue level fuel c
    let after := after.skipSpace
    match after.rest with
    | ']' :: _ => .ok (.arr (item :: taken).reverse, after.advance 1)
    | ',' :: _ => readItems level fuel (after.advance 1).skipSpace (item :: taken)
    | _ => after.fail .expectedComma

def readMembers [Limits] (level : Nat) :
    Nat → Cursor → List (String × Json) → Except ReadError (Json × Cursor)
  | 0, c, _ => c.fail .expectedKey
  | fuel + 1, c, taken =>
    match c.rest with
    | '"' :: rest => do
      let (key, afterKey) ← readString c.position (rest.length + 1) (c.advance 1) []
      let afterKey := afterKey.skipSpace
      match afterKey.rest with
      | ':' :: _ =>
        let (value, after) ← readValue level fuel (afterKey.advance 1).skipSpace
        let after := after.skipSpace
        match after.rest with
        | '\x7d' :: _ => .ok (.obj ((key, value) :: taken).reverse, after.advance 1)
        | ',' :: _ => readMembers level fuel (after.advance 1).skipSpace ((key, value) :: taken)
        | _ => after.fail .expectedComma
      | _ => afterKey.fail .expectedColon
    | _ => c.fail .expectedKey

end

/-- The document as it is written, with all members of its objects. -/
def readWritten [Limits] (text : String) : Except ReadError Json :=
  let cs := text.toList
  let start : Cursor := ⟨0, cs⟩
  match cs with
  | '\uFEFF' :: _ => start.fail .byteOrderMark
  | _ => do
    let (value, after) ← readValue 0 (cs.length + 1) start.skipSpace
    let after := after.skipSpace
    if after.rest.isEmpty then .ok value else after.fail .extraData

def read [Limits] (text : String) : Except ReadError Json := (readWritten text).map merged

end RootFinding.Json
