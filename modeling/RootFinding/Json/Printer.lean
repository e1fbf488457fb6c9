import RootFinding.Json.Basic
import RootFinding.Decimal.Text
import RootFinding.Text.Quoted

namespace RootFinding.Json

open Text

def unicodeEscape (unit : Nat) : List Char := '\\' :: 'u' :: hexText 4 unit

/-- A character inside a string; beyond the basic plane it is a pair of surrogates, or the one that
it stands for. -/
def escapeChar (c : Char) : List Char :=
  if c == '"' then ['\\', '"']
  else if c == '\\' then ['\\', '\\']
  else if c == '\n' then ['\\', 'n']
  else if c == '\r' then ['\\', 'r']
  else if c == '\t' then ['\\', 't']
  else if c == '\x08' then ['\\', 'b']
  else if c == '\x0c' then ['\\', 'f']
  else if 0x20 ≤ c.toNat && c.toNat ≤ 0x7E then [c]
  else if c.toNat < 0x10000 then unicodeEscape c.toNat
  else
    match surrogate? c with
    | some unit => unicodeEscape unit
    | none =>
      let k := c.toNat - 0x10000
      unicodeEscape (0xD800 + k / 0x400) ++ unicodeEscape (0xDC00 + k % 0x400)

def stringText (s : String) : List Char := '"' :: s.toList.flatMap escapeChar ++ ['"']

def floatText (v : Float) : List Char :=
  if v.isNaN then "NaN".toList
  else if v.isInf then (if v < 0.0 then "-Infinity" else "Infinity").toList
  else (Decimal.shortestText v).toList

def intText (i : Int) : List Char :=
  if i < 0 then '-' :: Nat.toDigits 10 i.natAbs else Nat.toDigits 10 i.natAbs

structure Layout where
  line : Nat → List Char
  afterComma : List Char
  afterColon : List Char

def indented : Layout := ⟨fun level => '\n' :: List.replicate (2 * level) ' ', [], [' ']⟩

def oneLine : Layout := ⟨fun _ => [], [' '], [' ']⟩

mutual

def write (layout : Layout) (level : Nat) : Json → List Char
  | null => "null".toList
  | bool b => (if b then "true" else "false").toList
  | int i => intText i
  | float v => floatText v
  | str s => stringText s
  | arr [] => ['[', ']']
  | arr (item :: items) =>
    '[' :: layout.line (level + 1) ++ write layout (level + 1) item ++
      writeItems layout (level + 1) items ++ layout.line level ++ [']']
  | obj [] => ['\x7b', '\x7d']
  | obj (member :: members) =>
    '\x7b' :: layout.line (level + 1) ++ writeMember layout (level + 1) member ++
      writeMembers layout (level + 1) members ++ layout.line level ++ ['\x7d']

def writeItems (layout : Layout) (level : Nat) : List Json → List Char
  | [] => []
  | item :: items =>
    ',' :: layout.afterComma ++ layout.line level ++ write layout level item ++
      writeItems layout level items

def writeMember (layout : Layout) (level : Nat) : String × Json → List Char
  | (key, value) => stringText key ++ ':' :: layout.afterColon ++ write layout level value

def writeMembers (layout : Layout) (level : Nat) : List (String × Json) → List Char
  | [] => []
  | member :: members =>
    ',' :: layout.afterComma ++ layout.line level ++ writeMember layout level member ++
      writeMembers layout level members

end

def render (j : Json) : String := String.ofList (write indented 0 j)

def renderLine (j : Json) : String := String.ofList (write oneLine 0 j)

end RootFinding.Json
