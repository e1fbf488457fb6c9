namespace RootFinding

structure Path where
  absolute : Bool
  parts : List String
  deriving DecidableEq, Repr

namespace Path

def components : List Char → List (List Char)
  | [] => [[]]
  | c :: cs =>
    if c = '/' then [] :: components cs
    else
      match components cs with
      | [] => [[c]]
      | part :: parts => (c :: part) :: parts

def ofText (s : String) : Path :=
  ⟨s.toList.head? = some '/',
    ((components s.toList).map String.ofList).filter fun part => part ≠ "" && part ≠ "."⟩

def text (p : Path) : String :=
  let joined := "/".intercalate p.parts
  if p.absolute then "/" ++ joined else if p.parts.isEmpty then "." else joined

def child (p : Path) (name : String) : Path := { p with parts := p.parts ++ [name] }

def name (p : Path) : String := p.parts.getLast?.getD ""

def lineage (p : Path) : List Path :=
  (List.range p.parts.length).map fun k => { p with parts := p.parts.take (k + 1) }

def below? (p q : Path) : Option String :=
  if p.absolute = q.absolute && p.parts.isPrefixOf q.parts then q.parts[p.parts.length]? else none

end Path

end RootFinding
