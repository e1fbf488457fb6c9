namespace RootFinding

inductive Json where
  | null
  | bool (b : Bool)
  | int (i : Int)
  | float (v : Float)
  | str (s : String)
  | arr (items : List Json)
  | obj (members : List (String × Json))
  deriving Inhabited

namespace Json

/-- Replaces the value of a present key where it stands; a new key goes to the end. -/
def insertMember (members : List (String × Json)) (key : String) (value : Json) :
    List (String × Json) :=
  if members.any (·.1 == key) then members.map fun m => if m.1 == key then (key, value) else m
  else members ++ [(key, value)]

def collected (members : List (String × Json)) : List (String × Json) :=
  members.foldl (fun taken m => insertMember taken m.1 m.2) []

mutual

/-- The document with one member for each key of an object: the last one counts. -/
def merged : Json → Json
  | null => null
  | bool b => bool b
  | int i => int i
  | float v => float v
  | str s => str s
  | arr items => arr (mergedItems items)
  | obj members => obj (collected (mergedMembers members))

def mergedItems : List Json → List Json
  | [] => []
  | item :: items => merged item :: mergedItems items

def mergedMember : String × Json → String × Json
  | (key, value) => (key, merged value)

def mergedMembers : List (String × Json) → List (String × Json)
  | [] => []
  | member :: members => mergedMember member :: mergedMembers members

end

def lookup (members : List (String × Json)) (key : String) : Option Json :=
  (members.find? (·.1 == key)).map (·.2)

def members? : Json → Option (List (String × Json))
  | obj members => some members
  | _ => none

def items? : Json → Option (List Json)
  | arr items => some items
  | _ => none

def get? (j : Json) (key : String) : Option Json := j.members?.bind (lookup · key)

end Json

end RootFinding
