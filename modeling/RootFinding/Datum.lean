import RootFinding.Json.Conversion

namespace RootFinding

/-- Plain values, and numbers and arrays of machine types. -/
inductive Datum (α : Type) where
  | null
  | bool (b : Bool)
  | int (i : Int)
  | float (a : α)
  | text (s : String)
  | list (items : List (Datum α))
  | tuple (items : List (Datum α))
  | dict (members : List (String × Datum α))
  | machineBool (b : Bool)
  | machineInt (i : Int)
  | machineFloat (a : α)
  | singleFloat (a : α)
  | array (entries : Nested α)
  | intArray (entries : Nested Int)

namespace Datum

mutual

def ofJson : Json → Datum Float
  | .null => null
  | .bool b => bool b
  | .int i => int i
  | .float v => float v
  | .str s => text s
  | .arr items => list (ofJsonItems items)
  | .obj members => dict (ofJsonMembers members)

def ofJsonItems : List Json → List (Datum Float)
  | [] => []
  | item :: items => ofJson item :: ofJsonItems items

def ofJsonMember : String × Json → String × Datum Float
  | (key, value) => (key, ofJson value)

def ofJsonMembers : List (String × Json) → List (String × Datum Float)
  | [] => []
  | member :: members => ofJsonMember member :: ofJsonMembers members

end

def separated : List (List Char) → List Char
  | [] => []
  | [item] => item
  | item :: items => item ++ ',' :: ' ' :: separated items

mutual

def nestedText {β : Type} (leafText : β → List Char) : Nested β → List Char
  | .leaf a => leafText a
  | .list items => '[' :: separated (nestedTexts leafText items) ++ [']']

def nestedTexts {β : Type} (leafText : β → List Char) : List (Nested β) → List (List Char)
  | [] => []
  | item :: items => nestedText leafText item :: nestedTexts leafText items

end

def boolText (b : Bool) : String := if b then "True" else "False"

mutual

def display : Datum Float → List Char
  | null => "None".toList
  | bool b | machineBool b => (boolText b).toList
  | int i | machineInt i => (toString i).toList
  | float v | machineFloat v | singleFloat v => (Decimal.shortestText v).toList
  | text s => (Text.quoted s).toList
  | list items => '[' :: separated (displayItems items) ++ [']']
  | tuple [item] => '(' :: display item ++ [',', ')']
  | tuple items => '(' :: separated (displayItems items) ++ [')']
  | dict members => '\x7b' :: separated (displayMembers members) ++ ['\x7d']
  | array entries => nestedText (fun v => (Decimal.shortestText v).toList) entries
  | intArray entries => nestedText (fun i => (toString i).toList) entries

def displayItems : List (Datum Float) → List (List Char)
  | [] => []
  | item :: items => display item :: displayItems items

def displayMember : String × Datum Float → List Char
  | (key, value) => (Text.quoted key).toList ++ ':' :: ' ' :: display value

def displayMembers : List (String × Datum Float) → List (List Char)
  | [] => []
  | member :: members => displayMember member :: displayMembers members

end

def plainText : Datum Float → String
  | text s => s
  | other => String.ofList other.display

mutual

def nestedJson {β : Type} (leafJson : β → Json) : Nested β → Json
  | .leaf a => leafJson a
  | .list items => .arr (nestedJsonItems leafJson items)

def nestedJsonItems {β : Type} (leafJson : β → Json) : List (Nested β) → List Json
  | [] => []
  | item :: items => nestedJson leafJson item :: nestedJsonItems leafJson items

end

/-- What is stored: numbers of machine types become plain, arrays become lists, and every other
container is stored as the text that shows it. -/
def stored : Datum Float → Json
  | null => .null
  | bool b | machineBool b => .bool b
  | int i | machineInt i => .int i
  | float v | machineFloat v | singleFloat v => .float v
  | text s => .str s
  | array entries => nestedJson .float entries
  | intArray entries => nestedJson .int entries
  | other => .str (String.ofList other.display)

def scalar? : Datum Float → Option (Except Fault Float)
  | bool b => some (.ok (if b then 1.0 else 0.0))
  | int i => some (Decimal.floatOfInt i)
  | float v | machineFloat v | singleFloat v => some (.ok v)
  | _ => none

end Datum

abbrev Extras (α : Type) := List (String × Datum α)

end RootFinding
