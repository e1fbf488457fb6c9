import RootFinding.Fault
import RootFinding.Vec

namespace RootFinding

inductive Nested (α : Type) where
  | leaf (a : α)
  | list (items : List (Nested α))
  deriving Inhabited

/-- A rectangular array with the given extents, outermost first. -/
abbrev Block (α : Type) : List Nat → Type
  | [] => α
  | n :: extents => Vector (Block α extents) n

def commonStart : List Nat → List Nat → List Nat
  | a :: as, b :: bs => if a = b then a :: commonStart as bs else []
  | _, _ => []

def dropOnes : Nat → List Nat → List Nat
  | count + 1, 1 :: extents => dropOnes count extents
  | _, extents => extents

/-- The extents that the parts of a nesting share, and whether it is rectangular. -/
structure Extents where
  shared : List Nat
  even : Bool

def Extents.ofItems : List Extents → Extents
  | [] => ⟨[0], true⟩
  | first :: rest =>
    let shared := rest.foldl (fun acc e => commonStart acc e.shared) first.shared
    ⟨(rest.length + 1) :: shared, (first :: rest).all fun e => e.even && e.shared == shared⟩

def vecOfList? {α : Type} (n : Nat) (items : List α) : Option (Vector α n) :=
  if h : items.length = n then some ⟨items.toArray, by simp [h]⟩ else none

namespace Nested

variable {α β ε : Type}

mutual

def extents : Nested α → Extents
  | leaf _ => ⟨[], true⟩
  | list items => Extents.ofItems (itemExtents items)

def itemExtents : List (Nested α) → List Extents
  | [] => []
  | item :: items => item.extents :: itemExtents items

end

mutual

def traverse (f : α → Except ε β) : Nested α → Except ε (Nested β)
  | leaf a => (f a).map leaf
  | list items => (traverseItems f items).map list

def traverseItems (f : α → Except ε β) : List (Nested α) → Except ε (List (Nested β))
  | [] => .ok []
  | item :: items => do
    let first ← item.traverse f
    let rest ← traverseItems f items
    return first :: rest

end

mutual

def leaves : Nested α → List α
  | leaf a => [a]
  | list items => itemLeaves items

def itemLeaves : List (Nested α) → List α
  | [] => []
  | item :: items => item.leaves ++ itemLeaves items

end

def toBlock? : (extents : List Nat) → Nested α → Option (Block α extents)
  | [], leaf a => some a
  | n :: extents, list items => (items.mapM (toBlock? extents)).bind (vecOfList? n)
  | _, _ => none

/-- The block with these extents, its rows repeated where the nesting has a single one or lacks a
dimension; `rank` is the depth of the nesting. -/
def spread? : (extents : List Nat) → (rank : Nat) → Nested α → Option (Block α extents)
  | [], _, leaf a => some a
  | [], _, list _ => none
  | n :: extents, rank, v =>
    if rank ≤ extents.length then (spread? extents rank v).map (Vector.replicate n)
    else match v with
      | leaf _ => none
      | list items =>
        if items.length = n then (items.mapM (spread? extents (rank - 1))).bind (vecOfList? n)
        else match items with
          | [item] => (spread? extents (rank - 1) item).map (Vector.replicate n)
          | _ => none

def pair : Nested α → Except Fault (Nested α × Nested α)
  | list [v, w] => .ok (v, w)
  | list items => .error (.notTwo items.length)
  | leaf _ => .error .notUnpackable

def unwrap : Nat → Nested α → Nested α
  | count + 1, list [item] => unwrap count item
  | _, v => v

def ofBlock : (extents : List Nat) → Block α extents → Nested α
  | [], a => leaf a
  | _ :: extents, rows => list (rows.toList.map (ofBlock extents))

def row (entries : List α) : Nested α := list (entries.map leaf)

def rows (entries : List (List α)) : Nested α := list (entries.map row)

def ofVec {n : Nat} (v : Vec α n) : Nested α := ofBlock [n] v

def ofMat {m n : Nat} (a : Mat α m n) : Nested α := ofBlock [m, n] a

/-- Whether a value fills a target: it has no more extents, and from the innermost out each is equal
or one. -/
def fills (value target : List Nat) : Bool :=
  value.length ≤ target.length &&
    (value.zip (target.drop (target.length - value.length))).all fun (a, b) => a == b || a == 1

def rectangular (v : Nested α) : Except Fault (List Nat) :=
  let e := v.extents
  if e.even then .ok e.shared else .error (.ragged e.shared)

/-- Fills a block from a value of matching extents, repeating it where it has fewer. Where it has
more, leading extents of one do not count. -/
def fill (target : List Nat) (v : Nested α) : Except Fault (Block α target) := do
  let value ← v.rectangular
  let inner := dropOnes (value.length - target.length) value
  if fills inner target then
    match spread? target inner.length (unwrap (value.length - inner.length) v) with
    | some block => .ok block
    | none => .error (.cannotFill inner target)
  else .error (.cannotFill inner target)

end Nested

end RootFinding
