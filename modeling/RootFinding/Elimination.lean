import RootFinding.Vec

namespace RootFinding.Elimination

open Scalar

variable {α : Type} [Scalar α]

def pivotRow {n k : Nat} (rows : Vector (Vec α (k + 1)) (n + 1)) : Fin (n + 1) :=
  let size (i : Fin (n + 1)) : α := magnitude rows[i][0]
  Fin.foldl (n + 1) (fun best i => if size best < size i then i else best) 0

/-- Subtracts the multiple of the pivot row that clears the leading entry, and drops that entry. -/
def reduceRow {k : Nat} (pivot row : Vec α (k + 1)) : Vec α k :=
  let factor := row[0] / pivot[0]
  Vector.zipWith (fun a p => a - factor * p) row.tail pivot.tail

def reduceEntry {k : Nat} (pivot row : Vec α (k + 1)) (pivotEntry entry : α) : α :=
  entry - row[0] / pivot[0] * pivotEntry

/-- The solution of a square system, or nothing when a pivot is zero. -/
def solve : {n : Nat} → Mat α n n → Vec α n → Option (Vec α n)
  | 0, _, _ => some #v[]
  | n + 1, a, b =>
    let p := pivotRow a
    let rows := a.swap 0 p
    let rhs := b.swap 0 p
    let pivot := rows[0]
    if pivot[0] == 0 then none
    else
      let below := rows.tail.map (reduceRow pivot)
      let rest := Vector.zipWith (reduceEntry pivot · rhs[0] ·) rows.tail rhs.tail
      (solve below rest).map fun tail =>
        let first := (rhs[0] - Vec.dot pivot.tail tail) / pivot[0]
        (⟨#[first] ++ tail.toArray, by simp [Nat.add_comm]⟩ : Vec α (n + 1))

end RootFinding.Elimination
