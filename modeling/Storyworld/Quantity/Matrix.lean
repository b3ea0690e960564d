import Storyworld.Quantity.Arithmetic

namespace Storyworld.Quantity

-- A plain vector is its own transpose.
def transpose : Quantity → Result Quantity
  | matrix items => match rows? items with
    | none => .ok (matrix items)
    | some rows => do
      let columns ← (columns rows).mapM id
      return matrix (columns.map matrix)
  | _ => kindFault .transposeOfNoMatrix

mutual

-- How many items there are on each level, counted along the first ones.
def dimensions : Quantity → List Nat
  | matrix items => items.length :: dimensionsOfFirst items
  | _ => []

def dimensionsOfFirst : List Quantity → List Nat
  | [] => []
  | x :: _ => dimensions x

end

def size (x : Quantity) : Quantity :=
  matrix ((dimensions x).map fun (n : Nat) => number (Binary.ofInt n))

-- What is no number comes last.
def magnitudeKey (x : Float) : Int :=
  if x.isNaN then 2 * signedBound else Binary.orderKey x.abs

-- The last of the rows with the largest first cell.
def pivotIndex (heads : List Float) : Nat :=
  let best := heads.zipIdx.foldl (fun (best? : Option (Float × Nat)) next => match best? with
    | none => some next
    | some best => if magnitudeKey next.1 < magnitudeKey best.1 then some best else some next) none
  best.elim 0 (·.2)

-- `row` without its first cell, less so much of the pivot row that this cell would vanish.
def eliminate (pivot row : List Float) : List Float :=
  match pivot, row with
  | p :: pivot, x :: row =>
    let factor := x / p
    List.zipWith (fun a b => a - factor * b) row pivot
  | _, _ => []

-- The product of the pivots, the first one of the rows that remain times `det`.
def eliminateFrom : (size : Nat) → (det : Float) → (rows : List (List Float)) → Float
  | 0, det, _ => det
  | size + 1, det, rows =>
    let k := pivotIndex (rows.map (·.headD 0))
    let pivot := rows.getD k []
    let p := pivot.headD 0
    if p == 0 then 0
    else
      -- The first row takes the place of the pivot row.
      let others := match k with
        | 0 => rows.tail
        | k + 1 => rows.tail.set k (rows.headD [])
      let det := if k = 0 then det else -det
      eliminateFrom size (det * p) (others.map (eliminate pivot))

def squareRow (size : Nat) (row : List Quantity) : Result (List Float) :=
  if row.length = size then row.mapM real else domainFault .notSquare

def determinant : Quantity → Result Float
  | matrix items => match rows? items with
    | none => domainFault .notSquare
    | some rows => do
      let n := rows.length
      return eliminateFrom n 1 (← rows.mapM (squareRow n))
  | _ => kindFault .determinantOfNoMatrix

end Storyworld.Quantity
