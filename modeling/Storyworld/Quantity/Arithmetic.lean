import Storyworld.Quantity.Basic

/-!
The operators on quantities. Sums of matrices go cell by cell, their product is that of linear
algebra, and between a matrix and a scalar an operator acts on every cell.
-/

namespace Storyworld.Quantity

-- The remainder has the sign of the divisor. A broken power of a negative number is complex.
def realOp (op : Op) (a b : Float) : Quantity :=
  match op with
  | .add => number (a + b)
  | .sub => number (a - b)
  | .mul => number (a * b)
  | .div => number (a / b)
  | .mod => number (if b == 0 then a else a - b * (a / b).floor)
  | .pow =>
    if a < 0 && !Binary.isWhole b then complex ((Complex.ofReal a).pow (.ofReal b))
    else number (a.pow b)

def complexOp (op : Op) (a b : Complex) : Result Quantity :=
  match op with
  | .add => .ok (complex (a.add b))
  | .sub => .ok (complex (a.sub b))
  | .mul => .ok (complex (a.mul b))
  | .div => .ok (complex (a.div b))
  | .pow => .ok (complex (a.pow b))
  | .mod => kindFault .complexModulo

def cellOp (op : Op) (a b : Quantity) : Result Quantity :=
  match a, b with
  | number x, number y => .ok (realOp op x y)
  | a, b => match a.toComplex?, b.toComplex? with
    | some a, some b => complexOp op a b
    | _, _ => kindFault (.textOperand op)

mutual

def sum (op : Op) (a b : Quantity) : Result Quantity :=
  match a with
  | matrix xs => match b with
    | matrix ys =>
      if xs.length = ys.length then matrix <$> sumItems op xs ys
      else domainFault .differentDimensions
    | text _ => kindFault (.textOperand op)
    | scalar => mapCells (cellOp op · scalar) (matrix xs)
  | text _ => kindFault (.textOperand op)
  | number x => mapCells (cellOp op (number x)) b
  | complex z => mapCells (cellOp op (complex z)) b

def sumItems (op : Op) : (xs ys : List Quantity) → Result (List Quantity)
  | x :: xs, y :: ys => do return (← sum op x y) :: (← sumItems op xs ys)
  | _, _ => .ok []

end

def cells? : Quantity → Option (List Quantity)
  | matrix cells => some cells
  | _ => none

-- The rows of a matrix that has some and nothing else; a plain vector has none.
def rows? (items : List Quantity) : Option (List (List Quantity)) :=
  if items.isEmpty then none else items.mapM cells?

def width (rows : List (List Quantity)) : Nat :=
  rows.head?.elim 0 List.length

def column (rows : List (List Quantity)) (j : Nat) : Result (List Quantity) :=
  rows.mapM fun row => match row[j]? with
    | some cell => .ok cell
    | none => domainFault .raggedMatrix

def columns (rows : List (List Quantity)) : List (Result (List Quantity)) :=
  (List.range (width rows)).map (column rows)

-- A row, given by its scalar products, times a vector or times every column of a matrix.
def rowTimes (dot : List Quantity → Result Quantity) (right : List Quantity) : Result Quantity :=
  match rows? right with
  | none => dot right
  | some rows => matrix <$> (columns rows).mapM fun column => do dot (← column)

mutual

def product : (a b : Quantity) → Result Quantity
  | matrix xs, b => match b with
    | matrix ys =>
      if (rows? xs).isSome then matrix <$> rowProducts xs ys else rowTimes (dot xs) ys
    | text _ => kindFault (.textOperand .mul)
    | scalar => mapCells (cellOp .mul · scalar) (matrix xs)
  | text _, _ => kindFault (.textOperand .mul)
  | number x, b => mapCells (cellOp .mul (number x)) b
  | complex z, b => mapCells (cellOp .mul (complex z)) b

-- Summed from the left.
def dot (xs : List Quantity) : (ys : List Quantity) → Result Quantity := fun ys =>
  if xs.length = ys.length then dotFrom xs (number 0) ys else domainFault .differentDimensions

def dotFrom : (xs : List Quantity) → (acc : Quantity) → (ys : List Quantity) → Result Quantity
  | x :: xs, acc, y :: ys => do dotFrom xs (← sum .add acc (← product x y)) ys
  | _, acc, _ => .ok acc

def rowProducts : (rows right : List Quantity) → Result (List Quantity)
  | [], _ => .ok []
  | row :: rows, right => do return (← rowProduct row right) :: (← rowProducts rows right)

def rowProduct : (row : Quantity) → (right : List Quantity) → Result Quantity
  | matrix xs, right => rowTimes (dot xs) right
  | _, _ => domainFault .differentDimensions

end

-- The operators that take a matrix on their left only.
def scale (op : Op) (a b : Quantity) : Result Quantity :=
  if a.isText || b.isText then kindFault (.textOperand op)
  else if b.isMatrix then
    kindFault (if a.isMatrix then .betweenMatrices op else .matrixOnRight op)
  else mapCells (cellOp op · b) a

def binary (op : Op) (a b : Quantity) : Result Quantity :=
  match op with
  | .add | .sub => sum op a b
  | .mul => product a b
  | .div | .mod | .pow => scale op a b

def negate : Quantity → Result Quantity
  | number x => .ok (number (-x))
  | complex z => .ok (complex z.neg)
  | matrix items => product (number (-1)) (matrix items)
  | text _ => kindFault .negatedText

end Storyworld.Quantity
