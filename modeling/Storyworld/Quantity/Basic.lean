import Storyworld.Formula.Error
import Storyworld.Quantity.Complex

namespace Storyworld

inductive Quantity where
  | number (x : Float)
  | complex (z : Complex)
  -- A list of cells, or of rows.
  | matrix (items : List Quantity)
  | text (s : String)

namespace Quantity

instance : Inhabited Quantity := ⟨number 0⟩

abbrev Result (α : Type) := Except FormulaError α

def kindFault {α : Type} (fault : KindFault) : Result α :=
  .error (.kind fault)

def domainFault {α : Type} (fault : DomainFault) : Result α :=
  .error (.domain fault)

def kind : Quantity → String
  | number _ => "number"
  | complex _ => "complex"
  | matrix _ => "matrix"
  | text _ => "text"

mutual

def display : Quantity → String
  | number x => Decimal.showSettled x
  | complex z => z.display
  | matrix items => "[" ++ ", ".intercalate (displayAll items) ++ "]"
  | text s => s

def displayAll : List Quantity → List String
  | [] => []
  | x :: xs => display x :: displayAll xs

end

def real : Quantity → Result Float
  | number x => .ok x
  | _ => kindFault .notReal

def toComplex? : Quantity → Option Complex
  | number x => some (.ofReal x)
  | complex z => some z
  | _ => none

def isMatrix : Quantity → Bool
  | matrix _ => true
  | _ => false

def isText : Quantity → Bool
  | text _ => true
  | _ => false

mutual

-- `f` in the place of every cell, at any depth of nesting.
def mapCells (f : Quantity → Result Quantity) : Quantity → Result Quantity
  | matrix items => matrix <$> mapAllCells f items
  | number x => f (number x)
  | complex z => f (complex z)
  | text s => f (text s)

def mapAllCells (f : Quantity → Result Quantity) : List Quantity → Result (List Quantity)
  | [] => .ok []
  | x :: xs => do return (← mapCells f x) :: (← mapAllCells f xs)

end

def mapReal (f : Float → Float) : Quantity → Result Quantity :=
  mapCells fun
    | number x => .ok (number (f x))
    | complex _ => kindFault .complexArgument
    | _ => kindFault .notMapped

mutual

def numbers : Quantity → Result (List Float)
  | number x => .ok [x]
  | matrix items => numbersOfAll items
  | complex _ | text _ => kindFault .notReals

def numbersOfAll : List Quantity → Result (List Float)
  | [] => .ok []
  | x :: xs => do return (← numbers x) ++ (← numbersOfAll xs)

end

end Quantity

end Storyworld
