import Storyworld.Formula.Error
import Storyworld.Formula.Simplify

namespace Storyworld.Formula

def square (e : Formula) : Formula :=
  binary .pow e (number 2)

def reciprocal (e : Formula) : Formula :=
  binary .div (number 1) e

-- `√(1 - e²)`
def rootOfCosquare (e : Formula) : Formula :=
  apply "sqrt" (binary .sub (number 1) (square e))

-- The inner derivative is left out.
def outerDerivative? (function : String) (e : Formula) : Option Formula :=
  if function = "sin" then some (apply "cos" e)
  else if function = "cos" then some (neg (apply "sin" e))
  else if function = "tan" then some (reciprocal (square (apply "cos" e)))
  else if function = "exp" then some (apply "exp" e)
  else if function = "log" then some (reciprocal e)
  else if function = "sqrt" then some (reciprocal (binary .mul (number 2) (apply "sqrt" e)))
  else if function = "sinh" then some (apply "cosh" e)
  else if function = "cosh" then some (apply "sinh" e)
  else if function = "asin" then some (reciprocal (rootOfCosquare e))
  else if function = "acos" then some (neg (reciprocal (rootOfCosquare e)))
  else if function = "atan" then some (reciprocal (binary .add (number 1) (square e)))
  else none

def constantDerivative : Formula → Except FormulaError Formula
  | text s => .error (.domain (.notDifferentiable (text s)))
  | matrix items => .error (.domain (.notDifferentiable (matrix items)))
  | _ => .ok (number 0)

-- Where both derivatives are at fault, the one that the rule names first counts.
def binaryDerivative (var : String) (op : Op) (a b : Formula) (da db : Except FormulaError Formula) :
    Except FormulaError Formula :=
  match op with
  | .add | .sub => do return binary op (← da) (← db)
  | .mul => do return binary .add (binary .mul (← da) b) (binary .mul a (← db))
  | .div => do
    return binary .div (binary .sub (binary .mul (← da) b) (binary .mul a (← db))) (square b)
  | .pow =>
    if !b.mentions var then do
      let scale := binary .mul b (binary .pow a (binary .sub b (number 1)))
      return binary .mul scale (← da)
    else if !a.mentions var then do
      return binary .mul (binary .mul (binary .pow a b) (apply "log" a)) (← db)
    else do
      let left := binary .mul (← db) (apply "log" a)
      let right := binary .div (binary .mul b (← da)) a
      return binary .mul (binary .pow a b) (binary .add left right)
  | .mod => .error (.domain (.notDifferentiable (binary .mod a b)))

def callDerivative (name : String) (args : List Formula) (ds : List (Except FormulaError Formula)) :
    Except FormulaError Formula :=
  match args, ds with
  | [a], [da] => do
    let inner ← da
    match outerDerivative? name a with
    | some outer => return binary .mul outer inner
    | none => throw (.domain (.notDifferentiable (call name args)))
  | _, _ => .error (.domain (.notDifferentiable (call name args)))

mutual

def differentiate (var : String) (e : Formula) : Except FormulaError Formula :=
  if e.mentions var then
    match e with
    | symbol _ => .ok (number 1)
    | neg a => neg <$> differentiate var a
    | binary op a b => binaryDerivative var op a b (differentiate var a) (differentiate var b)
    | call name args => callDerivative name args (differentiateAll var args)
    | e => .error (.domain (.notDifferentiable e))
  else constantDerivative e

def differentiateAll (var : String) : List Formula → List (Except FormulaError Formula)
  | [] => []
  | e :: es => differentiate var e :: differentiateAll var es

end

def derivative (var : String) (e : Formula) : Except FormulaError Formula :=
  simplify <$> differentiate var e

end Storyworld.Formula
