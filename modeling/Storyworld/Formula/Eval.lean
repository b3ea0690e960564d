import Storyworld.Dice
import Storyworld.Quantity.Function

/-!
The value of a formula. Numbers are drawn from the dice in the order in which the calls for them
stand, also where the evaluation fails later on.
-/

namespace Storyworld.Formula

abbrev Eval (α : Type) := ExceptT FormulaError (StateM Dice) α

def settled {α : Type} (result : Except FormulaError α) : Eval α :=
  ExceptT.mk (pure result)

-- A number from 0 to 1, or up to the bound, or between the bounds.
def random (args : List Quantity) : Eval Quantity := do
  let unit ← modifyGet Dice.draw
  match args with
  | [] => return .number unit
  | [high] => return .number (unit * (← settled high.real))
  | [low, high] =>
    let low ← settled low.real
    let high ← settled high.real
    return .number (low + unit * (high - low))
  | _ => throw (.arity "random")

mutual

def eval : Formula → Eval Quantity
  | number x => return .number x
  | text s => return .text s
  | symbol name => match Quantity.constant? name with
    | some x => return x
    | none => throw (.unknownSymbol name)
  | neg e => do settled (← eval e).negate
  | binary op a b => do
    let x ← eval a
    let y ← eval b
    settled (Quantity.binary op x y)
  | factorial e => do settled (Quantity.factorial (← eval e))
  | call name args => do
    let args ← evalAll args
    if name = "random" then random args else settled (Quantity.callFunction name args)
  | matrix items => return .matrix (← evalAll items)

def evalAll : List Formula → Eval (List Quantity)
  | [] => return []
  | e :: es => do
    let x ← eval e
    return x :: (← evalAll es)

end

def evaluate (text : String) : Eval Quantity := do
  eval (← settled (parse text))

end Storyworld.Formula
