import Storyworld.Formula.Basic

/-!
Formulas without needless parts: constants are folded and neutral operands dropped, from the leaves
up.
-/

namespace Storyworld.Formula

-- Both zeros count as zero.
def is (v : Float) : Formula → Bool
  | number x => x == v
  | _ => false

def fold? (op : Op) (x y : Float) : Option Float :=
  let z? := match op with
    | .add => some (x + y)
    | .sub => some (x - y)
    | .mul => some (x * y)
    | .div => some (x / y)
    | .pow => some (x.pow y)
    | .mod => none
  z?.filter Float.isFinite

-- Constants gather on the left of a product: `2 * (3 * x)` is `6 * x`.
def gather (a b : Formula) : Formula :=
  match a, b with
  | number x, binary .mul (number y) e => binary .mul (number (x * y)) e
  | a, number y => binary .mul (number y) a
  | a, b => binary .mul a b

-- `opposite` is the simplest form of `-e`.
def reduce (opposite : Formula → Formula) (op : Op) (a b : Formula) : Formula :=
  match op with
  | .add => if a.is 0 then b else if b.is 0 then a else binary .add a b
  | .sub => if b.is 0 then a else if a.is 0 then opposite b else binary .sub a b
  | .mul =>
    if a.is 0 || b.is 0 then number 0
    else if a.is 1 then b
    else if b.is 1 then a
    else if b.is (-1) then opposite a
    else gather a b
  | .div => if b.is 1 then a else if a.is 0 then number 0 else binary .div a b
  | .pow => if b.is 1 then a else if b.is 0 then number 1 else binary .pow a b
  | .mod => binary .mod a b

def constants? : Formula → Formula → Option (Float × Float)
  | number x, number y => some (x, y)
  | _, _ => none

def combine (opposite : Formula → Formula) (op : Op) (a b : Formula) : Formula :=
  match (constants? a b).bind fun (x, y) => fold? op x y with
  | some z => number z
  | none => reduce opposite op a b

def negated : Formula → Formula
  | number x => number (-x)
  | neg e => e
  | e => neg e

-- `room` bounds how deep the work nests. The size is enough: what a rule simplifies once more is smaller
-- than what the rule was applied to.
def simplifyWithin : (room : Nat) → Formula → Formula
  | 0, e => e
  | room + 1, e => match e with
    | neg e => negated (simplifyWithin room e)
    | binary op a b =>
      combine (fun e => simplifyWithin room (neg e)) op
        (simplifyWithin room a) (simplifyWithin room b)
    | call name args => call name (args.map (simplifyWithin room))
    | factorial e => factorial (simplifyWithin room e)
    | matrix items => matrix (items.map (simplifyWithin room))
    | e => e

def simplify (e : Formula) : Formula :=
  simplifyWithin e.size e

end Storyworld.Formula
