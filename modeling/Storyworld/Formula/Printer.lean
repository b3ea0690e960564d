import Storyworld.Decimal.Significant
import Storyworld.Formula.Basic
import Storyworld.Json.Printer
import Storyworld.Text.Quoted

/-!
Formulas written out. `write` uses the fewest parentheses that keep the meaning; `outline` shows the
structure itself.
-/

namespace Storyworld

def Op.precedence : Op → Nat
  | add | sub => 1
  | mul | div | mod => 2
  | pow => 4

namespace Formula

def isNegative : Formula → Bool
  | number x => x < 0
  | _ => false

def precedence : Formula → Nat
  | binary op _ _ => op.precedence
  | neg _ => 3
  | factorial _ => 5
  | e => if e.isNegative then 3 else 6

def rootOp? : Formula → Option Op
  | binary op _ _ => some op
  | _ => none

-- `a + (b - c)` and `a * (b / c)` mean the same without the parentheses.
def regroups (op : Op) (rhs : Formula) : Bool :=
  match op, rhs.rootOp? with
  | .add, some .add | .add, some .sub | .mul, some .mul | .mul, some .div => true
  | _, _ => false

-- Powers group to the right, everything else to the left.
def wrapsLeft (op : Op) (lhs : Formula) : Bool :=
  if op = .pow then lhs.precedence ≤ op.precedence else lhs.precedence < op.precedence

def wrapsRight (op : Op) (rhs : Formula) : Bool :=
  if op = .pow then rhs.precedence < op.precedence
  else rhs.precedence ≤ op.precedence && !regroups op rhs

def operand (wrapped : Bool) (text : List Char) : List Char :=
  if wrapped then '(' :: (text ++ [')']) else text

mutual

def write : Formula → List Char
  | number x => (Decimal.showSettled x).toList
  | text s => (Text.quote s).toList
  | symbol name => name.toList
  | neg e => '-' :: operand (e.precedence < 3) (write e)
  | binary op a b =>
    operand (wrapsLeft op a) (write a) ++ ' ' :: op.symbol :: ' ' ::
      operand (wrapsRight op b) (write b)
  | factorial e => operand (e.precedence < 6) (write e) ++ ['!']
  | call name args => name.toList ++ '(' :: (writeAll args ++ [')'])
  | matrix items => '[' :: (writeAll items ++ [']'])

def writeAll : List Formula → List Char
  | [] => []
  | e :: es => write e ++ writeMore es

def writeMore : List Formula → List Char
  | [] => []
  | e :: es => ',' :: ' ' :: (write e ++ writeMore es)

end

def display (e : Formula) : String :=
  .ofList e.write

mutual

-- The operator first, every node but a leaf in parentheses.
def outline : Formula → List Char
  | number x => (Decimal.Layout.plain.write x).toList
  | text s => Json.writeString s
  | symbol name => name.toList
  | neg e => "(neg ".toList ++ outline e ++ [')']
  | binary op a b => '(' :: op.symbol :: ' ' :: (outline a ++ ' ' :: (outline b ++ [')']))
  | factorial e => "(! ".toList ++ outline e ++ [')']
  | call name args => "(call ".toList ++ name.toList ++ outlineAll args ++ [')']
  | matrix items => "(matrix".toList ++ outlineAll items ++ [')']

def outlineAll : List Formula → List Char
  | [] => []
  | e :: es => ' ' :: (outline e ++ outlineAll es)

end

end Formula

end Storyworld
