import Storyworld.Text.Blank
import Storyworld.Tree.Basic

/-!
Values as commands look at them: described values, equality that looks through the two spellings of
a number, and values that count as numbers.
-/

namespace Storyworld.Tree

-- The parts of a described value, which is a list of the value and a text.
def described? : Tree → Option (Tree × String)
  | arr [v, str description] => some (v, description)
  | _ => none

def scalarSlot? (t : Tree) : Option Tree :=
  (t.described?.map (·.1)).filter (!·.isComposite)

mutual

-- Equal up to the order of keys and the spelling of numbers.
def same (a b : Tree) : Bool :=
  match a with
  | num x => match b with
    | num y => x.same y
    | _ => false
  | arr xs => match b with
    | arr ys => xs.length == ys.length && sameItems xs ys
    | _ => false
  | obj xs => match b with
    | obj ys => xs.length == ys.length && sameFields xs ys
    | _ => false
  | null => b == null
  | bool x => b == bool x
  | str s => b == str s

def sameItems : (xs ys : List Tree) → Bool
  | x :: xs, y :: ys => same x y && sameItems xs ys
  | _, _ => true

-- Every entry is there on the other side with the same value.
def sameFields : (xs : List (String × Tree)) → (ys : Fields) → Bool
  | [], _ => true
  | (k, x) :: xs, ys =>
    (match Fields.get? k ys with
    | some y => same x y
    | none => false) && sameFields xs ys

end

def toFloat? : Tree → Option Float
  | num n => some n.toFloat
  | str s => (Decimal.readFloat? (Text.trim s.toList)).filter Float.isFinite
  | bool b => some (if b then 1 else 0)
  | _ => none

end Storyworld.Tree
