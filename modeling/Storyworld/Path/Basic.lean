import Storyworld.Tree.Basic

/-!
Paths into a state: steps by name or by position. A name made of digits also counts as a position,
and a position also counts as a name.
-/

namespace Storyworld

inductive Segment where
  | key (name : String)
  | index (n : Nat)
deriving DecidableEq

namespace Segment

def index? : Segment → Option Nat
  | key k =>
    let s := k.toList
    if s.isEmpty || !s.all Char.isDigit then none else Decimal.readIndex? s
  | index n => some n

def name : Segment → String
  | key k => k
  | index n => .ofList (Nat.toDigits 10 n)

@[simp] theorem index?_index (n : Nat) : index? (index n) = some n := rfl

@[simp] theorem name_key (k : String) : name (key k) = k := rfl

end Segment

-- The empty path is the root.
abbrev Path := List Segment

namespace Path

def root : Path := []

def parent? (path : Path) : Option Path :=
  if path.isEmpty then none else some path.dropLast

def child (path : Path) (step : Segment) : Path :=
  path ++ [step]

end Path

end Storyworld
