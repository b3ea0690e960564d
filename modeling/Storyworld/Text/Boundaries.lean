/-!
A set of characters as the sorted list of the code points at which membership changes.
-/

namespace Storyworld.Text

def flipsTo (inside : Bool) (n : Nat) : List Nat → Bool
  | [] => inside
  | b :: bounds => if b ≤ n then flipsTo (!inside) n bounds else inside

end Storyworld.Text
