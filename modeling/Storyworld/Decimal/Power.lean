namespace Storyworld

def twoTo (n : Nat) : Nat :=
  Nat.pow 2 n

def tenTo (n : Nat) : Nat :=
  Nat.pow 10 n

-- Numbers of 64 bits without a sign lie below.
def wordBound : Nat := 0x10000000000000000

-- Numbers of 64 bits with a sign lie below, and from its negative on.
def signedBound : Int := 0x8000000000000000

theorem twoTo_zero : twoTo 0 = 1 := rfl

theorem tenTo_zero : tenTo 0 = 1 := rfl

theorem twoTo_pos (n : Nat) : 0 < twoTo n :=
  Nat.pow_pos (by decide)

theorem tenTo_pos (n : Nat) : 0 < tenTo n :=
  Nat.pow_pos (by decide)

example : twoTo 64 = wordBound := by decide

end Storyworld
