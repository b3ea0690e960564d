import Storyworld.Decimal.Significant

/-!
Numbers of the state: integers of 64 bits, signed or not, and finite floats. `1` and `1.0` are
different numbers here that `same` does not tell apart.
-/

namespace Storyworld

-- The integers that are stored as such.
def Storable (n : Int) : Prop :=
  -0x8000000000000000 ≤ n ∧ n < 0x10000000000000000

instance (n : Int) : Decidable (Storable n) :=
  inferInstanceAs (Decidable (_ ∧ _))

inductive Number where
  | int (n : Int) (storable : Storable n := by decide)
  | float (x : Float) (finite : x.isFinite = true := by decide)
deriving DecidableEq

namespace Number

def toFloat : Number → Float
  | int n _ => Binary.ofInt n
  | float x _ => x

theorem storable_of_natAbs_lt {n : Int} (h : n.natAbs < Binary.exactBound) : Storable n := by
  simp only [Binary.exactBound] at h
  constructor <;> omega

-- The number that `x` is kept as: an integer where that is exact and small, a float else.
def ofFloat? (x : Float) : Option Number :=
  match Binary.toSmallInt? x with
  | some n => if h : Storable n then some (int n h) else none
  | none => if h : x.isFinite = true then some (float x h) else none

def ofInt? (n : Int) : Option Number :=
  if h : Storable n then some (int n h) else none

-- Equal as written, or equal as floats.
def same (a b : Number) : Bool :=
  (a == b) || a.toFloat == b.toFloat

def write : Number → String
  | int n _ => Decimal.showInt n
  | float x _ => Decimal.Layout.exact.write x

def display (a : Number) : String :=
  Decimal.showFloat a.toFloat

end Number

end Storyworld
