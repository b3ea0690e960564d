import Storyworld.Decimal.Text

/-!
Results of arithmetic as they are kept and shown: to twelve significant digits, and without a point
or exponent where the value is a small integer.
-/

namespace Storyworld

open Float.Model.UnpackedFloat

namespace Decimal

-- Zero and what is not finite stay as they are.
def roundFloat (count : Nat) (x : Float) : Float :=
  match x.toModel.unpack with
  | .finite s m e _ =>
    if count = 0 then x
    else
      let y := (rounded count m e).toFloat
      match s with
      | .negative => -y
      | .positive => y
  | _ => x

def significantDigits : Nat := 12

def settle (x : Float) : Float :=
  roundFloat significantDigits x

def showInt (n : Int) : String :=
  .ofList <| if n < 0 then '-' :: Nat.toDigits 10 n.natAbs else Nat.toDigits 10 n.natAbs

-- A small integer by its digits alone, any other float in the plain layout.
def showFloat (x : Float) : String :=
  match Binary.toSmallInt? x with
  | some n => showInt n
  | none => Layout.plain.write x

def showSettled (x : Float) : String :=
  showFloat (settle x)

end Decimal

end Storyworld
