import Storyworld.Decimal.Power

/-!
Binary floating-point numbers seen exactly: a finite one is `± m · 2 ^ e`. Whole values come out as
integers, and integers, decimals and square roots of exact sums go back in with one rounding.
-/

namespace Storyworld.Binary

open Float.Model Float.Model.UnpackedFloat

def ofInt (n : Int) : Float :=
  .ofModel (.ofInt n)

def ofDecimal (m : Nat) (e : Int) : Float :=
  .ofModel (.ofScientific m e)

def infinity : Float :=
  .ofModel (.pack (.infinity .positive))

def notANumber : Float :=
  .ofModel (.pack .notANumber)

def isNegative (x : Float) : Bool :=
  x.toBits.toNat ≥ 0x8000000000000000

def toInt? (x : Float) : Option Int :=
  match x.toModel.unpack with
  | .zero _ => some 0
  | .finite s m e _ =>
    if m % twoTo (-e).toNat = 0 then some (s.apply (m * twoTo e.toNat / twoTo (-e).toNat : Nat)) else none
  | _ => none

def isWhole (x : Float) : Bool :=
  (toInt? x).isSome

-- Up to here every integer is a float.
def exactBound : Nat := 0x20000000000000

def toSmallInt? (x : Float) : Option Int :=
  (toInt? x).filter (·.natAbs < exactBound)

-- `x` without its fraction; outside the 64-bit range the nearest end of it, and 0 for what is no number.
def toInt64Saturating (x : Float) : Int :=
  match x.toModel.unpack with
  | .zero _ | .notANumber => 0
  | .infinity .positive => signedBound - 1
  | .infinity .negative => -signedBound
  | .finite s m e _ =>
    max (-signedBound) (min (signedBound - 1) (s.apply (m * twoTo e.toNat / twoTo (-e).toNat : Nat)))

-- The integer nearest to `x`, halves away from zero; 0 for what is not finite.
def nearestInt (x : Float) : Int :=
  match x.toModel.unpack with
  | .finite s m e _ =>
    let d := twoTo (-e).toNat
    s.apply ((2 * (m * twoTo e.toNat) + d) / (2 * d) : Nat)
  | _ => 0

def truncate (x : Float) : Float :=
  if x < ofInt 0 then x.ceil else x.floor

-- A key that orders floats from `-∞` over `-0`, `0` to `∞`; what is no number comes first.
def orderKey (x : Float) : Int :=
  if x.isNaN then -2 * signedBound
  else if isNegative x then -(x.toBits.toNat - 0x8000000000000000 : Nat) - 1
  else x.toBits.toNat

-- `√(x² + y²)` with a single rounding.
def hypotenuse (x y : Float) : Float :=
  match x.toModel.unpack, y.toModel.unpack with
  | .infinity _, _ | _, .infinity _ => infinity
  | .notANumber, _ | _, .notANumber => notANumber
  | .zero _, _ => y.abs
  | _, .zero _ => x.abs
  | .finite _ m e _, .finite _ n f _ =>
    let low := min e f
    let a := m * twoTo (e - low).toNat
    let b := n * twoTo (f - low).toNat
    let total := a * a + b * b
    if h : 0 < total then
      .ofModel (.pack (UnpackedFloat.sqrt .binary64 (.finite .positive total (2 * low) h)))
    else ofInt 0

-- The largest number of which both are whole multiples; it is a float again.
def gcd (x y : Float) : Float :=
  match x.toModel.unpack, y.toModel.unpack with
  | .zero _, _ => y.abs
  | _, .zero _ => x.abs
  | .finite _ m e _, .finite _ n f _ =>
    let low := min e f
    let g := Nat.gcd (m * twoTo (e - low).toNat) (n * twoTo (f - low).toNat)
    (ofInt g).scaleB low
  | _, _ => notANumber

-- Accurate near zero: the rounding of `1 + x` is undone by a factor.
def logOnePlus (x : Float) : Float :=
  let u := 1 + x
  let d := u - 1
  if d == 0 then x else if d == x then u.log else u.log * (x / d)

def arsinh (x : Float) : Float :=
  let a := x.abs
  let r := 1 / a
  let y := logOnePlus (a + a / (hypotenuse 1 r + r))
  if isNegative x then -y else y

-- Far out the logarithm is that of `2 * x`.
def arcosh (x : Float) : Float :=
  if x < 1 then notANumber
  else if 0x10000000 < x then x.log + 0.6931471805599453
  else
    let t := x - 1
    logOnePlus (t + (t * (t + 2)).sqrt)

def artanh (x : Float) : Float :=
  0.5 * logOnePlus (2 * x / (1 - x))

-- Accurate near zero: the rounding of `e ^ x` is undone by a factor.
def expMinusOne (x : Float) : Float :=
  let u := x.exp
  let d := u - 1
  if d == 0 then x else if d == -1 || d == u then d else d * (x / u.log)

-- The lowest bit of `n` comes first.
def powNat (a : Float) : (fuel : Nat) → (n : Nat) → (acc : Float) → Float
  | 0, _, acc => acc
  | fuel + 1, n, acc =>
    let acc := if n % 2 = 1 then acc * a else acc
    if n / 2 = 0 then acc else powNat (a * a) fuel (n / 2) acc

def powInt (a : Float) (n : Int) : Float :=
  let p := powNat a 64 n.natAbs 1
  if n < 0 then 1 / p else p

end Storyworld.Binary
