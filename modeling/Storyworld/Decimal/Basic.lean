import Storyworld.Decimal.Binary

/-!
Decimal numbers, and how a binary value turns into one: to the fewest digits that read back, or to
a fixed number of digits. All arithmetic is exact on natural numbers.
-/

namespace Storyworld

-- `coefficient · 10 ^ exponent`
structure Decimal where
  coefficient : Nat
  exponent : Int
deriving DecidableEq, Repr

namespace Decimal

def toFloat (d : Decimal) : Float :=
  Binary.ofDecimal d.coefficient d.exponent

def digits (d : Decimal) : List Char :=
  Nat.toDigits 10 d.coefficient

-- The same number with at most `k` zeros moved from the coefficient into the exponent.
def dropZeros : (k : Nat) → Decimal → Decimal
  | 0, d => d
  | k + 1, ⟨c, e⟩ => if c ≠ 0 ∧ c % 10 = 0 then dropZeros k ⟨c / 10, e + 1⟩ else ⟨c, e⟩

-- `m · 2 ^ e / 10 ^ s`
def fraction (m : Nat) (e s : Int) : Nat × Nat :=
  (m * twoTo e.toNat * tenTo (-s).toNat, twoTo (-e).toNat * tenTo s.toNat)

def digitCount (n : Nat) : Nat :=
  (Nat.toDigits 10 n).length

-- The `p` with `10 ^ (p - 1) ≤ m · 2 ^ e < 10 ^ p`.
def magnitude (m : Nat) (e : Int) : Int :=
  let (n, d) := fraction m e 0
  if d ≤ n then digitCount (n / d)
  else
    let g := digitCount (d / n)
    if d = n * tenTo (g - 1) then 2 - g else 1 - g

-- Halves go to even.
def divRound (n d : Nat) : Nat :=
  let q := n / d
  let r := n % d
  if 2 * r < d then q else if d < 2 * r then q + 1 else q + q % 2

def rounded (count m : Nat) (e : Int) : Decimal :=
  let s := magnitude m e - count
  let (n, d) := fraction m e s
  ⟨divRound n d, s⟩

inductive Tie where
  | toEven
  | up
deriving DecidableEq

-- A multiple of `10 ^ s` that reads back as the float `m · 2 ^ e`, the nearer one of two.
def candidate? (tie : Tie) (m : Nat) (e s : Int) : Option Nat :=
  -- In quarters of the last binary place, since below a power of two the next float is nearer.
  let low := 4 * m - (if m = 0x10000000000000 ∧ -1074 < e then 1 else 2)
  let (n, d) := fraction (4 * m) (e - 2) s
  let (lo, _) := fraction low (e - 2) s
  let (hi, _) := fraction (4 * m + 2) (e - 2) s
  let readsBack (q : Nat) : Bool :=
    if m % 2 = 0 then lo ≤ q * d && q * d ≤ hi else lo < q * d && q * d < hi
  let q := n / d
  let r := n % d
  match readsBack q, readsBack (q + 1) with
  | false, false => none
  | true, false => some q
  | false, true => some (q + 1)
  | true, true =>
    if 2 * r < d then some q
    else if d < 2 * r then some (q + 1)
    else match tie with
      | .toEven => some (q + q % 2)
      | .up => some (q + 1)

def shortest (tie : Tie) (m : Nat) (e : Int) : Decimal :=
  let p := magnitude m e
  let found := (List.range 17).findSome? fun (i : Nat) =>
    let s := p - (i + 1 : Nat)
    (candidate? tie m e s).map (⟨·, s⟩)
  -- Seventeen digits always read back.
  dropZeros 17 (found.getD (rounded 17 m e))

example : shortest .toEven 0x1999999999999A (-56) = ⟨1, -1⟩ := by decide +kernel
example : shortest .toEven 1 (-1074) = ⟨5, -324⟩ := by decide +kernel
example : rounded 12 0x13333333333334 (-54) = ⟨300000000000, -12⟩ := by decide +kernel

end Decimal

end Storyworld
