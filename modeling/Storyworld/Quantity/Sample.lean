import Storyworld.Decimal.Binary

namespace Storyworld.Sample

-- The sum, in order; it starts from `-0`, which alone leaves every number as it is.
def total (xs : List Float) : Float :=
  xs.foldl (· + ·) (-0)

def product (xs : List Float) : Float :=
  xs.foldl (· * ·) 1

-- What is no number does not count.
def least (xs : List Float) : Float :=
  xs.foldl (fun best x => if x < best then x else best) Binary.infinity

def greatest (xs : List Float) : Float :=
  xs.foldl (fun best x => if best < x then x else best) (-Binary.infinity)

def count (xs : List Float) : Float :=
  Binary.ofInt xs.length

def mean (xs : List Float) : Float :=
  total xs / count xs

def median (xs : List Float) : Float :=
  let sorted := xs.mergeSort fun a b => Binary.orderKey a ≤ Binary.orderKey b
  let middle := sorted.length / 2
  if sorted.length % 2 = 0 then (sorted.getD (middle - 1) 0 + sorted.getD middle 0) / 2
  else sorted.getD middle 0

-- Normalized by one less than the count; a single number has none.
def variance (xs : List Float) : Float :=
  if xs.length < 2 then 0
  else
    let m := mean xs
    let squares := xs.map fun x => (x - m) * (x - m)
    total squares / Binary.ofInt (xs.length - 1 : Nat)

def euclideanNorm (xs : List Float) : Float :=
  (total (xs.map fun x => x * x)).sqrt

-- A single item stays as it is.
def reduce (f : Float → Float → Float) : List Float → Float
  | [] => 0
  | x :: xs => xs.foldl f x

def lcm (a b : Float) : Float :=
  if a == 0 || b == 0 then 0 else (a * b).abs / Binary.gcd a b

end Storyworld.Sample
