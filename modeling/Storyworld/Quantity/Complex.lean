import Storyworld.Decimal.Significant

namespace Storyworld

structure Complex where
  re : Float
  im : Float
deriving DecidableEq

namespace Complex

def i : Complex := ⟨0, 1⟩

def ofReal (x : Float) : Complex := ⟨x, 0⟩

def add (a b : Complex) : Complex :=
  ⟨a.re + b.re, a.im + b.im⟩

def sub (a b : Complex) : Complex :=
  ⟨a.re - b.re, a.im - b.im⟩

def mul (a b : Complex) : Complex :=
  ⟨a.re * b.re - a.im * b.im, a.re * b.im + a.im * b.re⟩

def div (a b : Complex) : Complex :=
  let d := b.re * b.re + b.im * b.im
  ⟨(a.re * b.re + a.im * b.im) / d, (a.im * b.re - a.re * b.im) / d⟩

def neg (a : Complex) : Complex :=
  ⟨-a.re, -a.im⟩

def conj (a : Complex) : Complex :=
  ⟨a.re, -a.im⟩

def norm (a : Complex) : Float :=
  Binary.hypotenuse a.re a.im

def arg (a : Complex) : Float :=
  a.im.atan2 a.re

-- The root in the right half plane.
def sqrt (a : Complex) : Complex :=
  let r := a.norm
  let im := ((r - a.re) / 2).sqrt
  ⟨((r + a.re) / 2).sqrt, if a.im < 0 then -im else im⟩

def exp (a : Complex) : Complex :=
  let m := a.re.exp
  ⟨m * a.im.cos, m * a.im.sin⟩

def ln (a : Complex) : Complex :=
  ⟨a.norm.log, a.arg⟩

def isZero (a : Complex) : Bool :=
  a.re == 0 && a.im == 0

-- A power of zero is zero, but for the power zero.
def pow (a b : Complex) : Complex :=
  if a.isZero then ofReal (if b.isZero then 1 else 0) else (b.mul a.ln).exp

def showImaginary (im : Float) : String :=
  if im == 1 then "i" else Decimal.showSettled im ++ "i"

-- `3 + 4i`, with parts that are zero left out.
def display (a : Complex) : String :=
  let re := Decimal.settle a.re
  let im := Decimal.settle a.im
  if im == 0 then Decimal.showSettled re
  else if re == 0 then (if im == -1 then "-i" else showImaginary im)
  else Decimal.showSettled re ++ (if im < 0 then " - " else " + ") ++ showImaginary im.abs

end Complex

end Storyworld
