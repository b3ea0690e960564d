import Storyworld.Formula.Derivative
import Storyworld.Formula.Parser
import Storyworld.Quantity.Matrix
import Storyworld.Quantity.Sample

namespace Storyworld.Quantity

def pi : Float := 3.141592653589793

def constants : List (String × Float) := [
  ("pi", pi), ("PI", pi),
  ("e", 2.718281828459045), ("E", 2.718281828459045),
  ("tau", 6.283185307179586), ("TAU", 6.283185307179586),
  ("phi", 1.618033988749895), ("PHI", 1.618033988749895),
  ("inf", Binary.infinity), ("Infinity", Binary.infinity),
  ("LN2", 0.6931471805599453), ("LN10", 2.302585092994046),
  ("LOG2E", 1.4426950408889634), ("LOG10E", 0.4342944819032518),
  ("SQRT2", 1.4142135623730951), ("SQRT1_2", 0.7071067811865476)]

def constant? (name : String) : Option Quantity :=
  if name = "i" then some (complex .i) else (constants.lookup name).map number

inductive Function where
  | one (f : Quantity → Result Quantity)
  | two (f : Quantity → Quantity → Result Quantity)
  -- Two or more, with an operator between them.
  | chain (op : Op)
  -- Any real numbers, also in matrices, at least one.
  | sample (f : List Float → Result Float)

def realFunction (f : Float → Float) : Function :=
  .one (mapReal f)

-- A real function that goes on to complex numbers; `beyond` is its value there, also for the real numbers
-- whose value is complex.
def extended (f : Float → Float) (beyond : Quantity → Option Quantity) : Function :=
  .one fun x => match beyond x with
    | some y => .ok y
    | none => mapReal f x

def twoReals (f : Float → Float → Quantity) : Function :=
  .two fun x y => do return f (← x.real) (← y.real)

def onComplex (f : Complex → Quantity) : Function :=
  .one fun x => match x.toComplex? with
    | some z => .ok (f z)
    | none => kindFault .notNumber

def onSample (f : List Float → Float) : Function :=
  .sample fun xs => .ok (f xs)

def onIntegers (name : String) (f : List Float → Float) : Function :=
  .sample fun xs =>
    if xs.all Binary.isWhole then .ok (f xs) else domainFault (.notIntegers name)

def sign (x : Float) : Float :=
  if x == 0 then 0 else if 0 < x then 1 else if x < 0 then -1 else x

-- `x` to so many places behind the point.
def roundTo (x places : Float) : Float :=
  let n := max (-0x80000000) (min 0x7FFFFFFF (Binary.toInt64Saturating places))
  let scale := Binary.powInt 10 n
  (x * scale).round / scale

-- Up to where the product is still finite.
def factorial : Quantity → Result Quantity
  | number x => match Binary.toInt? x with
    | some n =>
      if 0 ≤ n ∧ n ≤ 170 then
        let factors := (List.range n.toNat).map fun (k : Nat) => Binary.ofInt (k + 1)
        .ok (number (Sample.product factors))
      else domainFault (.factorial x)
    | none => domainFault (.factorial x)
  | _ => kindFault .factorialOfNoNumber

def derivative : Quantity → Quantity → Result Quantity
  | text e, text var => do
    let d ← Formula.derivative (Text.stripped var) (← Formula.parse e)
    return text d.display
  | _, _ => kindFault .derivativeArguments

def beyondAbs : Quantity → Option Quantity
  | complex z => some (number z.norm)
  | _ => none

def beyondExp : Quantity → Option Quantity
  | complex z => some (complex z.exp)
  | _ => none

def beyondNegative (f : Complex → Complex) : Quantity → Option Quantity
  | number x => if x < 0 then some (complex (f (.ofReal x))) else none
  | complex z => some (complex (f z))
  | _ => none

def functions : List (String × Function) := [
  ("abs", extended Float.abs beyondAbs), ("fabs", extended Float.abs beyondAbs),
  ("sqrt", extended Float.sqrt (beyondNegative Complex.sqrt)),
  ("exp", extended Float.exp beyondExp),
  ("log", extended Float.log (beyondNegative Complex.ln)),
  ("cbrt", realFunction Float.cbrt),
  ("isqrt", realFunction fun x => x.sqrt.floor),
  ("degrees", realFunction fun x => x * (180 / pi)),
  ("radians", realFunction fun x => x * (pi / 180)),
  ("square", realFunction fun x => x * x),
  ("cube", realFunction fun x => x * x * x),
  ("log10", realFunction Float.log10), ("log2", realFunction Float.log2),
  ("log1p", realFunction Binary.logOnePlus), ("expm1", realFunction Binary.expMinusOne),
  ("ceil", realFunction Float.ceil), ("floor", realFunction Float.floor),
  ("trunc", realFunction Binary.truncate), ("fix", realFunction Binary.truncate),
  ("round", realFunction Float.round),
  ("sign", realFunction sign),
  ("sin", realFunction Float.sin), ("cos", realFunction Float.cos),
  ("tan", realFunction Float.tan), ("asin", realFunction Float.asin),
  ("acos", realFunction Float.acos), ("atan", realFunction Float.atan),
  ("sinh", realFunction Float.sinh), ("cosh", realFunction Float.cosh),
  ("tanh", realFunction Float.tanh), ("asinh", realFunction Binary.arsinh),
  ("acosh", realFunction Binary.arcosh), ("atanh", realFunction Binary.artanh),
  ("atan2", twoReals fun y x => number (y.atan2 x)),
  ("hypot", onSample Sample.euclideanNorm),
  ("pow", .two (binary .pow)), ("mod", .two (binary .mod)),
  ("add", .chain .add), ("subtract", .two (binary .sub)),
  ("multiply", .chain .mul), ("divide", .two (binary .div)),
  ("factorial", .one factorial),
  ("gcd", onIntegers "gcd" (Sample.reduce Binary.gcd)),
  ("lcm", onIntegers "lcm" (Sample.reduce Sample.lcm)),
  ("min", onSample Sample.least), ("max", onSample Sample.greatest),
  ("sum", onSample Sample.total), ("prod", onSample Sample.product),
  ("mean", onSample Sample.mean), ("median", onSample Sample.median),
  ("variance", onSample Sample.variance), ("var", onSample Sample.variance),
  ("std", onSample fun xs => (Sample.variance xs).sqrt),
  ("det", .one fun x => number <$> determinant x),
  ("transpose", .one transpose),
  ("size", .one fun x => .ok (size x)),
  ("complex", .one fun x => do return complex (.ofReal (← x.real))),
  ("re", onComplex fun z => number z.re), ("im", onComplex fun z => number z.im),
  ("conj", onComplex fun z => complex z.conj), ("arg", onComplex fun z => number z.arg),
  ("derivative", .two derivative)]

-- Functions that may take a second operand.
def functionsOfTwo : List (String × Function) := [
  ("log", twoReals fun x base => number (x.log / base.log)),
  ("round", twoReals fun x places => number (roundTo x places)),
  ("complex", twoReals fun re im => complex ⟨re, im⟩)]

def function? (name : String) (count : Nat) : Option Function :=
  if count = 2 then (functionsOfTwo.lookup name).or (functions.lookup name)
  else functions.lookup name

def Function.apply (name : String) : Function → List Quantity → Result Quantity
  | one f, [x] => f x
  | two f, [x, y] => f x y
  | chain op, x :: y :: rest => (y :: rest).foldlM (binary op) x
  | sample f, args => do
    let xs ← numbersOfAll args
    if xs.isEmpty then throw (.arity name) else number <$> f xs
  | _, _ => .error (.arity name)

def callFunction (name : String) (args : List Quantity) : Result Quantity :=
  match function? name args.length with
  | some f => f.apply name args
  | none => .error (.unknownFunction name)

end Storyworld.Quantity
