import Storyworld.Decimal.Basic

/-!
Numbers as text: the layouts in which a float is written, and the numerals that are read.
-/

namespace Storyworld.Decimal

open Float.Model.UnpackedFloat

-- The decisions that one written form of floats makes.
structure Layout where
  tie : Tie
  -- Is a number whose first digit counts `10 ^ k` written without an exponent?
  inPlace : Int → Bool
  -- Does an integer keep `.0`?
  pointed : Bool
  -- What a positive exponent starts with.
  plus : List Char

-- Never an exponent, and integers without a point.
def Layout.plain : Layout :=
  ⟨.up, fun _ => true, false, []⟩

-- Always a point or an exponent, the latter for small and for large numbers.
def Layout.exact : Layout :=
  ⟨.toEven, fun k => -5 ≤ k && k ≤ 15, true, ['+']⟩

def Layout.quoted : Layout :=
  ⟨.up, fun k => -4 ≤ k && k ≤ 15, true, []⟩

def inPlace (digits : List Char) (e : Int) (pointed : Bool) : List Char :=
  if 0 ≤ e then
    digits ++ List.replicate e.toNat '0' ++ (if pointed then ['.', '0'] else [])
  else
    let before := digits.length + e
    if 0 < before then digits.take before.toNat ++ '.' :: digits.drop before.toNat
    else '0' :: '.' :: (List.replicate (-before).toNat '0' ++ digits)

-- `d.ddd · 10 ^ k`
def scientific (digits : List Char) (k : Int) (plus : List Char) : List Char :=
  let exponent := 'e' :: ((if k < 0 then ['-'] else plus) ++ Nat.toDigits 10 k.natAbs)
  match digits with
  | [] => exponent
  | [d] => d :: exponent
  | d :: rest => d :: '.' :: (rest ++ exponent)

def Layout.magnitude (layout : Layout) (m : Nat) (e : Int) : List Char :=
  let d := shortest layout.tie m e
  let k := d.digits.length + d.exponent - 1
  if layout.inPlace k then Decimal.inPlace d.digits d.exponent layout.pointed
  else scientific d.digits k layout.plus

def signed (s : Sign) (text : List Char) : List Char :=
  match s with
  | .negative => '-' :: text
  | .positive => text

def Layout.write (layout : Layout) (x : Float) : String :=
  .ofList <| match x.toModel.unpack with
    | .notANumber => ['N', 'a', 'N']
    | .infinity s => signed s ['i', 'n', 'f']
    | .zero s => signed s (Decimal.inPlace ['0'] 0 layout.pointed)
    | .finite s m e _ => signed s (layout.magnitude m e)

def natOfDigits (digits : List Char) : Nat :=
  digits.foldl (fun n c => 10 * n + (c.toNat - '0'.toNat)) 0

structure Numeral where
  negative : Bool
  whole : List Char
  fraction : List Char
  exponent : Int

def Numeral.magnitude (n : Numeral) : Float :=
  let digits := (n.whole ++ n.fraction).dropWhile (· == '0')
  let e := n.exponent - n.fraction.length
  let top := digits.length + e
  -- Beyond all floats, or below half of the least one: no power of ten is worked out there.
  if digits.isEmpty || top < -323 then 0
  else if 309 < top then Binary.infinity
  else Binary.ofDecimal (natOfDigits digits) e

def Numeral.toFloat (n : Numeral) : Float :=
  if n.negative then -n.magnitude else n.magnitude

def splitSign : List Char → Bool × List Char
  | '-' :: s => (true, s)
  | '+' :: s => (false, s)
  | s => (false, s)

-- `e` and an integer at the start of the text, or nothing there at all.
def splitExponent (s : List Char) : Option (Int × List Char) :=
  match s with
  | c :: r =>
    if c == 'e' || c == 'E' then
      let (negative, r) := splitSign r
      let digits := r.takeWhile Char.isDigit
      if digits.isEmpty then none
      else
        let n : Int := natOfDigits digits
        some (if negative then -n else n, r.dropWhile Char.isDigit)
    else some (0, s)
  | [] => some (0, [])

-- A numeral with digits on at least one side of its point.
def readNumeral? (s : List Char) : Option Numeral :=
  let (negative, s) := splitSign s
  let whole := s.takeWhile Char.isDigit
  let s := s.dropWhile Char.isDigit
  let (fraction, s) := match s with
    | '.' :: r => (r.takeWhile Char.isDigit, r.dropWhile Char.isDigit)
    | _ => ([], s)
  if whole.isEmpty && fraction.isEmpty then none
  else match splitExponent s with
    | some (exponent, []) => some ⟨negative, whole, fraction, exponent⟩
    | _ => none

-- Letters may be of either case.
def readWord? (s : List Char) : Option Float :=
  let (negative, s) := splitSign s
  let word := String.ofList (s.map Char.toLower)
  let x? := if word = "inf" ∨ word = "infinity" then some Binary.infinity
    else if word = "nan" then some Binary.notANumber
    else none
  x?.map fun x => if negative then -x else x

def readFloat? (s : List Char) : Option Float :=
  match readNumeral? s with
  | some n => some n.toFloat
  | none => readWord? s

def digitValue? (c : Char) : Option Nat :=
  if '0' ≤ c ∧ c ≤ '9' then some (c.toNat - '0'.toNat)
  else if 'a' ≤ c ∧ c ≤ 'f' then some (c.toNat - 'a'.toNat + 10)
  else if 'A' ≤ c ∧ c ≤ 'F' then some (c.toNat - 'A'.toNat + 10)
  else none

-- At least one digit, after at most one plus sign.
def readNat? (base : Nat) (s : List Char) : Option Nat :=
  let s := match s with
    | '+' :: r => r
    | _ => s
  if s.isEmpty then none
  else s.foldl (fun n? c => do
    let n ← n?
    let d ← digitValue? c
    if d < base then some (base * n + d) else none) (some 0)

def readIndex? (s : List Char) : Option Nat :=
  (readNat? 10 s).filter (· < wordBound)

end Storyworld.Decimal
