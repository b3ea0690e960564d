import Storyworld.Text.Search
import Storyworld.Tree.Basic

/-!
JSON text read as trees. Integers of 64 bits stay integers, `-0` and all other numerals are floats;
containers nest at most 127 deep.
-/

namespace Storyworld.Json

abbrev Reader (α : Type) := List Char → Option (α × List Char)

def isGap (c : Char) : Bool :=
  c == ' ' || c == '\t' || c == '\n' || c == '\r'

def skip (s : List Char) : List Char :=
  s.dropWhile isGap

def hex4 : Reader Nat
  | a :: b :: c :: d :: s => do
    let a ← Decimal.digitValue? a
    let b ← Decimal.digitValue? b
    let c ← Decimal.digitValue? c
    let d ← Decimal.digitValue? d
    return (((a * 16 + b) * 16 + c) * 16 + d, s)
  | _ => none

def isLeading (unit : Nat) : Bool := 0xD800 ≤ unit && unit < 0xDC00

def isTrailing (unit : Nat) : Bool := 0xDC00 ≤ unit && unit < 0xE000

-- The character behind `\u`: one unit, or the two halves of a pair.
def unicodeEscape : Reader Char := fun s => do
  let (unit, s) ← hex4 s
  if isLeading unit then
    let s ← Text.behind? ['\\', 'u'] s
    let (second, s) ← hex4 s
    if isTrailing second then
      return (.ofNat (0x10000 + (unit - 0xD800) * 0x400 + (second - 0xDC00)), s)
    else none
  else if isTrailing unit then none
  else return (.ofNat unit, s)

def escape : Reader Char
  | '"' :: s => some ('"', s)
  | '\\' :: s => some ('\\', s)
  | '/' :: s => some ('/', s)
  | 'b' :: s => some ('\x08', s)
  | 'f' :: s => some ('\x0C', s)
  | 'n' :: s => some ('\n', s)
  | 'r' :: s => some ('\r', s)
  | 't' :: s => some ('\t', s)
  | 'u' :: s => unicodeEscape s
  | _ => none

def stringBody : (fuel : Nat) → Reader (List Char)
  | 0, _ => none
  | _ + 1, [] => none
  | _ + 1, '"' :: s => some ([], s)
  | fuel + 1, '\\' :: s => do
    let (c, s) ← escape s
    let (cs, s) ← stringBody fuel s
    return (c :: cs, s)
  | fuel + 1, c :: s =>
    if c.toNat < 32 then none
    else do
      let (cs, s) ← stringBody fuel s
      return (c :: cs, s)

def string : Reader String
  | '"' :: s => (stringBody (s.length + 1) s).map fun (cs, s) => (.ofList cs, s)
  | _ => none

-- An integer part: no sign, and no zero in front of other digits.
def wholePart : Reader (List Char)
  | '0' :: s => some (['0'], s)
  | s =>
    let digits := s.takeWhile Char.isDigit
    if digits.isEmpty then none else some (digits, s.dropWhile Char.isDigit)

def fractionPart : Reader (List Char)
  | '.' :: s =>
    let digits := s.takeWhile Char.isDigit
    if digits.isEmpty then none else some (digits, s.dropWhile Char.isDigit)
  | s => some ([], s)

def hasExponent : List Char → Bool
  | c :: _ => c == 'e' || c == 'E'
  | [] => false

-- The number that `m` grows into by the digits, and how many of them; the first digit that leads beyond
-- 64 bits ends it.
def significant (m : Nat) : List Char → Nat × Nat
  | [] => (m, 0)
  | d :: digits =>
    let n := 10 * m + (d.toNat - '0'.toNat)
    if wordBound ≤ n then (m, 0)
    else
      let (n, count) := significant n digits
      (n, count + 1)

-- `x · 10 ^ e`, if it is not too large.
def scaled? (x : Float) (e : Int) : Option Float :=
  if x == 0 then some x
  else if 308 < e then none
  -- Each of these rounds, so the last place of a long number may differ from that of the nearest float.
  else if 0 ≤ e then some (x * Binary.ofDecimal 1 e)
  else if -308 ≤ e then some (x / Binary.ofDecimal 1 (-e))
  else scaled? (x / Binary.ofDecimal 1 308) (e + 308)
termination_by e.natAbs

def float? (negative : Bool) (whole fraction : List Char) (exponent : Int) : Option Number := do
  let (m, countWhole) := significant 0 whole
  let (m, countFraction) := significant m fraction
  let x ← scaled? (Binary.ofInt m) (exponent + whole.length - countWhole - countFraction)
  let x := if negative then -x else x
  if h : x.isFinite = true then some (.float x h) else none

def number : Reader Number := fun s => do
  let (negative, s) := match s with
    | '-' :: r => (true, r)
    | _ => (false, s)
  let (whole, s) ← wholePart s
  let (fraction, t) ← fractionPart s
  let magnitude := Decimal.natOfDigits whole
  let n : Int := if negative then -magnitude else magnitude
  if hasExponent t then
    let (exponent, t) ← Decimal.splitExponent t
    return (← float? negative whole fraction exponent, t)
  else if fraction.isEmpty && !(negative && magnitude == 0) then
    return (← (Number.ofInt? n).or (float? negative whole [] 0), t)
  else
    return (← float? negative whole fraction 0, t)

def items (value : Reader Tree) : (fuel : Nat) → Reader (List Tree)
  | 0, _ => none
  | fuel + 1, s => do
    let (x, s) ← value (skip s)
    match skip s with
    | ',' :: s =>
      let (xs, s) ← items value fuel s
      return (x :: xs, s)
    | ']' :: s => return ([x], s)
    | _ => none

def entries (value : Reader Tree) : (fuel : Nat) → Reader (List (String × Tree))
  | 0, _ => none
  | fuel + 1, s => do
    let (k, s) ← string (skip s)
    match skip s with
    | ':' :: s =>
      let (v, s) ← value (skip s)
      match skip s with
      | ',' :: s =>
        let (rest, s) ← entries value fuel s
        return ((k, v) :: rest, s)
      | '}' :: s => return ([(k, v)], s)
      | _ => none
    | _ => none

def list (value : Reader Tree) : Reader Tree := fun s =>
  match skip s with
  | ']' :: s => some (.arr [], s)
  | s => (items value s.length s).map fun (xs, s) => (.arr xs, s)

def map (collect : List (String × Tree) → Fields) (value : Reader Tree) : Reader Tree := fun s =>
  match skip s with
  | '}' :: s => some (.obj [], s)
  | s => (entries value s.length s).map fun (fields, s) => (.obj (collect fields), s)

-- A value at the front of the text, with room for that many containers around each other; `collect`
-- settles entries whose key came before.
def value (collect : List (String × Tree) → Fields) : (room : Nat) → Reader Tree
  | room, s => match s with
    | 'n' :: _ => (Text.behind? ['n', 'u', 'l', 'l'] s).map (.null, ·)
    | 't' :: _ => (Text.behind? ['t', 'r', 'u', 'e'] s).map (.bool true, ·)
    | 'f' :: _ => (Text.behind? ['f', 'a', 'l', 's', 'e'] s).map (.bool false, ·)
    | '"' :: _ => (string s).map fun (k, s) => (.str k, s)
    | '[' :: s => match room with
      | 0 => none
      | room + 1 => list (value collect room) s
    | '{' :: s => match room with
      | 0 => none
      | room + 1 => map collect (value collect room) s
    | _ => (number s).map fun (n, s) => (.num n, s)

def maxNesting : Nat := 127

def parseWith? (collect : List (String × Tree) → Fields) (s : List Char) : Option Tree :=
  match value collect maxNesting (skip s) with
  | some (t, rest) => if (skip rest).isEmpty then some t else none
  | none => none

-- A repeated key keeps its first place and gets the last value.
def parse? (s : List Char) : Option Tree :=
  parseWith? Fields.ofList s

-- Entries as they are written, repeated keys too.
def parseVerbatim? (s : List Char) : Option Tree :=
  parseWith? id s

def parseString? (s : List Char) : Option String :=
  match string (skip s) with
  | some (k, rest) => if (skip rest).isEmpty then some k else none
  | none => none

end Storyworld.Json

namespace Storyworld.Tree

def ofJson? (text : String) : Option Tree :=
  Json.parse? text.toList

end Storyworld.Tree
