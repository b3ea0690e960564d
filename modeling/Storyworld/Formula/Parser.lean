import Storyworld.Formula.Lexer

/-!
From words to a formula. From loosest to tightest: sums, products, signs, powers, factorials. A
power takes a sign in its exponent, so `-2 ^ -2` is `-(2 ^ (-2))`.
-/

namespace Storyworld.Formula

abbrev Reader (α : Type) := List Token → Except FormulaError (α × List Token)

def sumOp? : Token → Option Op
  | .op '+' => some .add
  | .op '-' => some .sub
  | _ => none

def productOp? : Token → Option Op
  | .op '*' => some .mul
  | .op '/' => some .div
  | .op '%' => some .mod
  | _ => none

-- What stands behind `lhs` is grouped to the left.
def chain (op? : Token → Option Op) (operand : Reader Formula) : (fuel : Nat) → Formula → Reader Formula
  | 0, lhs, s => .ok (lhs, s)
  | fuel + 1, lhs, s => match s with
    | [] => .ok (lhs, [])
    | t :: rest => match op? t with
      | none => .ok (lhs, s)
      | some op => do
        let (rhs, rest) ← operand rest
        chain op? operand fuel (.binary op lhs rhs) rest

def chained (op? : Token → Option Op) (operand : Reader Formula) : Reader Formula := fun s => do
  let (lhs, rest) ← operand s
  chain op? operand rest.length lhs rest

-- Formulas with commas between them, at least one, up to a closing word.
def listItems (close : Token) (item : Reader Formula) : (fuel : Nat) → Reader (List Formula)
  | 0, _ => .error .unexpectedEnd
  | fuel + 1, s => do
    let (e, rest) ← item s
    match rest with
    | [] => throw .unexpectedEnd
    | t :: rest =>
      if t = .comma then
        let (es, rest) ← listItems close item fuel rest
        return (e :: es, rest)
      else if t = close then return ([e], rest)
      else throw (.unexpectedToken t)

def list (close : Token) (item : Reader Formula) : Reader (List Formula) := fun s =>
  if s.head? = some close then .ok ([], s.tail)
  -- Where no word is left an item is asked for all the same, which says if there is no room for one.
  else listItems close item (s.length + 1) s

-- A name, or a call if a parenthesis follows.
def named (expression : Reader Formula) (name : String) : Reader Formula := fun s =>
  match s with
  | .openParen :: rest =>
    (list .closeParen expression rest).map fun (args, rest) => (call name args, rest)
  | _ => .ok (symbol name, s)

def isModule (name : String) : Bool :=
  name == "Math" || name == "math"

def primary (expression : Reader Formula) : Reader Formula := fun s =>
  match s with
  | [] => .error .unexpectedEnd
  | .number x :: rest => .ok (number x, rest)
  | .text t :: rest => .ok (text t, rest)
  | .openParen :: rest => do
    let (e, rest) ← expression rest
    match rest with
    | [] => throw .unexpectedEnd
    | .closeParen :: rest => return (e, rest)
    | t :: _ => throw (.unexpectedToken t)
  | .openBracket :: rest =>
    (list .closeBracket expression rest).map fun (items, rest) => (matrix items, rest)
  | .name n :: .dot :: rest =>
    if isModule n then
      match rest with
      | [] => .error .unexpectedEnd
      | .name member :: rest => named expression member rest
      | t :: _ => .error (.unexpectedToken t)
    else .ok (symbol n, .dot :: rest)
  | .name n :: rest => named expression n rest
  | t :: _ => .error (.unexpectedToken t)

def factorials (e : Formula) : List Token → Formula × List Token
  | .op '!' :: rest => factorials (factorial e) rest
  | s => (e, s)

def power (expression exponent : Reader Formula) : Reader Formula := fun s => do
  let (e, rest) ← primary expression s
  match factorials e rest with
  | (base, .op '^' :: rest) =>
    let (e, rest) ← exponent rest
    return (binary .pow base e, rest)
  | (base, rest) => return (base, rest)

mutual

-- A formula with room for that many levels below it.
def expression : (room : Nat) → Reader Formula
  | 0, _ => .error .tooDeep
  | room + 1, s => chained sumOp? (chained productOp? (signed room)) s

def signed : (room : Nat) → Reader Formula
  | 0, _ => .error .tooDeep
  | room + 1, s => match s with
    | .op '-' :: rest => (signed room rest).map fun (e, rest) => (neg e, rest)
    | .op '+' :: rest => signed room rest
    | _ => power (expression room) (signed room) s

end

-- How many levels of formulas and signs may nest.
def maxNesting : Nat := 128

def parse (text : String) : Except FormulaError Formula := do
  let tokens ← Token.readAll text.toList
  match ← expression maxNesting tokens with
  | (e, []) => return e
  | (_, t :: _) => throw (.unexpectedToken t)

end Storyworld.Formula
