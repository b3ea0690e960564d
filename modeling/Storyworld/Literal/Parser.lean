import Storyworld.Literal.Basic
import Storyworld.Text.Blank
import Storyworld.Text.Letters

/-!
Literals: maps and lists in a loose notation with bare keys, three kinds of quotes, comments and
trailing commas. Nothing is looked up, so a name is no value. Containers nest at most 128 deep.

Offsets in errors count the characters before the one that is wrong; a reader knows the `whole`
length of the text, and from what is left where it stands.
-/

namespace Storyworld.Literal

abbrev Reader (α : Type) := List Char → Except LiteralError (α × List Char)

mutual

def skip : List Char → List Char
  | '/' :: '/' :: s => skipLine s
  | '/' :: '*' :: s => skipBlock s
  | c :: s => if Text.isBlank c then skip s else c :: s
  | [] => []

def skipLine : List Char → List Char
  | '\n' :: s => skip s
  | _ :: s => skipLine s
  | [] => []

-- A block comment may also end with the text.
def skipBlock : List Char → List Char
  | '*' :: '/' :: s => skip s
  | _ :: s => skipBlock s
  | [] => []

end

def isQuote (c : Char) : Bool :=
  c == '"' || c == '\'' || c == '\x60'

def charOfHex? (hex : List Char) : Option Char := do
  let n ← Decimal.readNat? 16 hex
  if n.isValidChar then some (.ofNat n) else none

def charOfHex (hex : List Char) : Except LiteralError Char :=
  match charOfHex? hex with
  | some c => .ok c
  | none => .error (.number (.ofList hex))

def fixedHex (count : Nat) : Reader Char := fun s =>
  if s.length < count then .error .unexpectedEnd
  else (charOfHex (s.take count)).map (·, s.drop count)

def bracedHex : Reader Char := fun s =>
  let hex := s.takeWhile (· != '}')
  match s.dropWhile (· != '}') with
  | [] => .error .unexpectedEnd
  | _ :: rest => (charOfHex hex).map (·, rest)

-- What a backslash and the text behind it stand for; a line break there stands for nothing.
def escape : Reader (Option Char)
  | [] => .error .unexpectedEnd
  | c :: s =>
    if c = 'n' then .ok (some '\n', s)
    else if c = 't' then .ok (some '\t', s)
    else if c = 'r' then .ok (some '\r', s)
    else if c = 'b' then .ok (some '\x08', s)
    else if c = 'f' then .ok (some '\x0C', s)
    else if c = 'v' then .ok (some '\x0B', s)
    else if c = '0' then .ok (some '\x00', s)
    else if c = 'x' then (fixedHex 2 s).map fun (c, s) => (some c, s)
    else if c = 'u' then
      match s with
      | '{' :: s => (bracedHex s).map fun (c, s) => (some c, s)
      | _ => (fixedHex 4 s).map fun (c, s) => (some c, s)
    else if c = '\n' then .ok (none, s)
    else .ok (some c, s)

def stringBody (quote : Char) : (fuel : Nat) → Reader (List Char)
  | 0, _ => .error .unexpectedEnd
  | _ + 1, [] => .error .unexpectedEnd
  | fuel + 1, c :: s =>
    if c = quote then .ok ([], s)
    else if quote = '\x60' ∧ c = '$' ∧ s.head? = some '{' then .error .interpolation
    else if c = '\\' then do
      let (c?, s) ← escape s
      let (cs, s) ← stringBody quote fuel s
      return (c?.toList ++ cs, s)
    else do
      let (cs, s) ← stringBody quote fuel s
      return (c :: cs, s)

def string (quote : Char) : Reader String := fun s =>
  (stringBody quote (s.length + 1) s).map fun (cs, s) => (.ofList cs, s)

-- The characters of a numeral that follows `before`, and the text behind. Signs belong to it at its start
-- and behind the `e` of an exponent.
def numeralChars (before : Option Char) : List Char → List Char × List Char
  | [] => ([], [])
  | c :: s =>
    let sign := (c == '-' || c == '+') && before.all fun b => b == 'e' || b == 'E'
    if c.isAlphanum || c == '.' || c == '_' || sign then
      let (digits, rest) := numeralChars (some c) s
      (c :: digits, rest)
    else ([], c :: s)

-- Underscores count for nothing.
def numeralValue? (raw : List Char) : Option Number := do
  let (negative, body) := Decimal.splitSign (raw.filter (· != '_'))
  let magnitude ← match body with
    | '0' :: 'x' :: hex | '0' :: 'X' :: hex =>
      ((Decimal.readNat? 16 hex).filter (· < wordBound)).map fun n => Binary.ofInt n
    | c :: _ => if c.isDigit || c == '.' then Decimal.readFloat? body else none
    | [] => none
  Number.ofFloat? (if negative then -magnitude else magnitude)

def number : Reader Tree := fun s =>
  let (raw, rest) := numeralChars none s
  match numeralValue? raw with
  | some n => .ok (.num n, rest)
  | none => .error (.number (.ofList raw))

def wordValue (word : String) : Except LiteralError Tree :=
  if word = "true" then .ok (.bool true)
  else if word = "false" then .ok (.bool false)
  else if word = "null" ∨ word = "undefined" then .ok .null
  else .error (.identifier word)

def word : Reader Tree := fun s =>
  (wordValue (.ofList (s.takeWhile Text.continuesName))).map (·, s.dropWhile Text.continuesName)

def reject (whole : Nat) : List Char → LiteralError
  | [] => .unexpectedEnd
  | c :: s => .unexpected c (whole - (s.length + 1))

def key (whole : Nat) : Reader String := fun s =>
  match s with
  | [] => .error .unexpectedEnd
  | c :: r =>
    if isQuote c then string c r
    else if Text.startsName c || c.isDigit then
      let inKey (c : Char) : Bool := Text.continuesName c || c == '.'
      .ok (.ofList (s.takeWhile inKey), s.dropWhile inKey)
    else .error (reject whole s)

def items (whole : Nat) (value : Reader Tree) : (fuel : Nat) → Reader (List Tree)
  | 0, _ => .error .unexpectedEnd
  | fuel + 1, s => match skip s with
    | ']' :: s => .ok ([], s)
    | s => do
      let (x, s) ← value s
      match skip s with
      | ',' :: s =>
        let (xs, s) ← items whole value fuel s
        return (x :: xs, s)
      | ']' :: s => return ([x], s)
      | s => throw (reject whole s)

def entries (whole : Nat) (value : Reader Tree) : (fuel : Nat) → Reader (List (String × Tree))
  | 0, _ => .error .unexpectedEnd
  | fuel + 1, s => match skip s with
    | '}' :: s => .ok ([], s)
    | s => do
      let (k, s) ← key whole s
      match skip s with
      | ':' :: s =>
        let (v, s) ← value s
        match skip s with
        | ',' :: s =>
          let (rest, s) ← entries whole value fuel s
          return ((k, v) :: rest, s)
        | '}' :: s => return ([(k, v)], s)
        | s => throw (reject whole s)
      | s => throw (reject whole s)

def value (whole : Nat) : (room : Nat) → Reader Tree
  | room, s => match skip s with
    | [] => .error .unexpectedEnd
    | c :: s =>
      if c = '{' then
        match room with
        | 0 => .error .tooDeep
        | room + 1 =>
          (entries whole (value whole room) (s.length + 1) s).map fun (fields, s) =>
            (.obj (Fields.ofList fields), s)
      else if c = '[' then
        match room with
        | 0 => .error .tooDeep
        | room + 1 =>
          (items whole (value whole room) (s.length + 1) s).map fun (xs, s) => (.arr xs, s)
      else if isQuote c then (string c s).map fun (k, s) => (.str k, s)
      else if c.isDigit || c == '-' || c == '+' || c == '.' then number (c :: s)
      else if Text.startsName c then word (c :: s)
      else .error (reject whole (c :: s))

def maxNesting : Nat := 128

def parse (text : String) : Except LiteralError Tree := do
  let s := text.toList
  let (t, rest) ← value s.length maxNesting s
  match skip rest with
  | [] => return t
  | rest => throw (reject s.length rest)

end Storyworld.Literal
