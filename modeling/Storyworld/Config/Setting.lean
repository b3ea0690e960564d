import Storyworld.Decimal.Text
import Storyworld.Json.Parser

/-!
Settings: the notation of configurations, with groups of named fields in parentheses, optional values
written as `Some(…)` or `None`, and comments. Of values that no setting has only the extent is read.
-/

namespace Storyworld

inductive Setting where
  | flag (b : Bool)
  | natural (n : Nat)
  | option (inner : Option Setting)
  -- The name of the group may be missing.
  | group (name : String) (fields : List (String × Setting))
  | other

namespace Setting

abbrev Reader (α : Type) := List Char → Option (α × List Char)

-- The text behind a comment with others inside it, `depth` of them open.
def blockEnd? : (depth : Nat) → List Char → Option (List Char)
  | depth, '/' :: '*' :: s => blockEnd? (depth + 1) s
  | 0, '*' :: '/' :: s => some s
  | depth + 1, '*' :: '/' :: s => blockEnd? depth s
  | depth, _ :: s => blockEnd? depth s
  | _, [] => none

def skipOnce (s : List Char) : List Char :=
  match s.dropWhile Json.isGap with
  | '/' :: '/' :: s => s.dropWhile (· != '\n')
  | '/' :: '*' :: r => (blockEnd? 0 r).getD ('/' :: '*' :: r)
  | s => s

-- What is no whole comment stays, and nothing can read it.
def skip (s : List Char) : List Char :=
  let next := skipOnce s
  if next.length < s.length then skip next else s
termination_by s.length

def startsIdent (c : Char) : Bool :=
  c.isAlpha || c == '_'

def continuesIdent (c : Char) : Bool :=
  c.isAlphanum || c == '_'

-- What only a name behind `r#` may contain.
def continuesRawIdent (c : Char) : Bool :=
  continuesIdent c || c == '.' || c == '+' || c == '-'

def ident : Reader String := fun s =>
  match s with
  | 'r' :: '#' :: s =>
    let name := s.takeWhile continuesRawIdent
    if name.isEmpty then none else some (.ofList name, s.drop name.length)
  | 'r' :: '"' :: _ => none
  | c :: _ =>
    let name := s.takeWhile continuesIdent
    let rest := s.drop name.length
    if startsIdent c && !rest.head?.any continuesRawIdent then some (.ofList name, rest) else none
  | [] => none

def numeralBase : List Char → Nat × List Char
  | '0' :: 'x' :: s => (16, s)
  | '0' :: 'o' :: s => (8, s)
  | '0' :: 'b' :: s => (2, s)
  | s => (10, s)

def inInteger (c : Char) : Bool :=
  (Decimal.digitValue? c).isSome || c == '_'

def inFloat (c : Char) : Bool :=
  c.isDigit || c == 'e' || c == 'E' || c == '.' || c == '+' || c == '-' || c == '_'

-- Underscores between and behind the digits do not count.
def numeral : Reader Nat := fun s =>
  let (base, s) := numeralBase s
  let digits := s.takeWhile inInteger
  if digits.isEmpty || digits.head? == some '_' then none
  else (Decimal.readNat? base (digits.filter (· != '_'))).map (·, s.drop digits.length)

def signless : List Char → List Char
  | '+' :: s | '-' :: s => s
  | s => s

-- A number; one with a sign or a fraction is none that a setting has.
def number : Reader Setting := fun s =>
  let unsigned := signless s
  let whole? := if (unsigned.takeWhile inFloat).length ≤ (unsigned.takeWhile inInteger).length then
      numeral unsigned
    else none
  match whole? with
  | some (n, rest) => some (if unsigned.length = s.length then .natural n else .other, rest)
  | none =>
    let float := s.takeWhile inFloat
    if (Decimal.readNumeral? float).isSome then some (.other, s.drop float.length) else none

def escapeEnd? : List Char → Option (List Char)
  | 'x' :: a :: b :: s =>
    if (Decimal.digitValue? a).isSome && (Decimal.digitValue? b).isSome then some s else none
  | 'u' :: '{' :: s =>
    let hex := s.takeWhile fun c => (Decimal.digitValue? c).isSome
    match Decimal.readNat? 16 hex, s.drop hex.length with
    | some n, '}' :: s => if n.isValidChar && hex.length ≤ 6 then some s else none
    | _, _ => none
  | c :: s => if "'\"\\nrt0".contains c then some s else none
  | [] => none

def stringEnd? : (fuel : Nat) → List Char → Option (List Char)
  | 0, _ | _, [] => none
  | _, '"' :: s => some s
  | fuel + 1, '\\' :: s => (escapeEnd? s).bind (stringEnd? fuel)
  | fuel + 1, _ :: s => stringEnd? fuel s

-- A string without escapes, which ends as it began.
def rawStringEnd? (s : List Char) : Option (List Char) :=
  let marks := s.takeWhile (· == '#')
  match s.drop marks.length with
  | '"' :: s => Text.afterFirst? ('"' :: marks) s
  | _ => none

def charEnd? : List Char → Option (List Char)
  | '\\' :: s => (escapeEnd? s).bind (Text.behind? ['\''])
  | c :: '\'' :: s => if c == '\'' then none else some s
  | _ => none

-- Elements up to the closing mark, with a comma behind each but perhaps the last.
def elements {α : Type} (close : Char) (element : Reader α) : (fuel : Nat) → Reader (List α)
  | 0, _ => none
  | fuel + 1, s => match skip s with
    | [] => none
    | c :: rest =>
      if c = close then some ([], rest)
      else do
        let (x, s) ← element (c :: rest)
        match skip s with
        | ',' :: s =>
          let (xs, s) ← elements close element fuel s
          return (x :: xs, s)
        | d :: s => if d = close then return ([x], s) else none
        | [] => none

def pair {α : Type} (key : Reader α) (value : Reader Setting) : Reader (α × Setting) := fun s => do
  let (k, s) ← key s
  let s ← Text.behind? [':'] (skip s)
  let (v, s) ← value (skip s)
  return ((k, v), s)

def hasFields (s : List Char) : Bool :=
  match ident (skip s) with
  | some (_, s) => (skip s).head? == some ':'
  | none => false

def parenthesized (name : String) (value : Reader Setting) : Reader Setting := fun s =>
  if hasFields s then
    (elements ')' (pair ident value) s.length s).map fun (fields, s) => (.group name fields, s)
  else
    (elements ')' value s.length s).map fun (items, s) =>
      (if items.isEmpty then .group name [] else .other, s)

def present (value : Reader Setting) : Reader Setting := fun s => do
  let s ← Text.behind? ['('] (skip s)
  let (v, s) ← value (skip s)
  let s := match skip s with
    | ',' :: s => skip s
    | s => s
  return (.option (some v), ← Text.behind? [')'] s)

def worded (value : Reader Setting) (word : String) : Reader Setting := fun s =>
  match word with
  | "true" => some (.flag true, s)
  | "false" => some (.flag false, s)
  | "None" => some (.option none, s)
  | "Some" => present value s
  | _ => match skip s with
    | '(' :: s => parenthesized word value s
    | _ => some (.other, s)

def ignoring (s? : Option (List Char)) : Option (Setting × List Char) :=
  s?.map (.other, ·)

def value : (room : Nat) → Reader Setting
  | 0, _ => none
  | room + 1, s => match ident s, s with
    | some (word, s), _ => worded (value room) word s
    | none, '(' :: s => parenthesized "" (value room) s
    | none, '[' :: s => ignoring ((elements ']' (value room) s.length s).map Prod.snd)
    | none, '{' :: s =>
      ignoring ((elements '}' (pair (value room) (value room)) s.length s).map Prod.snd)
    | none, '"' :: s => ignoring (stringEnd? s.length s)
    | none, 'r' :: s => ignoring (rawStringEnd? s)
    | none, '\'' :: s => ignoring (charEnd? s)
    | none, '-' :: 'i' :: 'n' :: 'f' :: s => some (.other, s)
    | none, s => number s

def maxNesting : Nat := 128

inductive Extension where
  -- An optional value need not be wrapped in `Some`.
  | implicitSome
  | unwrapNewtypes
  | unwrapVariantNewtypes
deriving DecidableEq

def Extension.ofWord? (word : String) : Option Extension :=
  if word = "implicit_some" then some .implicitSome
  else if word = "unwrap_newtypes" then some .unwrapNewtypes
  else if word = "unwrap_variant_newtypes" then some .unwrapVariantNewtypes
  else none

-- Gaps may stand between the words and behind them.
def behindAll? (words : List (List Char)) (s : List Char) : Option (List Char) :=
  words.foldlM (fun s word => (Text.behind? word s).map skip) s

def enabling : Reader (List Extension) := fun s => do
  let s ← behindAll? ["#".toList, "!".toList, "[".toList, "enable".toList, "(".toList] s
  let (words, s) ← elements ')' ident s.length s
  if words.isEmpty then none
  else return (← words.mapM Extension.ofWord?, ← behindAll? ["]".toList] (skip s))

def headers : (fuel : Nat) → Reader (List Extension)
  | 0, _ => none
  | fuel + 1, s =>
    if s.head? = some '#' then do
      let (found, s) ← enabling s
      let (more, s) ← headers fuel s
      return (found ++ more, s)
    else some ([], s)

def parse? (text : String) : Option (List Extension × Setting) := do
  let (extensions, s) ← headers (text.length + 1) (skip text.toList)
  let (v, rest) ← value maxNesting s
  if (skip rest).isEmpty then some (extensions, v) else none

end Setting

end Storyworld
