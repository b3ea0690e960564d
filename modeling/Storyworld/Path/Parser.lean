import Storyworld.Path.Basic
import Storyworld.Text.Blank

/-!
Paths as text: names with dots between them, and steps in brackets, either a position, a bare name
or a name in quotes. `steps` reads one character at a time; each function is what may stand there.
-/

namespace Storyworld.Path

inductive Flaw where
  | emptySegment
  | unterminatedKey
  | emptyBrackets
  | unclosedBracket
  | unmatchedBracket
  | missingSeparator
  | trailingDot
deriving DecidableEq

def Flaw.reason : Flaw → String
  | emptySegment => "empty segment"
  | unterminatedKey => "unterminated quoted key"
  | emptyBrackets => "empty brackets"
  | unclosedBracket => "unclosed bracket"
  | unmatchedBracket => "unmatched closing bracket"
  | missingSeparator => "expected '.' or '[' after ']'"
  | trailingDot => "trailing '.'"

structure Malformed where
  text : String
  flaw : Flaw
deriving DecidableEq

def Malformed.message (e : Malformed) : String :=
  s!"malformed path '{e.text}': {e.flaw.reason}"

def bracketed? (raw : List Char) : Option Segment :=
  let raw := Text.trim raw
  if raw.isEmpty then none
  else match Decimal.readIndex? raw with
    | some n => some (.index n)
    | none => some (.key (.ofList raw))

def named (name : List Char) : Path :=
  if name.isEmpty then [] else [.key (.ofList name)]

mutual

-- In a bare name, or where one may start.
def bare (name : List Char) : List Char → Except Flaw Path
  | [] => if name.isEmpty then .error .trailingDot else .ok (named name)
  | c :: s =>
    if c = '.' then
      if name.isEmpty then .error .emptySegment else (named name ++ ·) <$> bare [] s
    else if c = '[' then (named name ++ ·) <$> opened s
    else if c = ']' then .error .unmatchedBracket
    else bare (name ++ [c]) s

def opened : List Char → Except Flaw Path
  | [] => .error .emptyBrackets
  | c :: s =>
    if c = '"' ∨ c = '\'' then quoted c [] s
    else if c = ']' then .error .emptyBrackets
    else unquoted [c] s

def unquoted (raw : List Char) : List Char → Except Flaw Path
  | [] => match bracketed? raw with
    | none => .error .emptyBrackets
    | some _ => .error .unclosedBracket
  | c :: s =>
    if c = ']' then
      match bracketed? raw with
      | none => .error .emptyBrackets
      | some step => (step :: ·) <$> closed s
    else unquoted (raw ++ [c]) s

-- Between quotes; a backslash takes the next character as it is.
def quoted (quote : Char) (name : List Char) : List Char → Except Flaw Path
  | [] => .error .unterminatedKey
  | c :: s =>
    if c = quote then closing (.key (.ofList name)) s
    else if c = '\\' then
      match s with
      | [] => .error .unterminatedKey
      | d :: s => quoted quote (name ++ [d]) s
    else quoted quote (name ++ [c]) s

def closing (step : Segment) : List Char → Except Flaw Path
  | [] => .error .unclosedBracket
  | c :: s => if c = ']' then (step :: ·) <$> closed s else .error .unclosedBracket

def closed : List Char → Except Flaw Path
  | [] => .ok []
  | c :: s =>
    if c = '.' then bare [] s
    else if c = '[' then opened s
    else if c = ']' then .error .unmatchedBracket
    else .error .missingSeparator

end

def steps (s : List Char) : Except Flaw Path :=
  if s.isEmpty then .ok [] else bare [] s

def parse (text : String) : Except Malformed Path :=
  (steps (Text.trim text.toList)).mapError (⟨text, ·⟩)

end Storyworld.Path
