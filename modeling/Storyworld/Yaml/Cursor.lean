import Storyworld.Text.Blank

/-!
A place in a YAML text: its line and column, and the text from there on. Line breaks have been made
uniform beforehand, so that every one is a single character.
-/

namespace Storyworld.Yaml

def isPrintable (c : Char) : Bool :=
  let n := c.toNat
  n == 0x09 || n == 0x0A || n == 0x0D || (0x20 ≤ n && n ≤ 0x7E) || n == 0x85 ||
    (0xA0 ≤ n && n ≤ 0xFFFD) || 0x10000 ≤ n

def isBlank (c : Char) : Bool :=
  c == ' ' || c == '\t'

def isBreak (c : Char) : Bool :=
  c == '\n' || c.toNat == 0x2028 || c.toNat == 0x2029

def isGap (c : Char) : Bool :=
  isBlank c || isBreak c

def isWord (c : Char) : Bool :=
  c.isAlphanum || c == '_' || c == '-'

-- One character for every line break that is written as a carriage return, as such a return with a line
-- feed, or as `NEL`.
def uniformBreaks : List Char → List Char
  | '\r' :: '\n' :: s => '\n' :: uniformBreaks s
  | c :: s => (if c == '\r' || c.toNat == 0x85 then '\n' else c) :: uniformBreaks s
  | [] => []

structure Mark where
  line : Nat := 0
  column : Nat := 0
deriving DecidableEq

def Mark.step (m : Mark) (c : Char) : Mark :=
  if isBreak c then ⟨m.line + 1, 0⟩ else ⟨m.line, m.column + 1⟩

structure Cursor where
  mark : Mark := {}
  rest : List Char

namespace Cursor

def column (c : Cursor) : Nat := c.mark.column

def peek? (c : Cursor) : Option Char := c.rest.head?

def next (c : Cursor) : Cursor :=
  match c.rest with
  | [] => c
  | x :: s => ⟨c.mark.step x, s⟩

def skip (count : Nat) (c : Cursor) : Cursor :=
  Nat.repeat next count c

def spanFrom (p : Char → Bool) (m : Mark) : List Char → List Char × Cursor
  | [] => ([], ⟨m, []⟩)
  | x :: s =>
    if p x then
      let (taken, c) := spanFrom p (m.step x) s
      (x :: taken, c)
    else ([], ⟨m, x :: s⟩)

def span (p : Char → Bool) (c : Cursor) : List Char × Cursor :=
  spanFrom p c.mark c.rest

def skipWhile (p : Char → Bool) (c : Cursor) : Cursor :=
  (c.span p).2

def atGap (c : Cursor) : Bool :=
  c.peek?.all isGap

def atLineEnd (c : Cursor) : Bool :=
  c.peek?.all isBreak

end Cursor

-- Three characters at the start of a line that begin or end a document.
def isDocumentMark (mark : Char) (s : List Char) : Bool :=
  s.take 3 == [mark, mark, mark] && (s.drop 3).head?.all isGap

def atDocumentMark (m : Mark) (s : List Char) : Bool :=
  m.column == 0 && (isDocumentMark '-' s || isDocumentMark '.' s)

end Storyworld.Yaml
