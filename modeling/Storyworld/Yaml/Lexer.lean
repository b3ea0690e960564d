import Storyworld.Yaml.Scalar
import Storyworld.Yaml.Tag

/-!
From a YAML text to its tokens. Indentation becomes tokens that open and close lists and maps. Only
a colon tells that what stood before it on the line is a key, so each place where a key may start is
kept in mind, and the token for the key is woven in later.
-/

namespace Storyworld.Yaml

structure Candidate where
  -- Nothing but a key can stand there.
  required : Bool
  number : Nat
  mark : Mark

-- A key and its colon are at most so many characters apart.
def keyLimit : Nat := 1024

structure Lexer where
  cursor : Cursor
  -- The last one first.
  tokens : List Token := []
  -- Tokens that belong in front of the one with that number, the last one first.
  inserted : List (Nat × Token) := []
  -- The indentation of the block around the cursor, `-1` outside all blocks, and those of the blocks
  -- around that one.
  indent : Int := -1
  outer : List Int := []
  -- The last place for a key in each flow list or map around the cursor, and outside them.
  candidates : List (Option Candidate) := [none]
  keyAllowed : Bool := true

namespace Lexer

def inFlow (l : Lexer) : Bool :=
  1 < l.candidates.length

def emit (t : Token) (l : Lexer) : Lexer :=
  { l with tokens := t :: l.tokens }

def insert (number : Nat) (t : Token) (l : Lexer) : Lexer :=
  { l with inserted := (number, t) :: l.inserted }

def moveTo (c : Cursor) (l : Lexer) : Lexer :=
  { l with cursor := c }

def allowKey (allowed : Bool) (l : Lexer) : Lexer :=
  { l with keyAllowed := allowed }

def withCandidate (k? : Option Candidate) (l : Lexer) : Lexer :=
  { l with candidates := k? :: l.candidates.tail }

def candidate? (l : Lexer) : Option Candidate :=
  l.candidates.head?.join

-- The last place holds no key after all.
def dropCandidate? (l : Lexer) : Option Lexer :=
  if l.candidate?.any (·.required) then none else some (l.withCandidate none)

def noteCandidate? (l : Lexer) : Option Lexer :=
  if l.keyAllowed then do
    let required := !l.inFlow && l.indent == l.cursor.column
    return (← l.dropCandidate?).withCandidate (some ⟨required, l.tokens.length, l.cursor.mark⟩)
  else some l

def isStale (m : Mark) (k : Candidate) : Bool :=
  k.mark.line < m.line || k.mark.column + keyLimit < m.column

-- Places from which no key reaches the cursor are given up.
def dropStale? (l : Lexer) : Option Lexer := do
  let candidates ← l.candidates.mapM fun k? => match k? with
    | some k =>
      if isStale l.cursor.mark k then (if k.required then none else some none) else some (some k)
    | none => some none
  return { l with candidates }

def openBlock (column : Nat) (open_ : Lexer → Lexer) (l : Lexer) : Lexer :=
  if !l.inFlow && l.indent < column then
    { open_ l with indent := column, outer := l.indent :: l.outer }
  else l

def closeBlocks (column : Int) (l : Lexer) : Lexer :=
  if l.inFlow then l else go column l.indent l.outer l
where
  go (column : Int) : (indent : Int) → (outer : List Int) → Lexer → Lexer
    | indent, [], l => { l with indent, outer := [] }
    | indent, i :: outer, l =>
      if column < indent then go column i outer (l.emit .blockEnd)
      else { l with indent, outer := i :: outer }

-- The place behind blanks, comments and line breaks, and whether a key may start there. A tab is no blank
-- where a key may start, except in flow.
def passGap (flow comment allowed : Bool) (m : Mark) : List Char → Bool × Cursor
  | [] => (allowed, ⟨m, []⟩)
  | c :: s =>
    if isBreak c then passGap flow false (allowed || !flow) (m.step c) s
    else if comment || c == '#' then passGap flow true allowed (m.step c) s
    else if c == ' ' || (c == '\t' && (flow || !allowed)) ||
        (m.column == 0 && c == '\uFEFF') then passGap flow false allowed (m.step c) s
    else (allowed, ⟨m, c :: s⟩)

def toNextToken (l : Lexer) : Lexer :=
  let (keyAllowed, cursor) := passGap l.inFlow false l.keyAllowed l.cursor.mark l.cursor.rest
  { l with keyAllowed, cursor }

def documentLevel? (allowed : Token × Cursor) (l : Lexer) : Option Lexer := do
  let l ← (l.closeBlocks (-1)).dropCandidate?
  return ((l.allowKey false).emit allowed.1).moveTo allowed.2

def openFlow? (t : Token) (l : Lexer) : Option Lexer := do
  let l ← l.noteCandidate?
  return (({ l with candidates := none :: l.candidates }.allowKey true).emit t).moveTo l.cursor.next

def closeFlow? (t : Token) (l : Lexer) : Option Lexer := do
  let l ← l.dropCandidate?
  let candidates := if l.inFlow then l.candidates.tail else l.candidates
  return (({ l with candidates }.allowKey false).emit t).moveTo l.cursor.next

def comma? (l : Lexer) : Option Lexer := do
  let l ← l.dropCandidate?
  return ((l.allowKey true).emit .comma).moveTo l.cursor.next

def dash? (l : Lexer) : Option Lexer :=
  if !l.inFlow && !l.keyAllowed then none
  else do
    let l ← (l.openBlock l.cursor.column (emit .blockList)).dropCandidate?
    return ((l.allowKey true).emit .dash).moveTo l.cursor.next

-- The mark of a key that may be longer than a line.
def key? (l : Lexer) : Option Lexer :=
  if !l.inFlow && !l.keyAllowed then none
  else do
    let l ← (l.openBlock l.cursor.column (emit .blockMap)).dropCandidate?
    return ((l.allowKey !l.inFlow).emit .key).moveTo l.cursor.next

def value? (l : Lexer) : Option Lexer := do
  let l ← match l.candidate? with
    | some k =>
      let l := (l.insert k.number .key).openBlock k.mark.column (insert k.number .blockMap)
      pure ((l.withCandidate none).allowKey false)
    | none =>
      if !l.inFlow && !l.keyAllowed then none
      else pure ((l.openBlock l.cursor.column (emit .blockMap)).allowKey !l.inFlow)
  return (l.emit .value).moveTo l.cursor.next

def leaf? (read : Cursor → Option (Token × Cursor)) (l : Lexer) : Option Lexer := do
  let l ← l.noteCandidate?
  let (t, c) ← read l.cursor
  return ((l.allowKey false).emit t).moveTo c

def plain? (l : Lexer) : Option Lexer := do
  let l ← l.noteCandidate?
  let p ← plainScalar l.inFlow (l.indent + 1).toNat l.cursor
  return ((l.allowKey p.broken).emit (.scalar (.ofList p.text) true)).moveTo p.after

def block? (literal : Bool) (l : Lexer) : Option Lexer := do
  let l ← l.dropCandidate?
  let (text, c) ← blockScalar literal l.indent l.cursor
  return ((l.allowKey true).emit (.scalar (.ofList text) false)).moveTo c

def readAnchor (make : String → Token) (c : Cursor) : Option (Token × Cursor) := do
  let (name, c) ← anchorName c.next
  return (make name, c)

def readQuoted (quote : Char) (c : Cursor) : Option (Token × Cursor) := do
  let (text, c) ← quotedScalar quote c
  return (.scalar (.ofList text) false, c)

def isIndicator (c : Char) : Bool :=
  "-?:,[]\x7b\x7d#&*!|>'\"%@`".contains c

def startsPlain (flow : Bool) (c : Char) (s : List Char) : Bool :=
  (!isIndicator c && !isGap c) || (c == '-' && !s.head?.any isBlank) ||
    (!flow && (c == '?' || c == ':') && !s.head?.all isGap)

def token? (c : Char) (s : List Char) (l : Lexer) : Option Lexer :=
  let atStart := l.cursor.column == 0
  let loose := s.head?.all isGap
  if atStart && c == '%' then do
    let l := l.closeBlocks (-1)
    l.documentLevel? (← directive l.cursor)
  else if atStart && isDocumentMark '-' (c :: s) then
    l.documentLevel? (.documentStart, l.cursor.skip 3)
  else if atStart && isDocumentMark '.' (c :: s) then
    l.documentLevel? (.documentEnd, l.cursor.skip 3)
  else if c = '[' then l.openFlow? .openBracket
  else if c = '{' then l.openFlow? .openBrace
  else if c = ']' then l.closeFlow? .closeBracket
  else if c = '}' then l.closeFlow? .closeBrace
  else if c = ',' then l.comma?
  else if c = '-' ∧ loose then l.dash?
  else if c = '?' ∧ (l.inFlow ∨ loose) then l.key?
  else if c = ':' ∧ (l.inFlow ∨ loose) then l.value?
  else if c = '*' then l.leaf? (readAnchor .reference)
  else if c = '&' then l.leaf? (readAnchor .anchor)
  else if c = '!' then l.leaf? (tag l.inFlow)
  else if c = '|' ∧ !l.inFlow then l.block? true
  else if c = '>' ∧ !l.inFlow then l.block? false
  else if c = '\'' ∨ c = '"' then l.leaf? (readQuoted c)
  else if startsPlain l.inFlow c s then l.plain?
  else none

-- The end of the text ends all blocks.
def finish? (l : Lexer) : Option Lexer := do
  return (← (l.closeBlocks (-1)).dropCandidate?).emit .textEnd

def run? : (fuel : Nat) → Lexer → Option Lexer
  | 0, _ => none
  | fuel + 1, l => do
    let l ← l.toNextToken.dropStale?
    let l := l.closeBlocks l.cursor.column
    match l.cursor.rest with
    | [] => l.finish?
    | c :: s => run? fuel (← l.token? c s)

def woven (l : Lexer) : List Token :=
  let keyed := l.tokens.reverse.zipIdx.map fun (t, number) =>
    (l.inserted.filter (·.1 == number)).map (·.2) ++ [t]
  keyed.flatten

end Lexer

def tokens? (text : List Char) : Option (List Token) :=
  if text.all isPrintable then
    let s := uniformBreaks (if text.head? = some '\uFEFF' then text.tail else text)
    (Lexer.run? (s.length + 1) { cursor := { rest := s } }).map Lexer.woven
  else none

end Storyworld.Yaml
