import Storyworld.Decimal.Text
import Storyworld.Yaml.Cursor

/-!
Scalars: plain ones, those in quotes, and blocks of lines. In the first two a line break counts as a
blank, and of several breaks in a row all but the first count.
-/

namespace Storyworld.Yaml

-- What has been passed since the last character of a scalar.
structure Gap where
  -- The blanks on the line; they do not count before a break.
  blanks : List Char := []
  broken : Bool := false
  -- The first break; none if it was escaped.
  first : Option Char := none
  more : List Char := []

namespace Gap

def blank (g : Gap) (c : Char) : Gap :=
  if g.broken then g else { g with blanks := g.blanks ++ [c] }

def lineBreak (g : Gap) (c : Char) : Gap :=
  if g.broken then { g with more := g.more ++ [c] } else { broken := true, first := some c }

def text (g : Gap) : List Char :=
  if g.broken then
    if g.first = some '\n' then (if g.more.isEmpty then [' '] else g.more)
    else g.first.toList ++ g.more
  else g.blanks

end Gap

structure Plain where
  text : List Char
  broken : Bool
  after : Cursor

def Plain.put (before : List Char) (p : Plain) : Plain :=
  { p with text := before ++ p.text }

def isFlowMark (c : Char) : Bool :=
  c == ',' || c == '[' || c == ']' || c == '{' || c == '}'

-- Whether a plain scalar ends before `c`. A colon that runs into a flow mark is an error.
def plainEnds? (flow : Bool) (c : Char) (s : List Char) : Option Bool :=
  if flow && c == ':' && s.head?.any fun d => isFlowMark d || d == '?' then none
  else some ((c == ':' && s.head?.all isGap) || (flow && isFlowMark c))

mutual

-- Inside a plain scalar; its lines are indented by at least `indent`.
def plainWord (flow : Bool) (indent : Nat) (m : Mark) : List Char → Option Plain
  | [] => some ⟨[], false, ⟨m, []⟩⟩
  | c :: s =>
    if isBlank c then plainGap flow indent (Gap.blank {} c) (m.step c) s
    else if isBreak c then plainGap flow indent (Gap.lineBreak {} c) (m.step c) s
    else do
      if ← plainEnds? flow c s then return ⟨[], false, ⟨m, c :: s⟩⟩
      else return (← plainWord flow indent (m.step c) s).put [c]

def plainGap (flow : Bool) (indent : Nat) (g : Gap) (m : Mark) : List Char → Option Plain
  | [] => some ⟨[], g.broken, ⟨m, []⟩⟩
  | c :: s =>
    if isBlank c then
      if g.broken && m.column < indent && c == '\t' then none
      else plainGap flow indent (g.blank c) (m.step c) s
    else if isBreak c then plainGap flow indent (g.lineBreak c) (m.step c) s
    else
      let ended : Plain := ⟨[], g.broken, ⟨m, c :: s⟩⟩
      if (!flow && m.column < indent) || atDocumentMark m (c :: s) || c == '#' then some ended
      else do
        if ← plainEnds? flow c s then return ended
        else return (← plainWord flow indent (m.step c) s).put (g.text ++ [c])

end

def plainScalar (flow : Bool) (indent : Nat) (c : Cursor) : Option Plain :=
  plainWord flow indent c.mark c.rest

inductive Escape where
  | char (c : Char)
  | code (digits : Nat)

def escape? (c : Char) : Option Escape :=
  if c = '0' then some (.char '\x00')
  else if c = 'a' then some (.char '\x07')
  else if c = 'b' then some (.char '\x08')
  else if c = 't' ∨ c = '\t' then some (.char '\t')
  else if c = 'n' then some (.char '\n')
  else if c = 'v' then some (.char '\x0B')
  else if c = 'f' then some (.char '\x0C')
  else if c = 'r' then some (.char '\r')
  else if c = 'e' then some (.char '\x1B')
  else if c = ' ' ∨ c = '"' ∨ c = '/' ∨ c = '\\' then some (.char c)
  else if c = 'N' then some (.char '\u0085')
  else if c = '_' then some (.char '\u00A0')
  else if c = 'L' then some (.char '\u2028')
  else if c = 'P' then some (.char '\u2029')
  else if c = 'x' then some (.code 2)
  else if c = 'u' then some (.code 4)
  else if c = 'U' then some (.code 8)
  else none

def charOfCode? (digits : List Char) : Option Char := do
  let ds ← digits.mapM Decimal.digitValue?
  let n := ds.foldl (fun n d => 16 * n + d) 0
  if n.isValidChar then some (.ofNat n) else none

-- The cursor is at the backslash.
def readEscape (c : Cursor) : Option (Char × Cursor) := do
  match ← escape? (← c.next.peek?) with
  | .char x => return (x, c.skip 2)
  | .code count =>
    let digits := (c.skip 2).rest.take count
    if digits.length < count then none
    else return (← charOfCode? digits, c.skip (2 + count))

mutual

-- Two single quotes stand for one.
def quotedWord (quote : Char) : (fuel : Nat) → Cursor → Option (List Char × Cursor)
  | 0, _ => none
  | fuel + 1, c => do
    let x ← c.peek?
    if x = quote then
      if quote = '\'' ∧ c.next.peek? = some '\'' then
        let (text, after) ← quotedWord quote fuel (c.skip 2)
        return ('\'' :: text, after)
      else return ([], c.next)
    else if quote = '"' ∧ x = '\\' then
      if c.next.peek?.any isBreak then quotedGap quote fuel { broken := true } (c.skip 2)
      else
        let (x, c) ← readEscape c
        let (text, after) ← quotedWord quote fuel c
        return (x :: text, after)
    else if isGap x then quotedGap quote fuel {} c
    else
      let (text, after) ← quotedWord quote fuel c.next
      return (x :: text, after)

def quotedGap (quote : Char) : (fuel : Nat) → Gap → Cursor → Option (List Char × Cursor)
  | 0, _, _ => none
  | fuel + 1, g, c => do
    let x ← c.peek?
    if isBlank x then quotedGap quote fuel (g.blank x) c.next
    else if isBreak x then quotedGap quote fuel (g.lineBreak x) c.next
    else if atDocumentMark c.mark c.rest then none
    else
      let (text, after) ← quotedWord quote fuel c
      return (g.text ++ text, after)

end

-- The cursor is at the opening quote.
def quotedScalar (quote : Char) (c : Cursor) : Option (List Char × Cursor) :=
  -- Two steps for each character, since between a word and a gap none is taken.
  quotedWord quote (2 * c.rest.length + 2) c.next

inductive Chomp where
  | strip
  | clip
  | keep
deriving DecidableEq

structure BlockHeader where
  chomp : Chomp := .clip
  -- The indentation beyond that of the parent, if it is given.
  indent : Option Nat := none

def chomp? (c : Cursor) : Option Chomp :=
  match c.peek? with
  | some '+' => some .keep
  | some '-' => some .strip
  | _ => none

-- A digit that is not zero; a zero is an error.
def indentDigit? (c : Cursor) : Option (Option Nat) :=
  match c.peek?.filter Char.isDigit with
  | none => some none
  | some d => if d = '0' then none else some (some (d.toNat - '0'.toNat))

-- The marks behind `|` or `>`, in any order.
def blockHeader (c : Cursor) : Option (BlockHeader × Cursor) := do
  match chomp? c with
  | some chomp =>
    let indent ← indentDigit? c.next
    return ({ chomp, indent }, if indent.isSome then c.skip 2 else c.next)
  | none =>
    let indent ← indentDigit? c
    let c := if indent.isSome then c.next else c
    match if indent.isSome then chomp? c else none with
    | some chomp => return ({ chomp, indent }, c.next)
    | none => return ({ indent }, c)

-- Empty lines, the widest indentation among them and the line that follows, and the start of the content
-- of that line. The indentation is not known as long as `indent` is zero.
def blockGap (indent widest : Nat) (m : Mark) : List Char → Option (List Char × Nat × Cursor)
  | [] => some ([], max widest m.column, ⟨m, []⟩)
  | c :: s =>
    let indenting := indent == 0 || m.column < indent
    if c == ' ' && indenting then blockGap indent widest (m.step c) s
    else
      let widest := max widest m.column
      if c == '\t' && indenting then none
      else if isBreak c then (blockGap indent widest (m.step c) s).map fun (bs, r) => (c :: bs, r)
      else some ([], widest, ⟨m, c :: s⟩)

-- The lines of a block up to one that is not indented as far. Line breaks before it are held back:
-- `leading` behind the last line, `trailing` those of empty lines.
def blockLines (literal : Bool) (indent : Nat) (keep : List Char → List Char → List Char) :
    (fuel : Nat) → (leading : List Char) → (leadingBlank : Bool) → (trailing : List Char) →
    Cursor → Option (List Char × Cursor)
  | 0, _, _, _, _ => none
  | fuel + 1, leading, leadingBlank, trailing, c =>
    if c.column = indent ∧ c.rest ≠ [] then do
      let blank := c.peek?.any isBlank
      let folded := !literal && leading == ['\n'] && !leadingBlank && !blank
      let before := if folded then (if trailing.isEmpty then [' '] else trailing) else leading ++ trailing
      let (line, c) := c.span fun x => !isBreak x
      let leading := c.peek?.toList
      let (trailing, _, c) ← blockGap indent 0 c.next.mark c.next.rest
      let (text, after) ← blockLines literal indent keep fuel leading blank trailing c
      return (before ++ line ++ text, after)
    else some (keep leading trailing, c)

def Chomp.tail (chomp : Chomp) (leading trailing : List Char) : List Char :=
  match chomp with
  | .strip => []
  | .clip => leading
  | .keep => leading ++ trailing

-- The cursor is at the mark of the block, and `parent` is the indentation around it.
def blockScalar (literal : Bool) (parent : Int) (c : Cursor) : Option (List Char × Cursor) := do
  let (header, c) ← blockHeader c.next
  let c := c.skipWhile isBlank
  let c := if c.peek? = some '#' then c.skipWhile fun x => !isBreak x else c
  if !c.atLineEnd then none
  else
    let c := c.next
    let given := header.indent.elim 0 fun n => ((max parent 0) + n).toNat
    let (trailing, widest, c) ← blockGap given 0 c.mark c.rest
    let indent := if given = 0 then max widest (max (parent + 1).toNat 1) else given
    blockLines literal indent header.chomp.tail (c.rest.length + 1) [] false trailing c

end Storyworld.Yaml
