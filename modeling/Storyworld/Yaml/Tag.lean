import Storyworld.Decimal.Text
import Storyworld.Yaml.Cursor
import Storyworld.Yaml.Token

namespace Storyworld.Yaml

def anchorName (c : Cursor) : Option (String × Cursor) :=
  let (name, c) := c.span isWord
  let ended := c.peek?.all fun x => isGap x || "?:,]\x7d%@`".contains x
  if name.isEmpty || !ended then none else some (.ofList name, c)

-- The characters of a tag; some more are allowed between angle brackets.
def isTagChar (verbatim : Bool) (c : Char) : Bool :=
  isWord c || ";/?:@&=+$.%!~*'()".contains c || (verbatim && (c == ',' || c == '[' || c == ']'))

def escapedByte? : List Char → Option UInt8
  | '%' :: a :: b :: _ => do
    return .ofNat (16 * (← Decimal.digitValue? a) + (← Decimal.digitValue? b))
  | _ => none

-- How many bytes a character has that starts with this one.
def widthOf? (b : UInt8) : Option Nat :=
  if b < 0x80 then some 1
  else if b &&& 0xE0 = 0xC0 then some 2
  else if b &&& 0xF0 = 0xE0 then some 3
  else if b &&& 0xF8 = 0xF0 then some 4
  else none

def escapedChar (s : List Char) : Option (List Char × Nat) := do
  let first ← escapedByte? s
  let width ← widthOf? first
  let more ← (List.range (width - 1)).mapM fun i => do
    let b ← escapedByte? (s.drop (3 * (i + 1)))
    if b &&& 0xC0 = 0x80 then some b else none
  let text := (String.fromUTF8? ⟨(first :: more).toArray⟩).getD "\uFFFD"
  return (text.toList, 3 * width)

def tagChars (verbatim : Bool) : (fuel : Nat) → Cursor → Option (List Char × Cursor)
  | 0, c => some ([], c)
  | fuel + 1, c => match c.peek? with
    | some '%' => do
      let (text, length) ← escapedChar c.rest
      let (rest, c) ← tagChars verbatim fuel (c.skip length)
      return (text ++ rest, c)
    | some x =>
      if isTagChar verbatim x then do
        let (rest, c) ← tagChars verbatim fuel c.next
        return (x :: rest, c)
      else some ([], c)
    | none => some ([], c)

-- The text of a tag behind what has been read of it; both together must not be empty.
def tagText (verbatim : Bool) (before : List Char) (c : Cursor) : Option (String × Cursor) := do
  let (text, c') ← tagChars verbatim c.rest.length c
  if before.isEmpty && text.isEmpty then none else some (.ofList (before.drop 1 ++ text), c')

-- `!`, word characters and, if it is there, another `!`.
def tagHandle (c : Cursor) : Option (List Char × Cursor) :=
  if c.peek? = some '!' then
    let (name, c) := c.next.span isWord
    if c.peek? = some '!' then some ('!' :: name ++ ['!'], c.next) else some ('!' :: name, c)
  else none

def isHandle (s : List Char) : Bool :=
  1 < s.length && s.getLast? == some '!'

-- The cursor is at the `!` of the tag.
def tag (flow : Bool) (c : Cursor) : Option (Token × Cursor) := do
  let (handle, suffix, c) ← if c.next.peek? = some '<' then do
      let (suffix, c) ← tagText true [] (c.skip 2)
      if c.peek? = some '>' then some ("", suffix, c.next) else none
    else do
      let (handle, c) ← tagHandle c
      if isHandle handle then
        let (suffix, c) ← tagText false [] c
        pure (String.ofList handle, suffix, c)
      else
        let (suffix, c) ← tagText false handle c
        if suffix.isEmpty then pure ("", "!", c) else pure ("!", suffix, c)
  if c.atGap || (flow && c.peek? = some ',') then some (.tag handle suffix, c) else none

-- A number of at most nine digits.
def versionNumber (c : Cursor) : Option (Nat × Cursor) :=
  let (digits, c) := c.span Char.isDigit
  if digits.isEmpty || 9 < digits.length then none else some (Decimal.natOfDigits digits, c)

def versionDirective (c : Cursor) : Option (Token × Cursor) := do
  let (major, c) ← versionNumber (c.skipWhile isBlank)
  if c.peek? = some '.' then
    let (minor, c) ← versionNumber c.next
    return (.versionDirective major minor, c)
  else none

def tagDirective (c : Cursor) : Option (Token × Cursor) := do
  let (handle, c) ← tagHandle (c.skipWhile isBlank)
  if (isHandle handle || handle == ['!']) && c.peek?.any isBlank then
    let (start, c) ← tagText true [] (c.skipWhile isBlank)
    if c.atGap then some (.tagDirective (.ofList handle) start, c) else none
  else none

def directive (c : Cursor) : Option (Token × Cursor) := do
  let (name, c) := c.next.span isWord
  if name.isEmpty || !c.atGap then none
  else
    let (token, c) ← if name = ['Y', 'A', 'M', 'L'] then versionDirective c
      else if name = ['T', 'A', 'G'] then tagDirective c
      else none
    let c := c.skipWhile isBlank
    let c := if c.peek? = some '#' then c.skipWhile fun x => !isBreak x else c
    if c.atLineEnd then some (token, c.next) else none

end Storyworld.Yaml
