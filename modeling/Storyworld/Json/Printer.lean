import Storyworld.Tree.Basic

/-!
Trees as JSON text: compact, without any blank, and indented by two blanks a level.
-/

namespace Storyworld.Json

def hexDigits (width n : Nat) : List Char :=
  let digits := Nat.toDigits 16 n
  List.replicate (width - digits.length) '0' ++ digits

def escapeChar (c : Char) : List Char :=
  if c == '"' then ['\\', '"']
  else if c == '\\' then ['\\', '\\']
  else if c == '\n' then ['\\', 'n']
  else if c == '\r' then ['\\', 'r']
  else if c == '\t' then ['\\', 't']
  else if c.toNat == 8 then ['\\', 'b']
  else if c.toNat == 12 then ['\\', 'f']
  else if c.toNat < 32 then '\\' :: 'u' :: hexDigits 4 c.toNat
  else [c]

def writeString (s : String) : List Char :=
  '"' :: (s.toList.flatMap escapeChar ++ ['"'])

mutual

def write : Tree → List Char
  | .null => ['n', 'u', 'l', 'l']
  | .bool true => ['t', 'r', 'u', 'e']
  | .bool false => ['f', 'a', 'l', 's', 'e']
  | .num n => n.write.toList
  | .str s => writeString s
  | .arr items => '[' :: (writeItems items ++ [']'])
  | .obj fields => '{' :: (writeFields fields ++ ['}'])

def writeItems : List Tree → List Char
  | [] => []
  | x :: xs => write x ++ moreItems xs

def moreItems : List Tree → List Char
  | [] => []
  | x :: xs => ',' :: (write x ++ moreItems xs)

def writeFields : List (String × Tree) → List Char
  | [] => []
  | (k, v) :: fields => writeString k ++ ':' :: (write v ++ moreFields fields)

def moreFields : List (String × Tree) → List Char
  | [] => []
  | (k, v) :: fields => ',' :: (writeString k ++ ':' :: (write v ++ moreFields fields))

end

def lineBreak (level : Nat) : List Char :=
  '\n' :: List.replicate (2 * level) ' '

mutual

def writeIndented (level : Nat) : Tree → List Char
  | .arr [] => ['[', ']']
  | .arr (x :: xs) =>
    '[' :: (lineBreak (level + 1) ++ writeIndented (level + 1) x ++ indentedItems (level + 1) xs ++
      lineBreak level ++ [']'])
  | .obj [] => ['{', '}']
  | .obj ((k, v) :: fields) =>
    '{' :: (lineBreak (level + 1) ++ writeString k ++ ':' :: ' ' :: writeIndented (level + 1) v ++
      indentedFields (level + 1) fields ++ lineBreak level ++ ['}'])
  | .null => write .null
  | .bool b => write (.bool b)
  | .num n => write (.num n)
  | .str s => write (.str s)

def indentedItems (level : Nat) : List Tree → List Char
  | [] => []
  | x :: xs => ',' :: (lineBreak level ++ writeIndented level x ++ indentedItems level xs)

def indentedFields (level : Nat) : List (String × Tree) → List Char
  | [] => []
  | (k, v) :: fields =>
    ',' :: (lineBreak level ++ writeString k ++ ':' :: ' ' :: writeIndented level v ++
      indentedFields level fields)

end

end Storyworld.Json

namespace Storyworld.Tree

def toJson (t : Tree) : String :=
  .ofList (Json.write t)

def toIndentedJson (t : Tree) : String :=
  .ofList (Json.writeIndented 0 t)

-- How a value appears in the account of a change: text raw, small integers bare.
def display : Tree → String
  | str s => s
  | num n => n.display
  | t => t.toJson

end Storyworld.Tree
