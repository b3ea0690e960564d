import Storyworld.Formula.Eval
import Storyworld.Json.Parser
import Storyworld.Literal.Parser
import Storyworld.Yaml.Value

/-!
What an argument of a command stands for. A value is, in this order, a keyword, JSON, a map or list
as a literal, the value of a formula, YAML, or else the text itself. A path is always a text.
-/

namespace Storyworld.Argument

def keyword? (text : String) : Option Tree :=
  if text = "true" then some (.bool true)
  else if text = "false" then some (.bool false)
  else if text = "null" ∨ text = "undefined" then some .null
  else none

def container? (text : String) : Option Tree :=
  match Literal.parse text with
  | .ok t => if t.isComposite then some t else none
  | .error _ => none

-- A number that no state can hold counts as none.
def ofQuantity? : Quantity → Option Tree
  | .number x => (Number.ofFloat? (Decimal.settle x)).map .num
  | q => some (.str q.display)

def isText : Formula → Bool
  | .text _ => true
  | _ => false

-- A text in quotes is none. The dice are used even where no value comes out.
def formula? (text : String) (dice : Dice) : Option Tree × Dice :=
  match Formula.parse text with
  | .error _ => (none, dice)
  | .ok e =>
    if isText e then (none, dice)
    else match (Formula.eval e).run dice with
      | (.ok q, dice) => (ofQuantity? q, dice)
      | (.error _, dice) => (none, dice)

def isWrapper (c : Char) : Bool :=
  c == '\'' || c == '"' || c == '\x60' || c == '\\'

-- Without one quote or backslash at each end.
def unwrapped (s : List Char) : List Char :=
  let s := if s.head?.any isWrapper then s.tail else s
  if s.getLast?.any isWrapper then s.dropLast else s

def value (raw : String) (dice : Dice) : Tree × Dice :=
  let text := Text.stripped raw
  match ((keyword? text).or (Tree.ofJson? text)).or (container? text) with
  | some t => (t, dice)
  | none =>
    let (t?, dice) := formula? text dice
    ((t?.or (Yaml.parse? text.toList)).getD (.str (.ofList (unwrapped text.toList))), dice)

def literalString? (text : String) : Option String :=
  match Literal.parse text with
  | .ok t => t.asString?
  | .error _ => none

def pathText (raw : String) : String :=
  let text := Text.trim raw.toList
  let quoted := text.head?.any fun c => c == '\'' || c == '\x60'
  match (Json.parseString? text).or (if quoted then literalString? (.ofList text) else none) with
  | some path => path
  | none => .ofList (unwrapped text)

end Storyworld.Argument
