import Storyworld.Tree.Basic
import Storyworld.Yaml.Lexer
import Storyworld.Yaml.Node

/-!
YAML documents as trees. A plain scalar is what it looks like; one in quotes, a block of lines and
one with a tag of its own are texts.
-/

namespace Storyworld.Yaml

def isNull (s : String) : Bool :=
  s == "null" || s == "Null" || s == "NULL" || s == "~"

def bool? (s : String) : Option Bool :=
  if s = "true" ∨ s = "True" ∨ s = "TRUE" then some true
  else if s = "false" ∨ s = "False" ∨ s = "FALSE" then some false
  else none

-- Digits that are no number since they start with a zero.
def isPadded (s : List Char) : Bool :=
  match (Decimal.splitSign s).2 with
  | '0' :: d :: digits => (d :: digits).all Char.isDigit
  | _ => false

def unsigned? (base : Nat) (s : List Char) : Option Nat :=
  if s.head? = some '+' then none else Decimal.readNat? base s

def based? : List Char → Option Nat
  | '0' :: 'x' :: s => unsigned? 16 s
  | '0' :: 'o' :: s => unsigned? 8 s
  | '0' :: 'b' :: s => unsigned? 2 s
  | _ => none

def natural? (s : List Char) : Option Nat :=
  match based? s with
  | some n => some n
  | none => unsigned? 10 s

-- An integer that fits into `bits` bits, signed if it is negative.
def integer? (bits : Nat) (s : List Char) : Option Int :=
  let fits (n : Int) : Bool := -(twoTo (bits - 1) : Int) ≤ n && n < twoTo bits
  let n? : Option Int := if isPadded s then none else match s with
    | '-' :: s => (natural? s).map fun n => -(n : Int)
    | '+' :: s => (natural? s).map fun n => (n : Int)
    | s => (natural? s).map fun n => (n : Int)
  n?.filter fits

-- A float; what is not finite has no number.
def float? (s : List Char) : Option Tree :=
  let unsigned := match s with
    | '+' :: r => r
    | _ => s
  let negative := match s with
    | '-' :: r => r
    | _ => unsigned
  let word := String.ofList negative
  if word = ".inf" ∨ word = ".Inf" ∨ word = ".INF" then some .null
  else if s = ".nan".toList ∨ s = ".NaN".toList ∨ s = ".NAN".toList then some .null
  else if s.head? = some '+' ∧ (unsigned.head? = some '+' ∨ unsigned.head? = some '-') then none
  else do
    let x ← Decimal.readFloat? unsigned
    if h : x.isFinite = true then return .num (.float x h) else none

-- The integer that a scalar is, if it looks like one; `none` inside for one that no number of the state
-- can be.
def integerTree? (s : List Char) : Option (Option Tree) :=
  match integer? 64 s with
  | some n => some ((Number.ofInt? n).map .num)
  | none => (integer? 128 s).map fun _ => none

def plainTree? (text : String) : Option Tree :=
  let s := text.toList
  if s.isEmpty || isNull text then some .null
  else match bool? text with
    | some b => some (.bool b)
    | none => match integerTree? s with
      | some t? => t?
      | none => match if isPadded s then none else float? s with
        | some t => some t
        | none => some (.str text)

def coreTag (name : String) : String :=
  "tag:yaml.org,2002:" ++ name

-- A tag of the text's own, which says nothing here.
def isLocal (tag : Option String) : Bool :=
  tag.any fun t => t.toList.head? == some '!'

def scalarTree? (tag : Option String) (text : String) (plain : Bool) : Option Tree :=
  match tag with
  | none => if plain then plainTree? text else some (.str text)
  | some t =>
    if isLocal tag then none
    else if t = coreTag "bool" then (bool? text).map .bool
    else if t = coreTag "int" then (integerTree? text.toList).join
    else if t = coreTag "float" then float? text.toList
    else if t = coreTag "null" then (if isNull text then some .null else none)
    else some (.str text)

def maxNesting : Nat := 128

-- How often aliases may be followed, for every start and end of a node.
def aliasLimit : Nat := 100

abbrev Count (α : Type) := StateT Nat Option α

def follow (anchors : Anchors) : Node → Count Node
  | .reference id => do
    modify (· + 1)
    if aliasLimit * anchors.events < (← get) then failure
    else (anchors.node? id).elim failure pure
  | n => pure n

-- A key is the text of a scalar, whatever it looks like.
def keyText (anchors : Anchors) (n : Node) : Count String := do
  match ← follow anchors n with
  | .scalar _ text _ => return text
  | _ => failure

def tree (anchors : Anchors) : (room : Nat) → Node → Count Tree
  | room, n => do
    match ← follow anchors n with
    | .scalar tag text plain => (scalarTree? tag text plain).elim failure pure
    | .list tag items => match room with
      | 0 => failure
      | room + 1 => if isLocal tag then failure else return .arr (← items.mapM (tree anchors room))
    | .map tag entries => match room with
      | 0 => failure
      | room + 1 =>
        if isLocal tag then failure
        else
          let fields ← entries.mapM fun (k, v) => do
            return (← keyText anchors k, ← tree anchors room v)
          return .obj (Fields.ofList fields)
    | .reference _ => failure

def parse? (text : List Char) : Option Tree := do
  let d ← document? (← tokens? text)
  (tree d.anchors maxNesting d.root).run' 0

end Storyworld.Yaml
