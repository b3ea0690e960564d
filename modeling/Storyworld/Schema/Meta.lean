import Storyworld.Tree.Basic

/-!
Metadata that a state carries about itself until its schema has been read off: `$meta` entries of
maps, and in lists the extensible marker and `$arrayMeta` sentinels. `clean` takes it all away.
-/

namespace Storyworld

namespace Meta

def key : String := "$meta"

-- The item that makes its list extensible.
def marker : String := "$__META_EXTENSIBLE__$"

-- The flag of an item that carries its list's metadata.
def sentinelKey : String := "$arrayMeta"

def isMarker : Tree → Bool
  | .str s => s == marker
  | _ => false

def isSentinel (t : Tree) : Bool :=
  (t.field? sentinelKey).bind Tree.asBool? == some true

-- An item that is about its list and not of it.
def isArtifact (t : Tree) : Bool :=
  isMarker t || isSentinel t

mutual

def clean : Tree → Tree
  | .arr items => .arr (cleanItems items)
  | .obj fields => .obj (cleanFields fields)
  | .null => .null
  | .bool b => .bool b
  | .num n => .num n
  | .str s => .str s

def cleanItems : List Tree → List Tree
  | [] => []
  | x :: xs => if isArtifact x then cleanItems xs else clean x :: cleanItems xs

def cleanFields : List (String × Tree) → List (String × Tree)
  | [] => []
  | (k, v) :: fields => if k = key then cleanFields fields else (k, clean v) :: cleanFields fields

end

structure Declaration where
  extensible : Option Bool := none
  recursive : Option Bool := none
  template : Option Tree := none
  required : List String := []

def Declaration.ofFields (fields : Fields) : Declaration where
  extensible := (fields.get? "extensible").bind Tree.asBool?
  recursive := (fields.get? "recursiveExtensible").bind Tree.asBool?
  template := fields.get? "template"
  required := ((fields.get? "required").bind Tree.asItems?).elim [] (·.filterMap Tree.asString?)

def ofMap (fields : Fields) : Declaration :=
  ((fields.get? key).bind Tree.asFields?).elim {} .ofFields

-- The metadata of a list: that of its last sentinel which carries a map.
def ofList (items : List Tree) : Declaration :=
  let carried := (items.filter isSentinel).filterMap fun x => (x.field? key).bind Tree.asFields?
  carried.getLast?.elim {} .ofFields

end Meta

end Storyworld
