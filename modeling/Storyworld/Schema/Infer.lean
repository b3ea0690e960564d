import Storyworld.Schema.Basic

/-!
The schema of a tree, read off its shape and its metadata. What an older schema granted stays
granted, and its required flags outlive later changes of the owner.
-/

namespace Storyworld.Schema

-- Nodes other than maps say nothing about a map.
def mapBasis (old : Option Schema) : Properties × Traits :=
  match old with
  | some (object properties traits) => (properties, traits)
  | _ => ([], {})

def listBasis (old : Option Schema) : Option Schema × Traits :=
  match old with
  | some (array element traits) => (some element, traits)
  | _ => (none, {})

def mapTraits (old : Traits) (declared : Meta.Declaration) (inherited : Bool) : Traits where
  extensible := old.extensible || declared.extensible == some true ||
    declared.recursive == some true || inherited
  recursive := old.recursive || declared.recursive == some true
  template := declared.template.or old.template

def listTraits (old : Traits) (declared : Meta.Declaration) (marked inherited : Bool) : Traits where
  extensible := old.extensible || inherited || marked || declared.extensible == some true
  recursive := old.recursive || declared.recursive == some true || inherited
  template := declared.template.or old.template

-- What a map hands down; an explicit `extensible: false` stops the cascade here.
def handedDown (traits : Traits) (declared : Meta.Declaration) (inherited : Bool) : Bool :=
  declared.extensible != some false && (traits.recursive || inherited)

mutual

-- The schema of `t`, on the basis of an `old` one; `inherited` says that a node above hands extensibility
-- down.
def infer (old : Option Schema) (inherited : Bool) : Tree → Schema
  | .arr items =>
    let (element, basis) := listBasis old
    let traits := listTraits basis (Meta.ofList items) (items.any Meta.isMarker) inherited
    array (inferElement element traits.recursive items) traits
  | .obj fields =>
    let (properties, basis) := mapBasis old
    let declared := Meta.ofMap fields
    let traits := mapTraits basis declared inherited
    object (inferProperties properties declared.required traits
      (handedDown traits declared inherited) fields) traits
  | .str _ => string
  | .num _ => number
  | .bool _ => boolean
  | .null => any

-- The schema of the first item that is of the list itself. An emptied list keeps the old one.
def inferElement (old : Option Schema) (inherited : Bool) : List Tree → Schema
  | [] => old.getD any
  | x :: xs => if Meta.isArtifact x then inferElement old inherited xs else infer old inherited x

def inferProperties (old : Properties) (required : List String) (traits : Traits)
    (inherited : Bool) : List (String × Tree) → Properties
  | [] => []
  | (k, v) :: fields =>
    let rest := inferProperties old required traits inherited fields
    if k = Meta.key then rest
    else
      let before := old.find? k
      let flag := (before.bind (·.required)).getD (required.contains k || !traits.extensible)
      Properties.insert ⟨k, some flag, infer (before.map (·.schema)) inherited v⟩ rest

end

end Storyworld.Schema
