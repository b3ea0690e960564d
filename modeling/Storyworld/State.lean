import Storyworld.Tree.Access
import Storyworld.Schema.Infer

/-!
The state that a host keeps: the live tree, the two views of the last batch, and the schema with its
flags.
-/

namespace Storyworld

structure Flags where
  -- A value is never wrapped to fit a list template.
  strictTemplate : Bool := false
  -- A list template comes behind the items, not under them.
  concatTemplateArray : Bool := true
  -- `set` replaces an annotated value together with its description.
  strictSet : Bool := false
deriving DecidableEq

namespace Flags

def overlay (flags : Flags) (stat : Tree) : Flags :=
  let declared (name : String) (fallback : Bool) : Bool :=
    (((stat.field? Meta.key).bind (·.field? name)).bind Tree.asBool?).getD fallback
  { strictTemplate := declared "strictTemplate" flags.strictTemplate
    concatTemplateArray := declared "concatTemplateArray" flags.concatTemplateArray
    strictSet := declared "strictSet" flags.strictSet }

end Flags

structure RootSchema where
  root : Schema
  flags : Flags := {}

structure State where
  stat : Tree := .emptyMap
  -- The tree before the last batch, with the account of each change in its place.
  display : Tree := .emptyMap
  -- The accounts alone.
  delta : Tree := .emptyMap
  schema : Option RootSchema := none

namespace State

def ofTree (stat : Tree) : State where
  stat
  display := stat

-- The flags of the next batch before the tree's own declarations.
def flagsOr (s : State) (defaults : Flags) : Flags :=
  s.schema.elim defaults (·.flags)

def schemaAt? (s : State) (path : Path) : Option Schema :=
  s.schema.bind (·.root.get? path)

-- The schema read off the live tree anew, on the basis of the one before.
def reconcile (s : State) (defaults : Flags) : State :=
  let root := Schema.infer (s.schema.map (·.root)) false s.stat
  { s with schema := some ⟨root, (s.flagsOr defaults).overlay s.stat⟩ }

-- The schema read off anew below `container` only, without a schema all of it.
def refreshSchema (s : State) (container : Path) (defaults : Flags) : State :=
  match s.schema with
  | none => s.reconcile defaults
  | some schema => match s.stat.get? container with
    | none => s
    | some data =>
      let inherited := schema.root.handsDown container
      let withRoot (root : Schema) : State := { s with schema := some { schema with root } }
      match schema.root.update? container fun node => .infer (some node) inherited data with
      | some root => withRoot root
      | none =>
        -- The container itself is new: it becomes a property of the map above it.
        match container.getLast? with
        | some (.key k) =>
          let hang := Schema.addProperty k (Schema.infer none inherited data)
          (schema.root.update? container.dropLast hang).elim s withRoot
        | _ => s

end State

end Storyworld
