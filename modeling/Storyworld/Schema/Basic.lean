import Storyworld.Path.Basic
import Storyworld.Schema.Meta

/-!
Schemas: what is known about the shape of a state, node by node. Map nodes keep their properties
sorted by key.
-/

namespace Storyworld

-- A key of a map node. Without an own flag it is required where its map is closed.
structure Property (σ : Type) where
  key : String
  required : Option Bool
  schema : σ

structure Traits where
  extensible : Bool := false
  -- Extensibility is handed down to everything below.
  recursive : Bool := false
  template : Option Tree := none
deriving DecidableEq

inductive Schema where
  | object (properties : List (Property Schema)) (traits : Traits)
  | array (element : Schema) (traits : Traits)
  | string
  | number
  | boolean
  | any

namespace Schema

abbrev Properties := List (Property Schema)

namespace Properties

def find? (key : String) : Properties → Option (Property Schema)
  | [] => none
  | p :: ps => if p.key = key then some p else find? key ps

def insert (p : Property Schema) : Properties → Properties
  | [] => [p]
  | q :: qs =>
    if p.key = q.key then p :: qs
    else if p.key < q.key then p :: q :: qs
    else q :: insert p qs

def replace (key : String) (schema : Schema) : Properties → Properties
  | [] => []
  | p :: ps => if p.key = key then { p with schema } :: ps else p :: replace key schema ps

end Properties

def traits? : Schema → Option Traits
  | object _ traits | array _ traits => some traits
  | _ => none

def template? (s : Schema) : Option Tree :=
  s.traits?.bind (·.template)

def isRecursive (s : Schema) : Bool :=
  s.traits?.any (·.recursive)

def requires (properties : Properties) (traits : Traits) (key : String) : Bool :=
  (properties.find? key).any fun p => p.required.getD !traits.extensible

def accepts (properties : Properties) (traits : Traits) (key : String) : Bool :=
  traits.extensible || (properties.find? key).isSome

-- All items of a list share one node.
def child? (s : Schema) (step : Segment) : Option Schema :=
  match s with
  | array element _ => step.index?.map fun _ => element
  | object properties _ => (Properties.find? step.name properties).map (·.schema)
  | _ => none

def get? (s : Schema) : Path → Option Schema
  | [] => some s
  | step :: rest => do (← s.child? step).get? rest

def replaceChild (s : Schema) (step : Segment) (c : Schema) : Schema :=
  match s with
  | array element traits => if step.index?.isSome then array c traits else array element traits
  | object properties traits => object (Properties.replace step.name c properties) traits
  | s => s

def update? : (s : Schema) → (path : Path) → (f : Schema → Schema) → Option Schema
  | s, [], f => some (f s)
  | s, step :: rest, f => do
    let c ← (← s.child? step).update? rest f
    return s.replaceChild step c

-- Required where the map is closed.
def addProperty (key : String) (schema : Schema) : Schema → Schema
  | object properties traits =>
    object (Properties.insert ⟨key, some !traits.extensible, schema⟩ properties) traits
  | s => s

-- Whether a node strictly above `path` hands extensibility down.
def handsDown : (s : Schema) → (path : Path) → Bool
  | _, [] => false
  | s, step :: rest => s.isRecursive || (s.child? step).any (·.handsDown rest)

end Schema

end Storyworld
