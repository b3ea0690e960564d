import Storyworld.Json.Parser
import Storyworld.Json.Printer
import Storyworld.State

namespace Storyworld

namespace Schema

def writeTraits (traits : Traits) : Fields :=
  [("extensible", .bool traits.extensible), ("recursiveExtensible", .bool traits.recursive)] ++
    (traits.template.map fun t => ("template", t)).toList

mutual

def toFields : Schema → Fields
  | object properties traits =>
    ("type", .str "object") :: ("properties", .obj (propertyFields properties)) :: writeTraits traits
  | array element traits =>
    ("type", .str "array") :: ("elementType", .obj (toFields element)) :: writeTraits traits
  | string => [("type", .str "string")]
  | number => [("type", .str "number")]
  | boolean => [("type", .str "boolean")]
  | any => [("type", .str "any")]

def propertyFields : List (Property Schema) → Fields
  | [] => []
  | ⟨key, required, schema⟩ :: rest =>
    (key, .obj (toFields schema ++ (required.map fun b => ("required", .bool b)).toList)) ::
      propertyFields rest

end

def toTree (s : Schema) : Tree :=
  .obj s.toFields

end Schema

def Flags.toTree (flags : Flags) : Tree :=
  .obj [("strictTemplate", .bool flags.strictTemplate),
    ("concatTemplateArray", .bool flags.concatTemplateArray), ("strictSet", .bool flags.strictSet)]

def RootSchema.toTree (s : RootSchema) : Tree :=
  .obj [("root", s.root.toTree), ("flags", s.flags.toTree)]

def State.toTree (s : State) : Tree :=
  .obj ([("stat_data", s.stat), ("display_data", s.display), ("delta_data", s.delta)] ++
    (s.schema.map fun schema => ("schema", schema.toTree)).toList)

namespace Schema

-- In the order that numbers stand for them.
def kinds : List String :=
  ["object", "array", "string", "number", "boolean", "any"]

-- A node `inside` another may also give the number of its kind.
def kind? (inside : Bool) : Tree → Option String
  | .str name => some name
  | .num (.int n _) => if inside ∧ 0 ≤ n then kinds[n.toNat]? else none
  | _ => none

-- In the order in which a list may give their values.
def places (kind : Option String) : List String :=
  let traits := ["extensible", "recursiveExtensible", "template"]
  if kind = some "object" then "properties" :: traits
  else if kind = some "array" then "elementType" :: traits
  else []

-- The entries of a node's document, those with nodes in them already read.
structure Parts where
  fields : Fields := []
  properties : Option Properties := none
  element : Option Schema := none

namespace Parts

def once? (parts : Parts) (key : String) : Option (Option Tree) :=
  match parts.fields.filter (·.1 = key) with
  | [] => some none
  | [(_, t)] => some (some t)
  | _ => none

def flag? (parts : Parts) (key : String) : Option Bool := do
  match ← parts.once? key with
  | none => some false
  | some t => t.asBool?

def traits? (parts : Parts) : Option Traits := do
  let template ← parts.once? "template"
  return { extensible := ← parts.flag? "extensible"
           recursive := ← parts.flag? "recursiveExtensible"
           template := (template.filter (· ≠ .null)).map Tree.distinct }

def toSchema? (inside : Bool) (parts : Parts) : Option Schema := do
  match (← parts.once? "type").bind (kind? inside) with
  | some "object" =>
    let properties ← match ← parts.once? "properties" with
      | none => some []
      | some _ => parts.properties
    return object properties (← parts.traits?)
  | some "array" =>
    let _ ← ← parts.once? "elementType"
    return array (← parts.element) (← parts.traits?)
  | some "string" => return string
  | some "number" => return number
  | some "boolean" => return boolean
  | some "any" => return any
  | _ => none

-- `null` is as good as none.
def required? (parts : Parts) : Option (Option Bool) := do
  match ← parts.once? "required" with
  | none | some .null => some none
  | some t => t.asBool?.map some

end Parts

mutual

-- A node from a map of its parts, or from a list of its kind and its parts.
def ofTree? (inside : Bool) : Tree → Option Schema
  | .obj fields => (readParts fields).toSchema? inside
  | .arr (kind :: rest) =>
    let names := places (kind? inside kind)
    let parts := readPlaces names rest
    if names.length < rest.length then none
    else { parts with fields := ("type", kind) :: parts.fields }.toSchema? inside
  | _ => none

def readParts : List (String × Tree) → Parts
  | [] => {}
  | (k, v) :: rest =>
    let parts := readParts rest
    { fields := (k, v) :: parts.fields
      properties := if k = "properties" then ofProperties? v else parts.properties
      element := if k = "elementType" then ofTree? true v else parts.element }

def readPlaces (names : List String) : List Tree → Parts
  | [] => {}
  | v :: rest =>
    let k := names.headD ""
    let parts := readPlaces names.tail rest
    { fields := (k, v) :: parts.fields
      properties := if k = "properties" then ofProperties? v else parts.properties
      element := if k = "elementType" then ofTree? true v else parts.element }

def ofProperties? : Tree → Option Properties
  | .obj fields => readProperties? fields
  | _ => none

def readProperties? : List (String × Tree) → Option Properties
  | [] => some []
  | (k, v) :: rest => do
    let properties ← readProperties? rest
    let (schema, required) ← ofProperty? v
    -- Of a repeated key the last entry counts.
    if (properties.find? k).isSome then return properties
    else return properties.insert ⟨k, required, schema⟩

def ofProperty? : Tree → Option (Schema × Option Bool)
  | .obj fields => do
    let parts := readParts fields
    return (← parts.toSchema? true, ← parts.required?)
  | _ => none

end

def ofJson? (text : String) : Option Schema := do
  ofTree? false (← Json.parseVerbatim? text.toList)

end Schema

-- The entries of a document that is a map, or a list of values for at most so many names.
def Tree.entriesNamed? (names : List String) : Tree → Option Fields
  | .obj fields => some fields
  | .arr items => if items.length ≤ names.length then some (names.zip items) else none
  | _ => none

def Flags.ofTree? (t : Tree) : Option Flags := do
  let fields ← t.entriesNamed? ["strictTemplate", "concatTemplateArray", "strictSet"]
  let flag? (key : String) (fallback : Bool) : Option Bool :=
    (fields.get? key).elim (some fallback) Tree.asBool?
  return { strictTemplate := ← flag? "strictTemplate" false
           concatTemplateArray := ← flag? "concatTemplateArray" true
           strictSet := ← flag? "strictSet" false }

def RootSchema.ofTree? (t : Tree) : Option RootSchema := do
  let fields ← t.entriesNamed? ["root", "flags"]
  let root ← Schema.ofTree? false (← fields.get? "root")
  let flags ← (fields.get? "flags").elim (some {}) Flags.ofTree?
  return { root, flags }

def State.ofTree? (t : Tree) : Option State := do
  let tree (key : String) : Tree := (t.field? key).getD .emptyMap
  let schema ← match t.field? "schema" with
    | none | some .null => some none
    | some s => (RootSchema.ofTree? s).map some
  return { stat := tree "stat_data", display := tree "display_data", delta := tree "delta_data", schema }

-- A document if it has a live tree, else a bare live tree.
def State.load? (t : Tree) : Option State :=
  if (t.field? "stat_data").isSome then State.ofTree? t else some (.ofTree t)

end Storyworld
