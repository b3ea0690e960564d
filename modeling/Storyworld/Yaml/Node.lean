import Storyworld.Yaml.Token

/-!
The structure of a YAML document: scalars, lists and maps, with tags, and aliases for nodes that
have been given an anchor before.
-/

namespace Storyworld.Yaml

inductive Node where
  | scalar (tag : Option String) (text : String) (plain : Bool)
  | list (tag : Option String) (items : List Node)
  | map (tag : Option String) (entries : List (Node × Node))
  | reference (id : Nat)

namespace Node

instance : Inhabited Node := ⟨reference 0⟩

def empty : Node :=
  scalar none "" true

end Node

-- The anchors of a document. A name stands for a number, which is how many names there were when it was
-- last given, and the number for the node that got it last.
structure Anchors where
  ids : List (String × Nat) := []
  started : Nat := 0
  -- Which of these nodes a number stands for, the last one first.
  holders : List (Nat × Nat) := []
  nodes : List (Nat × Node) := []
  events : Nat := 0

namespace Anchors

def setId (name : String) (id : Nat) : List (String × Nat) → List (String × Nat)
  | [] => [(name, id)]
  | (n, i) :: ids => if n = name then (n, id) :: ids else (n, i) :: setId name id ids

-- A node with that anchor starts; also its place among all such nodes.
def start (name : String) (a : Anchors) : Nat × Anchors :=
  let id := a.ids.length
  (a.started, { a with
    ids := setId name id a.ids
    started := a.started + 1
    holders := (id, a.started) :: a.holders })

def start? (name? : Option String) (a : Anchors) : Option Nat × Anchors :=
  match name? with
  | none => (none, a)
  | some name =>
    let (place, a) := a.start name
    (some place, a)

def finish (place? : Option Nat) (n : Node) (a : Anchors) : Anchors :=
  match place? with
  | none => a
  | some place => { a with nodes := (place, n) :: a.nodes }

def count (events : Nat) (a : Anchors) : Anchors :=
  { a with events := a.events + events }

def node? (a : Anchors) (id : Nat) : Option Node := do
  a.nodes.lookup (← a.holders.lookup id)

end Anchors

abbrev Handles := List (String × String)

structure Reading where
  tokens : List Token
  anchors : Anchors := {}

structure Properties where
  anchor : Option String := none
  tag : Option (String × String) := none

def readProperties : List Token → Properties × List Token
  | .anchor name :: .tag handle suffix :: ts => (⟨some name, some (handle, suffix)⟩, ts)
  | .tag handle suffix :: .anchor name :: ts => (⟨some name, some (handle, suffix)⟩, ts)
  | .anchor name :: ts => (⟨some name, none⟩, ts)
  | .tag handle suffix :: ts => (⟨none, some (handle, suffix)⟩, ts)
  | ts => ({}, ts)

-- The full text of a tag. Without a handle it is complete as it stands.
def resolveTag? (handles : Handles) : Option (String × String) → Option (Option String)
  | none => some none
  | some (handle, suffix) =>
    if handle = "" then some (some suffix)
    else (handles.lookup handle).map fun start => some (start ++ suffix)

-- In which surroundings a node stands: in a block, or in flow; `loose` if a list may start there without
-- any further indentation.
structure Place where
  block : Bool
  loose : Bool

-- Leaves a value out before one of these tokens.
def isLeftOut (ends : List Token) : List Token → Bool
  | [] => true
  | t :: _ => ends.contains t

mutual

def node? (handles : Handles) (place : Place) : (fuel : Nat) → Reading → Option (Node × Reading)
  | 0, _ => none
  | fuel + 1, r => match r.tokens with
    | .reference name :: ts => do
      let id ← r.anchors.ids.lookup name
      return (.reference id, ⟨ts, r.anchors.count 1⟩)
    | ts => do
      let (properties, ts) := readProperties ts
      let tag ← resolveTag? handles properties.tag
      let (at?, anchors) := r.anchors.start? properties.anchor
      let finish (n : Node) (events : Nat) (r : Reading) : Node × Reading :=
        (n, ⟨r.tokens, (r.anchors.count events).finish at? n⟩)
      match ts with
      | .scalar text plain :: ts =>
        let n := .scalar (tag.filter (· != "!")) text plain
        return finish n 1 ⟨ts, anchors⟩
      | .openBracket :: ts =>
        let (items, r) ← flowItems? handles true fuel ⟨ts, anchors⟩
        return finish (.list tag items) 2 r
      | .openBrace :: ts =>
        let (entries, r) ← flowEntries? handles true fuel ⟨ts, anchors⟩
        return finish (.map tag entries) 2 r
      | .dash :: _ =>
        if place.loose then
          let (items, r) ← looseItems? handles fuel ⟨ts, anchors⟩
          return finish (.list tag items) 2 r
        else if properties.anchor.isSome || tag.isSome then
          return finish (.scalar tag "" true) 1 ⟨ts, anchors⟩
        else none
      | .blockList :: rest =>
        if place.block then
          let (items, r) ← blockItems? handles fuel ⟨rest, anchors⟩
          return finish (.list tag items) 2 r
        else if properties.anchor.isSome || tag.isSome then
          return finish (.scalar tag "" true) 1 ⟨ts, anchors⟩
        else none
      | .blockMap :: rest =>
        if place.block then
          let (entries, r) ← blockEntries? handles fuel ⟨rest, anchors⟩
          return finish (.map tag entries) 2 r
        else if properties.anchor.isSome || tag.isSome then
          return finish (.scalar tag "" true) 1 ⟨ts, anchors⟩
        else none
      | ts =>
        if properties.anchor.isSome || tag.isSome then
          return finish (.scalar tag "" true) 1 ⟨ts, anchors⟩
        else none

def optional? (handles : Handles) (place : Place) (ends : List Token) :
    (fuel : Nat) → Reading → Option (Node × Reading)
  | 0, _ => none
  | fuel + 1, r =>
    if isLeftOut ends r.tokens then some (.empty, { r with anchors := r.anchors.count 1 })
    else node? handles place fuel r

def blockItems? (handles : Handles) : (fuel : Nat) → Reading → Option (List Node × Reading)
  | 0, _ => none
  | fuel + 1, r => match r.tokens with
    | .dash :: ts => do
      let (x, r) ← optional? handles ⟨true, false⟩ [.dash, .blockEnd] fuel { r with tokens := ts }
      let (xs, r) ← blockItems? handles fuel r
      return (x :: xs, r)
    | .blockEnd :: ts => some ([], { r with tokens := ts })
    | _ => none

-- The items of a list that is indented like the map around it.
def looseItems? (handles : Handles) : (fuel : Nat) → Reading → Option (List Node × Reading)
  | 0, _ => none
  | fuel + 1, r => match r.tokens with
    | .dash :: ts => do
      let (x, r) ← optional? handles ⟨true, false⟩ [.dash, .key, .value, .blockEnd] fuel
        { r with tokens := ts }
      let (xs, r) ← looseItems? handles fuel r
      return (x :: xs, r)
    | _ => some ([], r)

-- The value behind a colon; without a colon there is none.
def blockValue? (handles : Handles) : (fuel : Nat) → Reading → Option (Node × Reading)
  | 0, _ => none
  | fuel + 1, r => match r.tokens with
    | .value :: ts =>
      optional? handles ⟨true, true⟩ [.key, .value, .blockEnd] fuel { r with tokens := ts }
    | _ => some (.empty, { r with anchors := r.anchors.count 1 })

def blockEntries? (handles : Handles) :
    (fuel : Nat) → Reading → Option (List (Node × Node) × Reading)
  | 0, _ => none
  | fuel + 1, r => match r.tokens with
    | .key :: ts => do
      let (k, r) ← optional? handles ⟨true, true⟩ [.key, .value, .blockEnd] fuel
        { r with tokens := ts }
      let (v, r) ← blockValue? handles fuel r
      let (rest, r) ← blockEntries? handles fuel r
      return ((k, v) :: rest, r)
    | .blockEnd :: ts => some ([], { r with tokens := ts })
    | _ => none

-- The items of a list in brackets; `first` if none has been read.
def flowItems? (handles : Handles) (first : Bool) :
    (fuel : Nat) → Reading → Option (List Node × Reading)
  | 0, _ => none
  | fuel + 1, r => match r.tokens with
    | .closeBracket :: ts => some ([], { r with tokens := ts })
    | ts => do
      let ts ← match first, ts with
        | true, ts => some ts
        | false, .comma :: ts => some ts
        | false, _ => none
      match ts with
      | .closeBracket :: ts => return ([], { r with tokens := ts })
      | .key :: ts =>
        let (pair, r) ← flowPair? handles fuel { r with tokens := ts }
        let (xs, r) ← flowItems? handles false fuel r
        return (pair :: xs, r)
      | ts =>
        let (x, r) ← node? handles ⟨false, false⟩ fuel { r with tokens := ts }
        let (xs, r) ← flowItems? handles false fuel r
        return (x :: xs, r)

-- A map of one entry without braces.
def flowPair? (handles : Handles) : (fuel : Nat) → Reading → Option (Node × Reading)
  | 0, _ => none
  | fuel + 1, r => do
    let (k, r) ← if isLeftOut [.value, .comma, .closeBracket] r.tokens then
        -- The token behind a key that is left out is passed over.
        some (.empty, ⟨r.tokens.tail, r.anchors.count 1⟩)
      else node? handles ⟨false, false⟩ fuel r
    let (v, r) ← flowValue? handles [.comma, .closeBracket] fuel r
    return (.map none [(k, v)], { r with anchors := r.anchors.count 2 })

def flowValue? (handles : Handles) (ends : List Token) :
    (fuel : Nat) → Reading → Option (Node × Reading)
  | 0, _ => none
  | fuel + 1, r => match r.tokens with
    | .value :: ts => optional? handles ⟨false, false⟩ ends fuel { r with tokens := ts }
    | _ => some (.empty, { r with anchors := r.anchors.count 1 })

def flowEntries? (handles : Handles) (first : Bool) :
    (fuel : Nat) → Reading → Option (List (Node × Node) × Reading)
  | 0, _ => none
  | fuel + 1, r => match r.tokens with
    | .closeBrace :: ts => some ([], { r with tokens := ts })
    | ts => do
      let ts ← match first, ts with
        | true, ts => some ts
        | false, .comma :: ts => some ts
        | false, _ => none
      match ts with
      | .closeBrace :: ts => return ([], { r with tokens := ts })
      | .key :: ts =>
        let (k, r) ← optional? handles ⟨false, false⟩ [.value, .comma, .closeBrace] fuel
          { r with tokens := ts }
        let (v, r) ← flowValue? handles [.comma, .closeBrace] fuel r
        let (rest, r) ← flowEntries? handles false fuel r
        return ((k, v) :: rest, r)
      | ts =>
        let (k, r) ← node? handles ⟨false, false⟩ fuel { r with tokens := ts }
        let r := { r with anchors := r.anchors.count 1 }
        let (rest, r) ← flowEntries? handles false fuel r
        return ((k, .empty) :: rest, r)

end

def defaultHandles : Handles :=
  [("!", "!"), ("!!", "tag:yaml.org,2002:")]

-- The directives of a document: at most one about the version, and one for each handle.
def readDirectives? (version : Bool) (handles : Handles) :
    List Token → Option (Bool × Handles × List Token)
  | .versionDirective major minor :: ts =>
    if version || major != 1 || !(minor == 1 || minor == 2) then none
    else readDirectives? true handles ts
  | .tagDirective handle start :: ts =>
    if (handles.lookup handle).isSome then none
    else readDirectives? version ((handle, start) :: handles) ts
  | ts => some (version || !handles.isEmpty, handles, ts)

structure Document where
  root : Node
  anchors : Anchors

-- A text without any document has an empty one.
def document? (tokens : List Token) : Option Document := do
  if tokens = [.textEnd] then return ⟨.empty, ({} : Anchors).count 1⟩
  let (directives, own, ts) ← readDirectives? false [] tokens
  let handles := own ++ defaultHandles
  let fuel := 4 * tokens.length + 8
  let (root, r) ← match ts with
    | .documentStart :: ts =>
      optional? handles ⟨true, false⟩ [.documentStart, .documentEnd, .textEnd] fuel { tokens := ts }
    | ts => if directives then none else node? handles ⟨true, false⟩ fuel { tokens := ts }
  match r.tokens.dropWhile (· == .documentEnd) with
  | [.textEnd] => return ⟨root, r.anchors⟩
  | _ => none

end Storyworld.Yaml
