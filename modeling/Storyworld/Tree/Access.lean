import Storyworld.Path.Basic

/-!
Reading and writing a tree at a path: `get?`, `set`, `unset`, and the overlay `merge` of one tree on
another.
-/

namespace Storyworld.Tree

def child? (t : Tree) (step : Segment) : Option Tree :=
  match t with
  | obj fields => Fields.get? step.name fields
  | arr items => step.index? >>= (items[·]?)
  | _ => none

def get? (t : Tree) : Path → Option Tree
  | [] => some t
  | step :: rest => do (← t.child? step).get? rest

def has (t : Tree) (path : Path) : Bool :=
  (t.get? path).isSome

-- Nulls fill the list up to the item.
def alterItem (i : Nat) (f : Option Tree → Tree) : List Tree → List Tree
  | [] => List.replicate i null ++ [f none]
  | x :: xs => match i with
    | 0 => f (some x) :: xs
    | i + 1 => x :: alterItem i f xs

def set : (t : Tree) → (path : Path) → (v : Tree) → Tree
  | _, [], v => v
  | t, step :: rest, v =>
    let below (old : Option Tree) := set (old.getD null) rest v
    match t, step.index? with
    | arr items, some i => arr (alterItem i below items)
    | obj fields, _ => obj (Fields.alter step.name below fields)
    -- What the step cannot enter is replaced: by a list for a position, else by a map.
    | _, _ => match step with
      | .index i => arr (List.replicate i null ++ [below none])
      | .key k => obj [(k, below none)]

def detach? (t : Tree) (step : Segment) : Option (Tree × Tree) :=
  match t with
  | obj fields => (Fields.get? step.name fields).map (·, obj (Fields.erase step.name fields))
  | arr items => do
    let i ← step.index?
    let x ← items[i]?
    return (x, arr (items.eraseIdx i))
  | _ => none

def replaceChild (t : Tree) (step : Segment) (c : Tree) : Tree :=
  match t with
  | obj fields => obj (Fields.put step.name c fields)
  | arr items => match step.index? with
    | some i => arr (items.set i c)
    | none => t
  | _ => t

-- What stood at `path`, and the tree without it; later items of a list move up.
def unset? : (t : Tree) → (path : Path) → Option (Tree × Tree)
  | _, [] => none
  | t, [step] => t.detach? step
  | t, step :: rest => do
    let (removed, c) ← (← t.child? step).unset? rest
    return (removed, t.replaceChild step c)

def update? : (t : Tree) → (path : Path) → (f : Tree → Tree) → Option Tree
  | t, [], f => some (f t)
  | t, step :: rest, f => do
    let c ← (← t.child? step).update? rest f
    return t.replaceChild step c

mutual

-- `source` laid over a tree: maps by key, lists by position, anything else replaces.
def merge (t : Tree) : (source : Tree) → Tree
  | obj source => match t with
    | obj fields => obj (mergeFields fields source)
    | _ => obj source
  | arr source => match t with
    | arr items => arr (mergeItems items source)
    | _ => arr source
  | source => source

def mergeFields (fields : Fields) : (source : Fields) → Fields
  | [] => fields
  | (k, v) :: source =>
    mergeFields (fields.alter k fun old? => match old? with
      | some old => merge old v
      | none => v) source

def mergeItems (items : List Tree) : (source : List Tree) → List Tree
  | [] => items
  | v :: source => match items with
    | [] => v :: source
    | old :: items => merge old v :: mergeItems items source

end

variable {t : Tree} {step : Segment} {rest : Path} {v : Tree}

@[simp] theorem get?_root : t.get? [] = some t := by
  rw [get?]

theorem eq_of_get?_root (h : t.get? [] = some v) : t = v :=
  Option.some.inj <| get?_root.symm.trans h

@[simp] theorem get?_cons : t.get? (step :: rest) = (t.child? step).bind (·.get? rest) := by
  rw [get?]; rfl

@[simp] theorem set_root : t.set [] v = v := by
  rw [set]

end Storyworld.Tree
