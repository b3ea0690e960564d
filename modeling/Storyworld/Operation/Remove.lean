import Storyworld.Operation.Insert
import Storyworld.Tree.Value

/-!
Removals: of what stands at a path, or of one item or entry of it. Only the former is announced to
listeners. A schema keeps the items of its closed lists and the required keys of its maps.
-/

namespace Storyworld.State

variable (s : State)

def delete (path : Path) : Except CommandError (Applied × State) := do
  let parent := path.dropLast
  let key := path.getLast?.elim "" Segment.name
  if !s.stat.has path then throw (.pathNotFound path)
  if s.requires parent key then throw (.schemaViolation path (.required key))
  if s.closedList parent then throw (.schemaViolation parent .closedList)
  let (removed, stat) := (s.stat.unset? path).getD (.null, s.stat)
  return (.one path (told "removed" removed) (some ⟨path, removed, .null⟩), { s with stat })

-- The item at the selected position, or else the first one that equals the selector.
def itemFor? (items : List Tree) (selector : Tree) : Option Nat :=
  (selector.position?.filter (· < items.length)).or (items.findIdx? (·.same selector))

def removeItem (container : Path) (items : List Tree) (selector : Tree) :
    Except CommandError (Applied × State) := do
  if s.closedList container then throw (.schemaViolation container .closedList)
  let some i := itemFor? items selector
    | throw (.selectorNotFound container selector.display)
  let stat := s.stat.set container (.arr (items.eraseIdx i))
  return (.one container (told "removed" (items.getD i .null)) none, { s with stat })

-- The key at the selected position, or else the selector itself as a key.
def keyFor (fields : Fields) (selector : Tree) : String :=
  (selector.position?.bind (fields.keys[·]?)).getD selector.display

def removeEntry (container : Path) (fields : Fields) (selector : Tree) :
    Except CommandError (Applied × State) := do
  let key := keyFor fields selector
  let some removed := fields.get? key | throw (.selectorNotFound container key)
  if s.requires container key then throw (.schemaViolation container (.required key))
  let stat := s.stat.set container (.obj (fields.erase key))
  return (.one (container.child (.key key)) (told "removed" removed) none, { s with stat })

def deleteFrom (path : Path) (selector : Tree) : Except CommandError (Applied × State) :=
  match s.stat.get? path with
  | some (.arr items) => s.removeItem path items selector
  | some (.obj fields) => s.removeEntry path fields selector
  | some other => .error (.typeMismatch path (.removeFrom other.kind))
  | none => .error (.pathNotFound path)

end Storyworld.State
