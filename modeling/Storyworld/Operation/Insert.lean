import Storyworld.Operation.Basic
import Storyworld.State
import Storyworld.Template

/-!
Insertions: an item into a list, an entry into a map, or a whole map laid over another. The schema is
asked first, and read off anew below the container before the inserted value loses its metadata.
-/

namespace Storyworld

def Tree.position? : Tree → Option Nat
  | .num n => ((Binary.toInt? n.toFloat).filter (0 ≤ ·)).map Int.toNat
  | _ => none

namespace State

def valueAt (s : State) (path : Path) : Tree :=
  (s.stat.get? path).getD .null

def cleanAt (s : State) (path : Path) : Tree × State :=
  match s.stat.get? path with
  | some v => (Meta.clean v, { s with stat := s.stat.set path (Meta.clean v) })
  | none => (.null, s)

def closedList (s : State) (container : Path) : Bool :=
  match s.schemaAt? container with
  | some (.array _ traits) => !traits.extensible
  | _ => false

def refuses (s : State) (container : Path) (key : String) : Bool :=
  match s.schemaAt? container with
  | some (.object properties traits) => !Schema.accepts properties traits key
  | _ => false

def requires (s : State) (container : Path) (key : String) : Bool :=
  match s.schemaAt? container with
  | some (.object properties traits) => Schema.requires properties traits key
  | _ => false

def filled (s : State) (flags : Flags) (container : Path) (v : Tree) : Tree :=
  Template.apply flags.strictTemplate flags.concatTemplateArray
    ((s.schemaAt? container).bind Schema.template?) v

def told (action : String) (v : Tree) : String :=
  s!"{action} {v.toJson}"

variable (s : State) (flags : Flags) (container : Path)

def insertItem (items : List Tree) (index : Option Nat) (v : Tree) :
    Except CommandError (Applied × State) := do
  if s.closedList container then throw (.schemaViolation container .closedList)
  let index := index.elim items.length (min · items.length)
  let grown := items.insertIdx index (s.filled flags container v)
  let s := { s with stat := s.stat.set container (.arr grown) }
  -- The schema reads the metadata of the item before it is cleaned away.
  let (inserted, s) := (s.refreshSchema container flags).cleanAt (container.child (.index index))
  return (.one container (told "inserted" inserted)
    (some ⟨container, .arr items, s.valueAt container⟩), s)

def insertKey (key : String) (v : Tree) : Except CommandError (Applied × State) := do
  if s.refuses container key then throw (.schemaViolation container (.closedMap key))
  let child := container.child (.key key)
  let old := s.valueAt child
  let s := { s with stat := s.stat.set child (s.filled flags container v) }
  let (inserted, s) := (s.refreshSchema container flags).cleanAt child
  return (.one child (told "inserted" inserted) (some ⟨child, old, inserted⟩), s)

def cleanEntries : State → Path → List String → List (Path × String) × State
  | s, _, [] => ([], s)
  | s, container, key :: keys =>
    let child := container.child (.key key)
    let (inserted, s) := s.cleanAt child
    let (accounts, s) := cleanEntries s container keys
    ((child, told "inserted" inserted) :: accounts, s)

def mergeInto (v : Tree) : Except CommandError (Applied × State) := do
  let some fields := v.asFields? | throw (.typeMismatch container .noMap)
  if let some key := (Fields.keys fields).find? (s.refuses container) then
    throw (.schemaViolation container (.closedMap key))
  let old := s.valueAt container
  -- Unlike a single entry, a map that is laid over another gets no defaults.
  let s := { s with stat := s.stat.set container (old.merge v) }
  let (accounts, s) := (s.refreshSchema container flags).cleanEntries container (Fields.keys fields)
  return (⟨accounts, some ⟨container, old, s.valueAt container⟩⟩, s)

def insertNew (path : Path) (v : Tree) : Except CommandError (Applied × State) := do
  let parent := path.dropLast
  let some last := path.getLast? | throw (.parentNotFound path)
  match s.stat.get? parent with
  | none => throw (.parentNotFound path)
  | some (.obj _) => s.insertKey flags parent last.name v
  | some (.arr items) => match last.index? with
    | some i => s.insertItem flags parent items (some i) v
    | none => throw (.invalidArguments (.noIndex last.name))
  | some other => throw (.typeMismatch parent (.insertInto other.kind))

def insert (path : Path) (v : Tree) : Except CommandError (Applied × State) :=
  match s.stat.get? path with
  | some (.arr items) => s.insertItem flags path items none v
  | some (.obj _) => s.mergeInto flags path v
  | some other => .error (.typeMismatch path (.insertInto other.kind))
  | none => s.insertNew flags path v

-- The position in a list that a selector names, as a number or in digits.
def selectedIndex? (selector : Tree) : Option Nat :=
  selector.position?.or (selector.asString?.bind fun text =>
    Decimal.readIndex? (Text.trim text.toList))

def insertAt (path : Path) (selector v : Tree) : Except CommandError (Applied × State) :=
  match s.stat.get? path with
  | some (.arr items) => match selectedIndex? selector with
    | some i => s.insertItem flags path items (some i) v
    | none => .error (.invalidArguments (.noPosition selector))
  | some (.obj _) => s.insertKey flags path selector.display v
  | some other => .error (.typeMismatch path (.insertInto other.kind))
  | none => .error (.pathNotFound path)

def makeMap (path : Path) : Except CommandError State := do
  let parent := path.dropLast
  if !s.stat.has parent then throw (.parentNotFound path)
  if let some last := path.getLast? then
    if s.refuses parent last.name then
      throw (.schemaViolation parent (.closedMap last.name))
  return { s with stat := s.stat.set path .emptyMap }

end State

end Storyworld
