import Storyworld.Command.Argument
import Storyworld.Command.Basic
import Storyworld.Command.Error

/-!
Operations: what a command asks for, once its path and its values have been read. Nothing here looks
at a state.
-/

namespace Storyworld

inductive Operation where
  | set (path : Path) (value : Tree)
  -- Insertion into what stands at `path`, or of `path` itself where nothing does.
  | insert (path : Path) (value : Tree)
  | insertAt (path : Path) (selector value : Tree)
  | delete (path : Path)
  | deleteFrom (path : Path) (selector : Tree)
  | add (path : Path) (delta : Tree)
deriving DecidableEq

def Command.target (c : Command) : Except CommandError Path :=
  match c.args with
  | [] => .error (.invalidArguments .noPath)
  | raw :: _ => match Path.parse (Argument.pathText raw) with
    | .error e => .error (.invalidArguments (.malformed e))
    | .ok path => if path.isEmpty then .error (.invalidArguments .emptyPath) else .ok path

namespace Operation

-- The operation that arguments behind the path stand for. The dice go through the values in the order of
-- their use; `set` passes over an old value, and all verbs over what comes too late.
def read (verb : Verb) (path : Path) (rest : List String) (dice : Dice) :
    Except CommandError (Operation × Dice) :=
  match verb.canonical, rest with
  | .set, [raw] | .set, _ :: raw :: _ =>
    let (value, dice) := Argument.value raw dice
    .ok (.set path value, dice)
  | .set, [] => .error (.invalidArguments .setCount)
  | .delete, [] => .ok (.delete path, dice)
  | .delete, raw :: _ =>
    let (selector, dice) := Argument.value raw dice
    .ok (.deleteFrom path selector, dice)
  | .add, [raw] =>
    let (delta, dice) := Argument.value raw dice
    .ok (.add path delta, dice)
  | .add, _ => .error (.invalidArguments .addCount)
  | _, [] => .error .nothingToInsert
  | _, [raw] =>
    let (value, dice) := Argument.value raw dice
    .ok (.insert path value, dice)
  | _, raw :: rawValue :: _ =>
    let (selector, dice) := Argument.value raw dice
    let (value, dice) := Argument.value rawValue dice
    .ok (.insertAt path selector value, dice)

def ofCommand (c : Command) (dice : Dice) : Except CommandError (Operation × Dice) := do
  read c.verb (← c.target) c.args.tail dice

end Operation

structure Change where
  path : Path
  old : Tree
  new : Tree
deriving DecidableEq

structure Applied where
  -- The accounts of it, each with its place in the two views.
  accounts : List (Path × String)
  change : Option Change
deriving DecidableEq

namespace Applied

def one (path : Path) (account : String) (change : Option Change) : Applied :=
  ⟨[(path, account)], change⟩

def because (reason : String) (a : Applied) : Applied :=
  if reason.isEmpty then a
  else { a with accounts := a.accounts.map fun (path, account) => (path, s!"{account} ({reason})") }

end Applied

end Storyworld
