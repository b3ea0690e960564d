import Storyworld.Engine.Batch

/-!
Listeners made of data: each keeps a log of what it is told, drops and appends commands, and writes
fixed values into the trees.
-/

namespace Storyworld

inductive Event where
  | started (name : String) (stat : Tree)
  | parsed (name : String) (verbs : List Verb)
  | changed (name : String) (change : Change)
  | ended (name : String) (display delta : Tree)
  | reported (failure : Failure)
deriving DecidableEq

def Event.line : Event → String
  | started name stat => s!"{name} started {stat.toJson}"
  | parsed name verbs => name ++ " parsed " ++ ",".intercalate (verbs.map Verb.word)
  | changed name change =>
    s!"{name} single {change.path.write} {change.old.toJson} -> {change.new.toJson}"
  | ended name display delta => s!"{name} ended {display.toJson} {delta.toJson}"
  | reported failure => s!"sink {failure.call} | {failure.error.message}"

abbrev Log := List Event

inductive Occasion where
  | started
  | changed
  | changedDisplay
  | changedDelta
  | ended
deriving DecidableEq

structure Script where
  name : String
  drop : List Verb := []
  push : List Command := []
  reverse : Bool := false
  writes : List (Occasion × Path × Tree) := []

namespace Script

def log (event : Event) : StateM Log Unit :=
  modify (· ++ [event])

def write (script : Script) (occasion : Occasion) (t : Tree) : Tree :=
  script.writes.foldl (fun t (time, path, v) => if time = occasion then t.set path v else t) t

def edit (script : Script) (commands : List Command) : List Command :=
  let kept := commands.filter (!script.drop.contains ·.verb) ++ script.push
  if script.reverse then kept.reverse else kept

def listener (script : Script) : Listener Log where
  started s := do
    log (.started script.name s.stat)
    return { s with stat := script.write .started s.stat }
  parsed _ commands := do
    log (.parsed script.name (commands.map (·.verb)))
    return script.edit commands
  changed change trees := do
    log (.changed script.name change)
    return ⟨script.write .changed trees.stat, script.write .changedDisplay trees.display,
      script.write .changedDelta trees.delta⟩
  ended s := do
    log (.ended script.name s.display s.delta)
    return { s with stat := script.write .ended s.stat }

end Script

-- The first text of each pair replaced by the second, pair after pair.
def substituteAll (pairs : List (String × String)) (text : String) : String :=
  pairs.foldl (fun text (old, new) => Text.replace old new text) text

end Storyworld
