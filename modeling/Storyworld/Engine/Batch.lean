import Storyworld.Command.Extract
import Storyworld.Config.Basic
import Storyworld.Engine.Listener

/-!
Batches: all commands of a text run in order on a state. A command that fails is passed over; the two
views then show what the others did, and the schema is read off anew if there were any.
-/

namespace Storyworld

structure Engine (σ : Type) where
  config : Config := {}
  listeners : List (Listener σ) := []
  -- Goes over a text before its commands are looked for.
  substitute : String → String := id
  -- Told of the last failure of a batch, if the configuration wants it.
  report : Failure → StateM σ Unit := fun _ => pure ()

structure Report where
  applied : Nat := 0
  failure : Option Failure := none
deriving DecidableEq

def Report.modified (r : Report) : Bool :=
  0 < r.applied

-- A batch on its way: the state, the views so far, and what has become of the commands.
structure Progress where
  state : State
  display : Tree
  delta : Tree
  dice : Dice
  report : Report

def Tree.record (t : Tree) (accounts : List (Path × String)) : Tree :=
  accounts.foldl (fun t (path, account) => t.set path (.str account)) t

namespace State

def clean (s : State) : State :=
  { s with stat := Meta.clean s.stat }

def settle (s : State) (defaults : Flags) : State :=
  (s.reconcile defaults).clean

end State

def Command.canonical (c : Command) : Command :=
  { c with verb := c.verb.canonical }

namespace Engine

variable {σ : Type} (e : Engine σ)

def flags (s : State) : Flags :=
  (s.flagsOr e.config.flags).overlay s.stat

def announce (change : Option Change) (trees : Trees) : StateM σ Trees :=
  match change with
  | none => pure trees
  | some change => Listener.inTurn e.listeners (fun listener => listener.changed change) trees

def step (flags : Flags) (p : Progress) (c : Command) : StateM σ Progress := do
  let (result, state, dice) := c.run flags p.state p.dice
  match result with
  | .error error =>
    return { p with state, dice, report := { p.report with failure := some ⟨c.call, error⟩ } }
  | .ok applied =>
    let trees ← e.announce applied.change
      ⟨state.stat, p.display.record applied.accounts, p.delta.record applied.accounts⟩
    return {
      state := { state with stat := trees.stat }
      display := trees.display
      delta := trees.delta
      dice
      report := { p.report with applied := p.report.applied + 1 } }

def commands (text : String) (s : State) : StateM σ (List Command) :=
  Listener.inTurn e.listeners (·.parsed s)
    ((Command.extract (e.substitute text)).map Command.canonical)

def notify (r : Report) : StateM σ Unit :=
  match r.failure with
  | some failure => if e.config.notifyErrors then e.report failure else pure ()
  | none => pure ()

def batch (text : String) (s : State) (dice : Dice) : StateM σ (Report × State × Dice) := do
  -- The display view starts from the tree as it was before any listener saw it.
  let flags := e.flags s
  let display := s.stat
  let s ← Listener.inTurn e.listeners Listener.started s
  let commands ← e.commands text s
  let p ← commands.foldlM (e.step flags) ⟨s, display, .emptyMap, dice, {}⟩
  let published := { p.state with display := Meta.clean p.display, delta := p.delta }
  let s ← Listener.inTurn e.listeners Listener.ended published
  e.notify p.report
  return (p.report, if p.report.modified then s.settle e.config.flags else s, p.dice)

-- One command run by itself: no listener is called, and the views stay as they are.
def runCommand (c : Command) (s : State) (dice : Dice) : Except CommandError Applied × State × Dice :=
  c.run (e.flags s) s dice

end Engine

end Storyworld
