import Storyworld.Operation.Run

/-!
What a host is told while a batch runs, and where it may step in. A host keeps what it remembers in a
state `σ` of its own.
-/

namespace Storyworld

structure Failure where
  call : String
  error : CommandError
deriving DecidableEq

structure Trees where
  stat : Tree
  display : Tree
  delta : Tree
deriving DecidableEq

-- The four points of a batch at which a listener is called. What it hands back takes the place of what it
-- was given, and a listener that says nothing about a point leaves all as it is.
structure Listener (σ : Type) where
  started : State → StateM σ State := pure
  -- When the commands of the text are known, all verbs canonical.
  parsed : State → List Command → StateM σ (List Command) := fun _ commands => pure commands
  changed : Change → Trees → StateM σ Trees := fun _ trees => pure trees
  -- When the views of the batch have been published.
  ended : State → StateM σ State := pure

namespace Listener

variable {σ α : Type}

def inTurn (listeners : List (Listener σ)) (point : Listener σ → α → StateM σ α) (a : α) : StateM σ α :=
  listeners.foldlM (fun a listener => point listener a) a

@[simp] theorem inTurn_nil (point : Listener σ → α → StateM σ α) (a : α) : inTurn [] point a = pure a :=
  rfl

end Listener

end Storyworld
