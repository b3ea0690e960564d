import Storyworld.Operation.Assign
import Storyworld.Operation.Remove

namespace Storyworld

namespace Operation

-- The result of an attempt with the state behind it, which is the old one where it failed.
def keeping (s : State) : Except CommandError (Applied × State) → Except CommandError Applied × State
  | .ok (applied, s) => (.ok applied, s)
  | .error e => (.error e, s)

def run (flags : Flags) (s : State) : Operation → Except CommandError Applied × State
  | set path v => keeping s (s.put path flags v)
  | insert path v => keeping s (s.insert flags path v)
  | insertAt path selector v =>
    if s.stat.has path then keeping s (s.insertAt flags path selector v)
    -- Here the map stays even if the key is then refused.
    else match s.makeMap path with
      | .ok s => keeping s (s.insertKey flags path selector.display v)
      | .error e => (.error e, s)
  | delete path => keeping s (s.delete path)
  | deleteFrom path selector => keeping s (s.deleteFrom path selector)
  | add path delta => keeping s (s.add path delta)

end Operation

def Command.run (c : Command) (flags : Flags) (s : State) (dice : Dice) :
    Except CommandError Applied × State × Dice :=
  match Operation.ofCommand c dice with
  | .error e => (.error e, s, dice)
  | .ok (op, dice) =>
    let (result, s) := op.run flags s
    (result.map (·.because c.reason), s, dice)

end Storyworld
