import Storyworld.Engine.Batch
import Storyworld.Schema.Json

/-!
What a viewer gets of the library: JSON texts of the verbs, of the commands in a text, and of a batch.
-/

namespace Storyworld

def Command.toTree (c : Command) : Tree :=
  .obj [("kind", .str c.verb.word), ("full_match", .str c.call),
    ("args", .arr (c.args.map Tree.str)), ("reason", .str c.reason)]

def Failure.toTree (f : Failure) : Tree :=
  .obj [("command", .str f.call), ("error", .str f.error.message)]

namespace Exchange

def verbs : String :=
  (Tree.arr (Verb.all.map fun v => .str v.word)).toJson

def commands (text : String) : String :=
  (Tree.arr ((Command.extract text).map Command.toTree)).toJson

def count (n : Nat) : Tree :=
  (Number.ofInt? n).elim .null .num

def outcome (report : Report) (s : State) : String :=
  (Tree.obj [("game_data", s.toTree), ("modified", .bool report.modified),
    ("applied", count report.applied),
    ("failure", report.failure.elim .null Failure.toTree)]).toJson

end Exchange

end Storyworld
