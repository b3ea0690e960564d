import Storyworld.Engine.Batch
import Storyworld.Schema.Json
import Storyworld.Tool.Files

/-!
The batch tool: runs one text on a state file, prints the state as it is then, and keeps it in the file
if asked to.
-/

namespace Storyworld.Tool.Applier

def usage : String :=
  "Usage: apply_batch --state <file.json> --text <file> [--config <file.ron>] [--write]\n"

structure Options where
  state : Option String := none
  text : Option String := none
  config : Option String := none
  write : Bool := false
deriving DecidableEq

-- The options, or the first argument that is none. A later value of an option takes the place of an
-- earlier one.
def readOptions (options : Options) : List String → Except String Options
  | [] => .ok options
  | "--state" :: name :: args => readOptions { options with state := some name } args
  | "--text" :: name :: args => readOptions { options with text := some name } args
  | "--config" :: name :: args => readOptions { options with config := some name } args
  | "--write" :: args => readOptions { options with write := true } args
  | arg :: _ => .error arg

def failed (errors : String) : Outcome :=
  { code := 1, errors := s!"ERROR: {errors}\n" }

def loadConfig (find : Finder) : Option String → Except Outcome Config
  | none => .ok {}
  | some name => match find.read name with
    | .error fault => .error (failed s!"Failed to load config: IO error: {fault.reason}")
    | .ok text => match Config.parse? text with
      | some config => .ok config
      | none => .error (failed "Failed to load config: RON deserialization error")

def readText (find : Finder) (name : String) : Except Outcome String :=
  (find.read name).mapError fun fault => failed s!"Failed to read {name}: {fault.reason}"

def loadState (find : Finder) (name : String) : Except Outcome State := do
  match Tree.ofJson? (← readText find name) with
  | none => throw (failed s!"{name} is not valid JSON")
  | some t => match State.load? t with
    | some s => return s
    | none => throw (failed s!"{name} is not valid game data")

def account (report : Report) : String :=
  let failure := report.failure.elim "" fun f => s!"Last failure: {f.call} ({f.error.message})\n"
  s!"{failure}Applied {report.applied} command(s), modified: {report.modified}\n"

-- The dice are for a configuration without a seed.
def apply (config : Config) (dice : Dice) (s : State) (text : String) : Report × State :=
  let engine : Engine Unit := { config }
  let dice := config.seed.elim dice fun seed => .ofSeed (.ofNat seed)
  let ((report, s, _), _) := (engine.batch text s dice).run ()
  (report, s)

def runWith (find : Finder) (dice : Dice) (options : Options) (state text : String) :
    Except Outcome Outcome := do
  let config ← loadConfig find options.config
  let s ← loadState find state
  let (report, s) := apply config dice s (← readText find text)
  let output := s.toTree.toIndentedJson
  return {
    code := 0
    output := output ++ "\n"
    errors := account report
    writes := if options.write then [(state, output)] else [] }

def run (find : Finder) (dice : Dice) (args : List String) : Outcome :=
  match args with
  | [] | "--help" :: _ | "-h" :: _ => { code := 0, output := usage }
  | args => match readOptions {} args with
    | .error arg => { code := 1, output := usage, errors := s!"Unknown argument: {arg}\n" }
    | .ok options => match options.state, options.text with
      | some state, some text => match runWith find dice options state text with
        | .ok outcome | .error outcome => outcome
      | _, _ => { code := 1, output := usage }

end Storyworld.Tool.Applier
