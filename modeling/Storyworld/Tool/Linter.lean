import Storyworld.Lint
import Storyworld.Tool.Files

/-!
The linter: checks a text file, or all of a folder, and reports what it found.
-/

namespace Storyworld.Tool.Linter

def usage : String :=
  "Usage: command_linter <file_or_dir> [--verbose]\n"

-- The part of a file's name behind its last point, which must not be its first character.
def extension? (name : String) : Option String :=
  let after := (name.toList.reverse.takeWhile (· != '.')).reverse
  if after.length + 1 < name.length then some (.ofList after) else none

def isText (name : String) : Bool :=
  extension? name == some "txt" || extension? name == some "md"

def join (folder name : String) : String :=
  if folder.endsWith "/" then folder ++ name else folder ++ "/" ++ name

-- A file to check; its text, if it holds one.
abbrev Source := String × Option String

mutual

def sources (name : String) : Node → List Source
  | .file text => if isText name then [(name, some text)] else []
  | .binary => if isText name then [(name, none)] else []
  | .folder entries => sourcesIn name entries

def sourcesIn (folder : String) : List (String × Node) → List Source
  | [] => []
  | (name, node) :: entries => sources (join folder name) node ++ sourcesIn folder entries

end

-- What a target names: one file of any name, or the texts of a folder.
def targets (name : String) : Node → List Source
  | .file text => [(name, some text)]
  | .binary => [(name, none)]
  | .folder entries => sourcesIn name entries

-- The values of arguments one after the other, with the same dice.
def values (dice : Dice) : List String → List Tree
  | [] => []
  | raw :: args =>
    let (v, dice) := Argument.value raw dice
    v :: values dice args

def describe (c : Command) : String :=
  let path := Argument.pathText (c.args.headD "")
  let shown := ", ".intercalate ((values (.ofSeed 0) c.args.tail).map Tree.toJson)
  let reason := if c.reason.isEmpty then "" else s!" reason={c.reason}"
  s!"    {c.verb.word} ({c.verb.canonical.word}) path={path} values=[{shown}]{reason}\n"

def listing (name : String) (commands : List Command) : String :=
  s!"  {name}: {commands.length} commands\n" ++ String.join (commands.map describe)

def marked (mark : String) (found : List (String × String)) : String :=
  String.join (found.map fun (name, message) => s!"{mark}: {name}: {message}\n")

def found {α : Type} (reports : List (String × Lint.Report)) (parts : Lint.Report → List α)
    (message : α → String) : List (String × String) :=
  reports.flatMap fun (name, report) => (parts report).map fun a => (name, message a)

def summary (fileCount : Nat) (reports : List (String × Lint.Report)) : Nat × String :=
  let faults := found reports (·.faults) Lint.Fault.message
  let hints := found reports (·.hints) Lint.Hint.message
  let passed := if faults.isEmpty && hints.isEmpty then "All checks passed!\n" else ""
  let total := (reports.flatMap fun (_, report) => report.commands).length
  (if faults.isEmpty then 0 else 1,
    s!"\n=== Command Lint Report ===\n\n{passed}" ++ marked "WARNING" hints ++ marked "ERROR" faults ++
      s!"\nSummary: {fileCount} files, {total} commands, {faults.length} errors, {hints.length} warnings\n")

def unreadable (name : String) : String :=
  s!"  ERROR reading {name}: {FileFault.noText.reason}\n"

def lintAll (verbose : Bool) (sources : List Source) : Outcome :=
  let reports := sources.filterMap fun (name, text?) => text?.map fun text => (name, Lint.check text)
  let listings := if verbose then
      String.join (reports.map fun (name, report) => listing name report.commands)
    else ""
  let (code, report) := summary sources.length reports
  let skipped := sources.filter fun (_, text?) => text?.isNone
  { code
    output := listings ++ report
    errors := String.join (skipped.map fun (name, _) => unreadable name) }

def run (find : Finder) (args : List String) : Outcome :=
  match args with
  | [] | "--help" :: _ | "-h" :: _ => { code := 0, output := usage }
  | target :: options => match find target with
    | .ok node => lintAll (options.contains "--verbose") (targets target node)
    | .error _ => { code := 1, errors := s!"ERROR: Path '{target}' does not exist\n" }

end Storyworld.Tool.Linter
