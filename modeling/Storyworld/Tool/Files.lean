/-!
The files that a tool works on, as a tree of folders, and the result of its run as a value.
-/

namespace Storyworld.Tool

inductive Node where
  | file (text : String)
  -- A file that holds no text.
  | binary
  | folder (entries : List (String × Node))

inductive FileFault where
  | missing
  | isFolder
  | noFolder
  | noText
deriving DecidableEq

def FileFault.reason : FileFault → String
  | missing => "No such file or directory (os error 2)"
  | isFolder => "Is a directory (os error 21)"
  | noFolder => "Not a directory (os error 20)"
  | noText => "stream did not contain valid UTF-8"

abbrev Finder := String → Except FileFault Node

def Finder.read (find : Finder) (name : String) : Except FileFault String :=
  match find name with
  | .ok (.file text) => .ok text
  | .ok .binary => .error .noText
  | .ok (.folder _) => .error .isFolder
  | .error fault => .error fault

structure Outcome where
  code : Nat
  output : String := ""
  errors : String := ""
  writes : List (String × String) := []
deriving DecidableEq

namespace Node

def child? (name : String) : List (String × Node) → Option Node
  | [] => none
  | (k, node) :: entries => if k = name then some node else child? name entries

-- The node at the end of a way down; `above` are the folders that it has come through.
def walk (above : List Node) : Node → List String → Except FileFault Node
  | node, [] => .ok node
  | folder entries, step :: steps =>
    if step = "" ∨ step = "." then walk above (folder entries) steps
    else if step = ".." then
      match above with
      | [] => .error .missing
      | parent :: above => walk above parent steps
    else match child? step entries with
      | some node => walk (folder entries :: above) node steps
      | none => .error .missing
  | _, _ :: _ => .error .noFolder

def steps : List Char → List String
  | [] => [""]
  | c :: s =>
    if c = '/' then "" :: steps s
    else match steps s with
      | step :: more => String.ofList (c :: step.toList) :: more
      | [] => [String.ofList [c]]

-- The way that a name goes in the end, without detours.
def direct (name : String) : List String :=
  (steps name.toList).foldl (fun way step =>
    if step = "" ∨ step = "." then way else if step = ".." then way.dropLast else way ++ [step]) []

-- What a name stands for, seen from the top folder. Nothing is known of the world outside.
def find (top : Node) : Finder := fun name =>
  if name.isEmpty || name.startsWith "/" then .error .missing else walk [] top (steps name.toList)

def put (text : String) : (steps : List String) → Node → Node
  | [], _ => file text
  | step :: steps, node =>
    let entries := match node with
      | folder entries => entries
      | _ => []
    let below := put text steps ((child? step entries).getD (folder []))
    if (child? step entries).isSome then
      folder (entries.map fun (k, old) => (k, if k = step then below else old))
    else folder (entries ++ [(step, below)])

def ofFiles (files : List (String × String)) : Node :=
  files.foldl (fun top (name, text) => put text (steps name.toList) top) (folder [])

end Node

end Storyworld.Tool
