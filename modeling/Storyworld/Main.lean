import Storyworld.Tool.Applier
import Storyworld.Tool.Linter

open Storyworld Tool

partial def load (name : String) : IO Node := do
  let path ← IO.FS.realPath name
  if ← path.isDir then
    let entries ← (← path.readDir).toList.mapM fun entry => do
      return (entry.fileName, ← load entry.path.toString)
    return .folder entries
  else
    let bytes ← IO.FS.readBinFile path
    return match String.fromUTF8? bytes with
      | some text => .file text
      | none => .binary

def loadArguments (args : List String) : IO (List (String × Node)) := do
  let mut found := []
  for arg in args do
    try
      found := (arg, ← load arg) :: found
    catch _ => pure ()
  return found

def finder (found : List (String × Node)) : Finder := fun name =>
  match Node.child? name found with
  | some node => .ok node
  | none => .error .missing

def finish (outcome : Outcome) : IO UInt32 := do
  IO.print outcome.output
  IO.eprint outcome.errors
  for (name, text) in outcome.writes do
    IO.FS.writeFile name text
  return .ofNat outcome.code

def main (args : List String) : IO UInt32 := do
  match args with
  | "command_linter" :: args => finish (Linter.run (finder (← loadArguments args)) args)
  | "apply_batch" :: args =>
    let seed ← IO.rand 0 0xFFFFFFFFFFFFFFFF
    finish (Applier.run (finder (← loadArguments args)) (.ofSeed (.ofNat seed)) args)
  | _ =>
    IO.eprint (Linter.usage ++ Applier.usage)
    return 1
