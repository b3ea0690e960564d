import Storyworld.Command.Argument
import Storyworld.Command.Extract
import Storyworld.Path.Parser

/-!
Checks of a text before it is run: calls that no command comes of, paths that no state can have, and
verbs that are unknown or an alias. A call inside the arguments of a command is no call of the text.
-/

namespace Storyworld.Lint

inductive Fault where
  | malformedCalls (count : Nat)
  | malformedPath (call : String) (e : Path.Malformed)
  | emptyPath (call : String)
deriving DecidableEq

def Fault.message : Fault → String
  | malformedCalls count => s!"{count} call(s) are malformed and will be skipped"
  | malformedPath call e => s!"{call}: {e.message}"
  | emptyPath call => s!"{call}: empty path"

inductive Hint where
  | unknownVerb (word : String)
  | aliasUsed (call : String) (verb : Verb)
deriving DecidableEq

def Hint.message : Hint → String
  | unknownVerb word => "unknown verb '_." ++ word ++ "('"
  | aliasUsed call verb => s!"{call}: '{verb.word}' is an alias of '{verb.canonical.word}'"

structure Report where
  commands : List Command
  faults : List Fault
  hints : List Hint
deriving DecidableEq

-- Places of a text, by the characters before its start and before its end.
structure Span where
  start : Nat
  stop : Nat
deriving DecidableEq

def Span.encloses (span : Span) (place : Nat) : Bool :=
  span.start < place && place < span.stop

-- The calls of commands, each at its first place behind the one before; `read` characters stand before
-- the text `s`.
def spans (read : Nat) (s : List Char) : List Command → List Span
  | [] => []
  | c :: commands =>
    let call := c.call.toList
    match Text.find? call s with
    | some n =>
      let span : Span := ⟨read + n, read + n + call.length⟩
      span :: spans span.stop (s.drop (n + call.length)) commands
    | none => spans read s commands

def inWord (c : Char) : Bool :=
  c.isAlphanum || c == '_'

-- The verb, known or not, of a call right at the start of a text.
def calledWord? (s : List Char) : Option String :=
  match s with
  | '_' :: '.' :: s =>
    let word := s.takeWhile inWord
    if (s.drop word.length).head? = some '(' then some (.ofList word) else none
  | _ => none

def calls (read : Nat) : List Char → List (Nat × String)
  | [] => []
  | c :: s =>
    let later := calls (read + 1) s
    match calledWord? (c :: s) with
    | some word => (read, word) :: later
    | none => later

def freeWords (spans : List Span) (calls : List (Nat × String)) : List String :=
  (calls.filter fun (place, _) => !spans.any (·.encloses place)).map Prod.snd

def pathFault? (c : Command) : Option Fault :=
  let text := Argument.pathText (c.args.headD "")
  match Path.parse text with
  | .error e => some (.malformedPath c.call e)
  | .ok _ => if text.isEmpty then some (.emptyPath c.call) else none

def aliasHint? (c : Command) : Option Hint :=
  if c.verb.canonical = c.verb then none else some (.aliasUsed c.call c.verb)

-- How many calls of known verbs no command was made of.
def skipped (words : List String) (commands : List Command) : Nat :=
  (words.filter fun word => (Verb.ofWord? word).isSome).length - commands.length

def check (text : String) : Report :=
  let s := text.toList
  let commands := Command.extract text
  let words := freeWords (spans 0 s commands) (calls 0 s)
  let skipped := skipped words commands
  { commands
    faults := (if skipped = 0 then [] else [.malformedCalls skipped]) ++
      commands.filterMap pathFault?
    hints := (words.filter fun word => (Verb.ofWord? word).isNone).map .unknownVerb ++
      commands.filterMap aliasHint? }

end Storyworld.Lint
