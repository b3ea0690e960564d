import Storyworld.Json.Printer
import Storyworld.Path.Parser
import Storyworld.Path.Printer

namespace Storyworld

inductive Violation where
  | closedList
  | closedMap (key : String)
  | required (key : String)
deriving DecidableEq

def Violation.reason : Violation → String
  | closedList => "array is not extensible"
  | closedMap key => s!"object does not accept new key '{key}'"
  | required key => s!"'{key}' is required"

-- A value found in the state, or one that the command gives.
inductive Mismatch where
  | noNumber (given : Tree)
  | insertInto (kind : String)
  | removeFrom (kind : String)
  | noMap
deriving DecidableEq

def Mismatch.reason : Mismatch → String
  | noNumber given => s!"expected a number, got '{given.display}'"
  | insertInto kind => s!"cannot insert into a {kind}"
  | removeFrom kind => s!"cannot remove from a {kind}"
  | noMap => "only a map can be merged into an object"

inductive DeltaFault where
  | noNumber (delta : Tree)
  | infinite
  | noDate (text : String)
  | dateRange
  | addTo (kind : String)
deriving DecidableEq

def DeltaFault.reason : DeltaFault → String
  | noNumber delta => s!"delta '{delta.display}' is not a number"
  | infinite => "result is not finite"
  | noDate text => s!"'{text}' is neither a number nor a date"
  | dateRange => "date out of range"
  | addTo kind => s!"cannot add to a {kind}"

inductive ArgumentFault where
  | noPath
  | malformed (e : Path.Malformed)
  | emptyPath
  | setCount
  | addCount
  | noIndex (name : String)
  | noPosition (selector : Tree)
deriving DecidableEq

def ArgumentFault.reason : ArgumentFault → String
  | noPath => "missing path"
  | malformed e => e.message
  | emptyPath => "empty path"
  | setCount => "set expects a path and a value"
  | addCount => "add expects a path and a delta"
  | noIndex name => s!"'{name}' is not an index"
  | noPosition selector => s!"'{selector.display}' is not an array index"

inductive CommandError where
  | pathNotFound (path : Path)
  | parentNotFound (path : Path)
  | schemaViolation (path : Path) (cause : Violation)
  | typeMismatch (path : Path) (cause : Mismatch)
  | selectorNotFound (path : Path) (selector : String)
  | invalidDelta (path : Path) (cause : DeltaFault)
  | invalidArguments (cause : ArgumentFault)
  -- An insertion that names its place alone. No text yields one, and a host that makes one up gets no
  -- regular answer.
  | nothingToInsert
deriving DecidableEq

def CommandError.message : CommandError → String
  | pathNotFound path => s!"path '{path.write}' does not exist"
  | parentNotFound path => s!"parent of '{path.write}' does not exist"
  | schemaViolation path cause => s!"schema violation at '{path.write}': {cause.reason}"
  | typeMismatch path cause => s!"type mismatch at '{path.write}': {cause.reason}"
  | selectorNotFound path selector => s!"nothing in '{path.write}' matches {selector}"
  | invalidDelta path cause => s!"cannot add to '{path.write}': {cause.reason}"
  | invalidArguments cause => s!"invalid arguments: {cause.reason}"
  | nothingToInsert => "nothing to insert"

end Storyworld
