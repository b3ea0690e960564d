import Storyworld.Calendar.Basic
import Storyworld.Calendar.Text
import Storyworld.Command.Argument
import Storyworld.Command.Basic
import Storyworld.Command.Error
import Storyworld.Command.Extract
import Storyworld.Command.Quoting
import Storyworld.Config.Basic
import Storyworld.Config.Setting
import Storyworld.Decimal.Basic
import Storyworld.Decimal.Binary
import Storyworld.Decimal.Power
import Storyworld.Decimal.Significant
import Storyworld.Decimal.Text
import Storyworld.Dice
import Storyworld.Engine.Batch
import Storyworld.Engine.Listener
import Storyworld.Engine.Script
import Storyworld.Exchange
import Storyworld.Formula.Basic
import Storyworld.Formula.Derivative
import Storyworld.Formula.Error
import Storyworld.Formula.Eval
import Storyworld.Formula.Lexer
import Storyworld.Formula.Parser
import Storyworld.Formula.Printer
import Storyworld.Formula.Simplify
import Storyworld.Formula.Token
import Storyworld.Json.Parser
import Storyworld.Json.Printer
import Storyworld.Lint
import Storyworld.Literal.Basic
import Storyworld.Literal.Parser
import Storyworld.Main
import Storyworld.Operation.Assign
import Storyworld.Operation.Basic
import Storyworld.Operation.Insert
import Storyworld.Operation.Remove
import Storyworld.Operation.Run
import Storyworld.Path.Basic
import Storyworld.Path.Parser
import Storyworld.Path.Printer
import Storyworld.Quantity.Arithmetic
import Storyworld.Quantity.Basic
import Storyworld.Quantity.Complex
import Storyworld.Quantity.Function
import Storyworld.Quantity.Matrix
import Storyworld.Quantity.Sample
import Storyworld.Schema.Basic
import Storyworld.Schema.Infer
import Storyworld.Schema.Json
import Storyworld.Schema.Meta
import Storyworld.State
import Storyworld.Template
import Storyworld.Text.Blank
import Storyworld.Text.Boundaries
import Storyworld.Text.Letters
import Storyworld.Text.Quoted
import Storyworld.Text.Search
import Storyworld.Tool.Applier
import Storyworld.Tool.Files
import Storyworld.Tool.Linter
import Storyworld.Tree.Access
import Storyworld.Tree.Basic
import Storyworld.Tree.Number
import Storyworld.Tree.Value
import Storyworld.Yaml.Cursor
import Storyworld.Yaml.Lexer
import Storyworld.Yaml.Node
import Storyworld.Yaml.Scalar
import Storyworld.Yaml.Tag
import Storyworld.Yaml.Token
import Storyworld.Yaml.Value
import Storyworld.Proofs.Tree.Place
import Storyworld.Proofs.Meta.Clean
import Storyworld.Proofs.Meta.Projection
import Storyworld.Proofs.Insertion.Outcome
import Storyworld.Proofs.Operation.Atomicity
import Storyworld.Proofs.Insertion.Site
import Storyworld.Proofs.Insertion.Frame
import Storyworld.Proofs.Insertion.Closure
import Storyworld.Proofs.Schema.Properties
import Storyworld.Proofs.Schema.Stability
import Storyworld.Proofs.Schema.Description
import Storyworld.Proofs.Engine.Settlement
import Storyworld.Proofs.Command.Argument
import Storyworld.Proofs.Command.Call
import Storyworld.Proofs.Command.Account
import Storyworld.Proofs.Command.Written
import Storyworld.Proofs.Command.Json
import Storyworld.Proofs.Command.Carried
import Storyworld.Proofs.Yields
import Storyworld.Proofs.Tree.Survival
import Storyworld.Proofs.Tree.Telling
import Storyworld.Proofs.Meta.Tidy
import Storyworld.Proofs.Operation.Account
import Storyworld.Proofs.Engine.Progress
import Storyworld.Proofs.Engine.Account
import Storyworld.Proofs.Engine.View
import Storyworld.Proofs.Decimal.Numeral
import Storyworld.Proofs.Text.Escaped
import Storyworld.Proofs.Formula.Words
import Storyworld.Proofs.Formula.Written
import Storyworld.Proofs.Formula.Names
import Storyworld.Proofs.Formula.Grammar
import Storyworld.Proofs.Formula.Reading
import Storyworld.Proofs.Formula.Exact
import Storyworld.Proofs.Formula.Value
import Storyworld.Proofs.Formula.RoundTrip
import Storyworld.Proofs.Path.RoundTrip
import Storyworld.Proofs.Operation.Dispatch
import Storyworld.Proofs.Operation.Effect
import Storyworld.Proofs.Engine.Flags
import Storyworld.Proofs.Engine.Agreement
import Storyworld.Proofs.Formula.Chance
import Storyworld.Proofs.Command.Chance
import Storyworld.Proofs.Engine.Chance
import Storyworld.Proofs.Operation.Acceptance
import Storyworld.Proofs.Operation.Branch
import Storyworld.Proofs.Tree.Replacement
import Storyworld.Proofs.Insertion.Splice
import Storyworld.Proofs.Calendar.Day
import Storyworld.Proofs.Calendar.Text
import Storyworld.Proofs.Operation.Assignment
import Storyworld.Proofs.Operation.Announcement
import Storyworld.Proofs.Engine.Trace
import Storyworld.Proofs.Schema.Proper
import Storyworld.Proofs.Schema.Document
import Storyworld.Proofs.Meta.Origin
import Storyworld.Proofs.Schema.Renewal
import Storyworld.Proofs.Tree.Removal
import Storyworld.Proofs.Operation.Removal
import Storyworld.Proofs.Operation.Change
import Storyworld.Proofs.Command.Value
import Storyworld.Proofs.Tree.Equality
import Storyworld.Proofs.Insertion.Refresh
import Storyworld.Proofs.Insertion.Reversal
import Storyworld.Proofs.Tree.Lens
import Storyworld.Proofs.Template
import Storyworld.Proofs.Schema.Locality
import Storyworld.Proofs.Literal.RoundTrip
import Storyworld.Proofs.Formula.Bracketed
import Storyworld.Proofs.Formula.Constant
import Storyworld.Proofs.Formula.Height
import Storyworld.Proofs.Formula.Scalar
import Storyworld.Proofs.Formula.Simplified
import Storyworld.Proofs.Formula.Differential
import Storyworld.Proofs.Formula.Derivative
import Storyworld.Proofs.Formula.Simplest
import Storyworld.Proofs.Quantity.Transpose
import Storyworld.Proofs.Quantity.Product
import Storyworld.Proofs.Command.Arity
import Storyworld.Proofs.Decimal.Exact
import Storyworld.Proofs.Decimal.Settled
import Storyworld.Proofs.Tree.Number
import Storyworld.Proofs.Tree.Identity
import Storyworld.Proofs.Calendar.Step
import Storyworld.Proofs.Command.Integer
import Storyworld.Proofs.Operation.Sum
import Storyworld.Proofs.Operation.Waiting
import Storyworld.Proofs.Lint
import Storyworld.Proofs.Lint.Paths
import Storyworld.Proofs.Path.Spelling
import Storyworld.Proofs.Tree.Layers
import Storyworld.Proofs.Command.Quoted
