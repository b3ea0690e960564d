/-!
Where a text of commands is inside quotes. A quote character behind a backslash neither opens nor
closes; all scans of a text share this rule.
-/

namespace Storyworld.Command

def isQuote (c : Char) : Bool :=
  c == '"' || c == '\'' || c == '\x60'

structure Quoting where
  quote : Option Char := none
  -- The character before is a backslash.
  escaped : Bool := false
deriving DecidableEq

namespace Quoting

-- `c` stands outside quotes and opens none.
def isPlain (q : Quoting) (c : Char) : Bool :=
  q.quote.isNone && !(isQuote c && !q.escaped)

def next (q : Quoting) (c : Char) : Quoting where
  quote := match q.quote with
    | some opener => if c = opener ∧ ¬q.escaped then none else some opener
    | none => if isQuote c ∧ ¬q.escaped then some c else none
  escaped := c == '\\'

end Quoting

end Storyworld.Command
