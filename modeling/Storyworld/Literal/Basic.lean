import Storyworld.Tree.Basic

namespace Storyworld

inductive LiteralError where
  | unexpectedEnd
  | unexpected (c : Char) (offset : Nat)
  | identifier (word : String)
  | number (raw : String)
  | interpolation
  | tooDeep
deriving DecidableEq

def LiteralError.message : LiteralError → String
  | unexpectedEnd => "unexpected end of literal"
  | unexpected c offset =>
    "unexpected character '" ++ c.toString ++ "' at offset " ++ Decimal.showInt offset
  | identifier word => "identifier '" ++ word ++ "' is not a literal value"
  | number raw => "invalid number '" ++ raw ++ "'"
  | interpolation => "template interpolation is not allowed"
  | tooDeep => "literal nested too deeply"

end Storyworld
