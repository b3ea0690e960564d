import Storyworld.Decimal.Text
import Storyworld.Text.Quoted

namespace Storyworld

inductive Token where
  | number (x : Float)
  | name (s : String)
  | text (s : String)
  | op (c : Char)
  | openParen
  | closeParen
  | openBracket
  | closeBracket
  | comma
  | dot
deriving DecidableEq

def Token.describe : Token → String
  | number x => "Num(" ++ Decimal.Layout.quoted.write x ++ ")"
  | name s => "Ident(" ++ Text.quote s ++ ")"
  | text s => "Str(" ++ Text.quote s ++ ")"
  | op c => "Op('" ++ c.toString ++ "')"
  | openParen => "LParen"
  | closeParen => "RParen"
  | openBracket => "LBracket"
  | closeBracket => "RBracket"
  | comma => "Comma"
  | dot => "Dot"

end Storyworld
