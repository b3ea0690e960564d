namespace Storyworld.Yaml

inductive Token where
  | versionDirective (major minor : Nat)
  | tagDirective (handle start : String)
  | documentStart
  | documentEnd
  | textEnd
  | blockList
  | blockMap
  | blockEnd
  | openBracket
  | closeBracket
  | openBrace
  | closeBrace
  | dash
  | comma
  | key
  | value
  | reference (name : String)
  | anchor (name : String)
  | tag (handle suffix : String)
  -- A scalar; a plain one stands without quotes and is no block of lines.
  | scalar (text : String) (plain : Bool)
deriving DecidableEq

end Storyworld.Yaml
