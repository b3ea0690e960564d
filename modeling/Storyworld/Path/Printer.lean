import Storyworld.Path.Basic
import Storyworld.Text.Quoted

/-!
Paths written out: `a.b[2]["x.y"]`, as messages and reports show them.
-/

namespace Storyworld.Path

-- Needs quotes, since as a bare name it would be read otherwise.
def needsQuotes (name : String) : Bool :=
  name.isEmpty || name.toList.any fun c => c == '.' || c == '[' || c == ']'

def writeStep (first : Bool) : Segment → String
  | .index n => "[" ++ (Segment.index n).name ++ "]"
  | .key k =>
    if needsQuotes k then "[" ++ Text.quote k ++ "]"
    else if first then k else "." ++ k

def write : Path → String
  | [] => ""
  | step :: rest => writeStep true step ++ String.join (rest.map (writeStep false))

end Storyworld.Path
