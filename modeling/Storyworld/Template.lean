import Storyworld.Tree.Access

/-!
Templates: the defaults that a schema node adds to what is inserted there. The inserted value wins.
-/

namespace Storyworld.Template

-- `items` with the defaults behind them, or under them position by position.
def fill (concat : Bool) (items defaults : List Tree) : List Tree :=
  if concat then items ++ defaults else items ++ defaults.drop items.length

-- A single value counts as a list of one for a list template, unless `strict`. A value and a template of
-- different kinds have nothing to add to each other.
def apply (strict concat : Bool) (template : Option Tree) (v : Tree) : Tree :=
  match template with
  | none => v
  | some (.obj defaults) => match v with
    | .obj fields => (Tree.obj defaults).merge (.obj fields)
    | _ => v
  | some (.arr defaults) => match v with
    | .arr items => .arr (fill concat items defaults)
    | .obj _ => v
    | _ => if strict then v else .arr (fill concat [v] defaults)
  | some _ => v

@[simp] theorem apply_none (strict concat : Bool) (v : Tree) : apply strict concat none v = v := rfl

end Storyworld.Template
