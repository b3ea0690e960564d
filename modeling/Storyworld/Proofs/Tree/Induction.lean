import Storyworld.Tree.Basic

/-!
Induction over trees, with the hypothesis for every item of a list and for every entry of a map.
-/

namespace Storyworld.Tree

@[elab_as_elim]
theorem inductionOn {motive : Tree → Prop} (t : Tree)
    (leaf : ∀ t : Tree, t.isComposite = false → motive t)
    (arr : ∀ items, (∀ x ∈ items, motive x) → motive (.arr items))
    (obj : ∀ fields, (∀ e ∈ fields, motive e.2) → motive (.obj fields)) : motive t :=
  match t with
  | .arr items  => arr items fun x _ => x.inductionOn leaf arr obj
  | .obj fields => obj fields fun e _ => e.2.inductionOn leaf arr obj
  | .null       => leaf .null rfl
  | .bool b     => leaf (.bool b) rfl
  | .num n      => leaf (.num n) rfl
  | .str s      => leaf (.str s) rfl
termination_by sizeOf t
decreasing_by
  all_goals
    have := List.sizeOf_lt_of_mem ‹_ ∈ _›
    simp_all only [Tree.arr.sizeOf_spec, Tree.obj.sizeOf_spec]
  · omega
  · have : sizeOf e = 1 + sizeOf e.1 + sizeOf e.2 := rfl
    omega

end Storyworld.Tree
