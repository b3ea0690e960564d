import Storyworld.Proofs.Meta.Clean
import Storyworld.Tree.Access

/-!
Origins: what a path of a cleaned tree leads to was there before, metadata and all. The entries and items
that are about their container have no part in the paths, and items move up where some are gone.
-/

namespace Storyworld.Meta

variable {t x : Tree} {step : Segment} {path : Path} {items : List Tree}

-- What the child that a step leads to was before the cleaning.
def originChild? (t : Tree) (step : Segment) : Option Tree :=
  match t with
  | .obj fields => if step.name = key then none else Fields.get? step.name fields
  | .arr items => step.index? >>= ((items.filter (!isArtifact ·))[·]?)
  | _ => none

def origin? : Tree → Path → Option Tree
  | t, [] => some t
  | t, step :: rest => do origin? (← originChild? t step) rest

theorem child?_clean_eq : (clean t).child? step = (originChild? t step).map clean := by
  cases t <;> simp only [clean, Tree.child?, originChild?, Option.map_none]
  case arr items => cases step.index? <;> simp [cleanItems_eq]
  case obj fields =>
    rw [get?_cleanFields]
    split <;> rfl

theorem get?_clean_eq : (clean t).get? path = (origin? t path).map clean := by
  induction path generalizing t
  case nil => simp [origin?]
  case cons step rest ih =>
    rw [Tree.get?_cons, child?_clean_eq, origin?]
    cases originChild? t step
    case none   => rfl
    case some x => exact ih

-- At the first position stood the first item that is of the list itself.
theorem originChild?_arr (h : step.index? = some 0) :
    originChild? (.arr items) step = items.find? (!isArtifact ·) := by
  simp [originChild?, h, ← List.head?_eq_getElem?]

end Storyworld.Meta
