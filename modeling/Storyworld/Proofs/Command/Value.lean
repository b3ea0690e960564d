import Storyworld.Command.Argument
import Storyworld.Proofs.Literal.Reading
import Storyworld.Proofs.Tree.KeysOnce

/-!
What arguments stand for: trees in which every key stands once in its map, in whichever notation they
are written.
-/

namespace Storyworld

namespace Json

variable {α : Type} {P : α → Prop} {read : Reader Tree} {fuel room : Nat}

-- What the reader takes off a text has the property.
def Reads (P : α → Prop) (read : Reader α) : Prop :=
  ∀ s, Gives (P ·.1) (read s)

theorem reads_items (h : Reads Tree.KeysOnce read) : Reads (∀ x ∈ ·, x.KeysOnce) (items read fuel) := by
  intro s
  induction fuel generalizing s
  case zero => exact gives_none
  case succ fuel ih =>
    refine (h _).bind fun r hx => ?_
    dsimp only
    split
    · exact (ih _).bind fun r hxs => gives_some (List.forall_mem_cons.mpr ⟨hx, hxs⟩)
    · exact gives_some (by simpa using hx)
    · exact gives_none

theorem reads_entries (h : Reads Tree.KeysOnce read) :
    Reads (∀ e ∈ ·, e.2.KeysOnce) (entries read fuel) := by
  intro s
  induction fuel generalizing s
  case zero => exact gives_none
  case succ fuel ih =>
    refine gives_bind fun r => ?_
    -- The key and the rest behind it, and then by what the rest starts with.
    split
    split
    · refine (h _).bind fun r hv => ?_
      dsimp only
      split
      · exact (ih _).bind fun r hr => gives_some (List.forall_mem_cons.mpr ⟨hv, hr⟩)
      · exact gives_some (by simpa using hv)
      · exact gives_none
    · exact gives_none

theorem reads_list (h : Reads Tree.KeysOnce read) : Reads Tree.KeysOnce (list read) := by
  intro s
  unfold list
  split
  · exact gives_some (.arr (by simp))
  · exact (reads_items h _).map fun _ => .arr

theorem reads_map (h : Reads Tree.KeysOnce read) : Reads Tree.KeysOnce (map Fields.ofList read) := by
  intro s
  unfold map
  split
  · exact gives_some (.obj .nil (by simp))
  · exact (reads_entries h _).map fun _ => Tree.keysOnce_ofList

-- By induction on the room, of which the values in a container have less.
theorem reads_value : Reads Tree.KeysOnce (value Fields.ofList room) := by
  intro s
  induction room generalizing s
  case zero =>
    unfold value
    split
    all_goals first | exact gives_none | exact gives_map fun _ => .leaf rfl
  case succ room ih =>
    unfold value
    split
    case h_5 => exact reads_list ih _
    case h_6 => exact reads_map ih _
    all_goals exact gives_map fun _ => .leaf rfl

theorem keysOnce_parse? {s : List Char} : Gives Tree.KeysOnce (parse? s) := by
  unfold parse? parseWith?
  split
  case h_1 t rest hv =>
    split
    · exact gives_some (reads_value _ _ hv)
    · exact gives_none
  case h_2 => exact gives_none

end Json

namespace Literal

theorem composes_keysOnce : Composes fun _ => Tree.KeysOnce where
  leaf := .leaf
  list := .arr
  map  := Tree.keysOnce_ofList

theorem keysOnce_parse {text : String} : Yields Tree.KeysOnce (parse text) :=
  composes_keysOnce.parse

end Literal

namespace Yaml

variable {α β : Type} {P : α → Prop} {R : β → Prop} {x : Count α} {f : α → Count β} {anchors : Anchors}
  {room : Nat} {n : Node}

-- What the counting reading comes to has the property.
def Counts (P : α → Prop) (x : Count α) : Prop :=
  ∀ n, Gives (P ·.1) (x n)

theorem counts_pure {a : α} (h : P a) : Counts P (pure a) :=
  fun _ => gives_some h

theorem counts_failure : Counts P failure :=
  fun _ => gives_none

theorem Counts.bind (h : Counts P x) (hf : ∀ a, P a → Counts R (f a)) : Counts R (x >>= f) :=
  fun n => (h n).bind fun r hr => hf r.1 hr r.2

theorem counts_bind (hf : ∀ a, Counts R (f a)) : Counts R (x >>= f) :=
  Counts.bind (P := fun _ => True) (fun _ _ _ => trivial) fun a _ => hf a

theorem counts_mapM {as : List α} (hf : ∀ a ∈ as, Counts R (f a)) :
    Counts (∀ b ∈ ·, R b) (as.mapM f) := by
  induction as
  case nil => exact counts_pure (by simp)
  case cons a as ih =>
    obtain ⟨ha, hf⟩ := List.forall_mem_cons.mp hf
    rw [List.mapM_cons]
    exact ha.bind fun b hb => (ih hf).bind fun bs hbs =>
      counts_pure (List.forall_mem_cons.mpr ⟨hb, hbs⟩)

theorem counts_elim {t? : Option α} (h : Gives P t?) : Counts P (t?.elim failure pure) := by
  cases t?
  case none   => exact counts_failure
  case some t => exact counts_pure (h t rfl)

/-! ### Scalars -/

theorem keysOnce_float? {text : List Char} : Gives Tree.KeysOnce (float? text) := by
  unfold float?
  extract_lets unsigned negative word
  split
  · exact gives_some (.leaf rfl)
  split
  · exact gives_some (.leaf rfl)
  split
  · exact gives_none
  · refine gives_bind fun x => ?_
    split
    · exact gives_some (.leaf rfl)
    · exact gives_none

theorem keysOnce_integerTree? {text : List Char} : Gives (Gives Tree.KeysOnce) (integerTree? text) := by
  unfold integerTree?
  split
  · exact gives_some (gives_map fun _ => .leaf rfl)
  · exact gives_map fun _ => gives_none

theorem keysOnce_plainTree? {text : String} : Gives Tree.KeysOnce (plainTree? text) := by
  unfold plainTree?
  dsimp only
  split
  · exact gives_some (.leaf rfl)
  split
  · exact gives_some (.leaf rfl)
  split
  case h_1 t? ht => exact keysOnce_integerTree? t? ht
  split
  case h_1 t ht =>
    split at ht
    · cases ht
    · exact gives_some (keysOnce_float? t ht)
  · exact gives_some (.leaf rfl)

theorem keysOnce_scalarTree? {tag : Option String} {text : String} {plain : Bool} :
    Gives Tree.KeysOnce (scalarTree? tag text plain) := by
  -- An integer by its tag has to be one that can be stored.
  have hj : Gives Tree.KeysOnce (integerTree? text.toList).join := fun t ht =>
    keysOnce_integerTree? (some t) (Option.join_eq_some_iff.mp ht) t rfl
  unfold scalarTree?
  split
  · split
    · exact keysOnce_plainTree?
    · exact gives_some (.leaf rfl)
  split
  · exact gives_none
  split
  · exact gives_map fun _ => .leaf rfl
  split
  · exact hj
  split
  · exact keysOnce_float?
  split
  · split
    · exact gives_some (.leaf rfl)
    · exact gives_none
  · exact gives_some (.leaf rfl)

/-! ### Nodes -/

-- By induction on the room: an alias leads to a node in the same room, and only containers use it up.
theorem keysOnce_tree : Counts Tree.KeysOnce (tree anchors room n) := by
  induction room using Nat.strongRecOn generalizing n
  case ind room ih =>
    unfold tree
    refine counts_bind fun n => ?_
    split
    case h_1 => exact counts_elim keysOnce_scalarTree?
    case h_2 =>
      split
      case h_1      => exact counts_failure
      case h_2 room =>
        split
        · exact counts_failure
        · refine (counts_mapM fun x _ => ?_).bind fun xs hxs => counts_pure (.arr hxs)
          exact ih room (Nat.lt_succ_self room)
    case h_3 =>
      split
      case h_1      => exact counts_failure
      case h_2 room =>
        split
        · exact counts_failure
        · refine (counts_mapM fun e _ => ?_).bind fun es hes => counts_pure (Tree.keysOnce_ofList hes)
          refine counts_bind fun k => (ih room (Nat.lt_succ_self room)).bind fun v hv => ?_
          exact counts_pure hv
    case h_4 => exact counts_failure

theorem keysOnce_parse? {text : List Char} : Gives Tree.KeysOnce (parse? text) := by
  refine gives_bind fun tokens => gives_bind fun d => ?_
  exact (keysOnce_tree 0).map fun _ => id

end Yaml

namespace Argument

variable {raw text : String} {dice : Dice}

theorem keysOnce_keyword? : Gives Tree.KeysOnce (keyword? text) := by
  unfold keyword?
  split
  · exact gives_some (.leaf rfl)
  split
  · exact gives_some (.leaf rfl)
  split
  · exact gives_some (.leaf rfl)
  · exact gives_none

theorem keysOnce_container? : Gives Tree.KeysOnce (container? text) := by
  unfold container?
  split
  case h_1 t ht =>
    split
    · exact gives_some (Literal.keysOnce_parse t ht)
    · exact gives_none
  case h_2 => exact gives_none

theorem keysOnce_ofQuantity? {q : Quantity} : Gives Tree.KeysOnce (ofQuantity? q) := by
  unfold ofQuantity?
  split
  · exact gives_map fun _ => .leaf rfl
  · exact gives_some (.leaf rfl)

theorem keysOnce_formula? : Gives Tree.KeysOnce (formula? text dice).1 := by
  unfold formula?
  split
  · exact gives_none
  split
  · exact gives_none
  split
  · exact keysOnce_ofQuantity?
  · exact gives_none

-- However an argument is written, every key stands once in its value.
theorem keysOnce_value : (value raw dice).1.KeysOnce := by
  unfold value
  dsimp only
  split
  case h_1 t ht =>
    obtain ht | ⟨-, ht⟩ := Option.or_eq_some_iff.mp ht
    · obtain ht | ⟨-, ht⟩ := Option.or_eq_some_iff.mp ht
      · exact keysOnce_keyword? t ht
      · exact Json.keysOnce_parse? t ht
    · exact keysOnce_container? t ht
  case h_2 =>
    cases hv : (formula? (Text.stripped raw) dice).1.or (Yaml.parse? (Text.stripped raw).toList)
    case none => exact .leaf rfl
    case some t =>
      obtain ht | ⟨-, ht⟩ := Option.or_eq_some_iff.mp hv
      · exact keysOnce_formula? t ht
      · exact Yaml.keysOnce_parse? t ht

end Argument

end Storyworld
