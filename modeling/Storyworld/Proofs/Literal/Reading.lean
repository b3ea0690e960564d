import Storyworld.Literal.Parser
import Storyworld.Proofs.Yields

/-!
What literals stand for, whatever is in the text: a property of trees that single values have, and
containers if all in them have it, is a property of every value that is read.
-/

namespace Storyworld.Literal

variable {α : Type} {P : α → Prop} {Q : Tree → Prop} {V : Nat → Tree → Prop} {read : Reader Tree}
  {whole fuel room : Nat} {text : String}

-- What the reader takes off a text has the property.
def Reads (P : α → Prop) (read : Reader α) : Prop :=
  ∀ s, Yields (P ·.1) (read s)

-- A property that may depend on the room: what is in a container has it in what room is left.
structure Composes (V : Nat → Tree → Prop) : Prop where
  leaf : ∀ {room t}, t.isComposite = false → V room t
  list : ∀ {room items}, (∀ x ∈ items, V room x) → V (room + 1) (.arr items)
  map  : ∀ {room entries}, (∀ e ∈ entries, V room e.2) → V (room + 1) (.obj (Fields.ofList entries))

theorem reads_items (h : Reads Q read) : Reads (∀ x ∈ ·, Q x) (items whole read fuel) := by
  intro s
  induction fuel generalizing s
  case zero => exact yields_error
  case succ fuel ih =>
    unfold items
    split
    · exact yields_ok (by simp)
    · refine (h _).bind fun r hx => ?_
      dsimp only
      split
      · exact (ih _).bind fun r hxs => yields_ok (List.forall_mem_cons.mpr ⟨hx, hxs⟩)
      · exact yields_ok (by simpa using hx)
      · exact yields_error

theorem reads_entries (h : Reads Q read) : Reads (∀ e ∈ ·, Q e.2) (entries whole read fuel) := by
  intro s
  induction fuel generalizing s
  case zero => exact yields_error
  case succ fuel ih =>
    unfold entries
    split
    · exact yields_ok (by simp)
    · refine yields_bind fun r => ?_
      split
      split
      · refine (h _).bind fun r hv => ?_
        dsimp only
        split
        · exact (ih _).bind fun r hr => yields_ok (List.forall_mem_cons.mpr ⟨hv, hr⟩)
        · exact yields_ok (by simpa using hv)
        · exact yields_error
      · exact yields_error

theorem reads_number (h : ∀ t : Tree, t.isComposite = false → Q t) : Reads Q number := by
  intro s
  unfold number
  dsimp only
  split
  · exact yields_ok (h _ rfl)
  · exact yields_error

theorem reads_word (h : ∀ t : Tree, t.isComposite = false → Q t) : Reads Q word := by
  intro s
  refine Yields.map (P := Q) ?_ fun _ => id
  unfold wordValue
  split
  · exact yields_ok (h _ rfl)
  split
  · exact yields_ok (h _ rfl)
  split
  · exact yields_ok (h _ rfl)
  · exact yields_error

-- By induction on the room, of which the values in a container have less.
theorem Composes.value (h : Composes V) : Reads (V room) (value whole room) := by
  intro s
  induction room using Nat.strongRecOn generalizing s
  case ind room ih =>
    have leaf : ∀ t : Tree, t.isComposite = false → V room t := fun _ => h.leaf
    unfold Literal.value
    split
    case h_1 => exact yields_error
    split
    case isTrue =>
      split
      case h_1      => exact yields_error
      case h_2 room =>
        have hr : Reads (V room) (Literal.value whole room) := ih room (Nat.lt_succ_self room)
        exact (reads_entries hr _).map fun _ => h.map
    split
    case isTrue =>
      split
      case h_1      => exact yields_error
      case h_2 room =>
        have hr : Reads (V room) (Literal.value whole room) := ih room (Nat.lt_succ_self room)
        exact (reads_items hr _).map fun _ => h.list
    split
    case isTrue => exact yields_map fun _ => leaf _ rfl
    split
    case isTrue => exact reads_number leaf _
    split
    case isTrue  => exact reads_word leaf _
    case isFalse => exact yields_error

theorem Composes.parse (h : Composes V) : Yields (V maxNesting) (parse text) := by
  refine (h.value _).bind fun r hr => ?_
  dsimp only
  split
  · exact yields_ok hr
  · exact yields_error

end Storyworld.Literal
