import Storyworld.Proofs.Operation.Dispatch

/-!
Which commands are announced. All that go through come with the change they made, but for those that
take a single item or entry away.
-/

namespace Storyworld

-- There is a change to tell listeners of.
def Applied.IsAnnounced (a : Applied) : Prop :=
  a.change.isSome

theorem Applied.change_because (a : Applied) (reason : String) : (a.because reason).change = a.change := by
  unfold because
  split <;> rfl

namespace State

variable {s : State} {flags : Flags} {path container : Path} {items : List Tree} {fields : Fields}
  {index : Option Nat} {key : String} {selector v : Tree}

theorem announced_insertItem : Yields (·.1.IsAnnounced) (s.insertItem flags container items index v) := by
  unfold insertItem
  split
  · exact yields_error
  · exact yields_ok rfl

theorem announced_insertKey : Yields (·.1.IsAnnounced) (s.insertKey flags container key v) := by
  unfold insertKey
  split
  · exact yields_error
  · exact yields_ok rfl

theorem announced_mergeInto : Yields (·.1.IsAnnounced) (s.mergeInto flags container v) := by
  unfold mergeInto
  split
  · split
    · exact yields_error
    · exact yields_ok rfl
  · exact yields_error

theorem inserts_announced : s.Inserts flags fun _ r => r.1.IsAnnounced where
  item _ _ _ _ _    := announced_insertItem
  entry _ _ _ _ _   := announced_insertKey
  merge _ _         := announced_mergeInto
  made _ _ _ _ _ _  := announced_insertKey

theorem Overwrites.isAnnounced {r : Applied × State} (h : s.Overwrites path r) : r.1.IsAnnounced := by
  obtain ⟨_, _, _, rfl⟩ := h
  rfl

theorem Unsets.isAnnounced {r : Applied × State} (h : s.Unsets path r) : r.1.IsAnnounced := by
  obtain ⟨_, _, _, _, rfl⟩ := h
  rfl

theorem Strips.change {r : Applied × State} (h : s.Strips path r) : r.1.change = none := by
  obtain ⟨_, _, _, rfl⟩ := h
  rfl

end State

namespace Operation

variable {s : State} {flags : Flags} {op : Operation} {applied : Applied}

def IsSelective : Operation → Prop
  | deleteFrom .. => True
  | _ => False

theorem isAnnounced_run (h : (op.run flags s).1 = .ok applied) :
    applied.IsAnnounced ↔ ¬op.IsSelective := by
  cases op
  case set    => exact iff_of_true (State.overwrites_put _ (of_keeping_eq_ok h)).isAnnounced id
  case add    => exact iff_of_true (State.overwrites_add _ (of_keeping_eq_ok h)).isAnnounced id
  case delete => exact iff_of_true (State.unsets_delete _ (of_keeping_eq_ok h)).isAnnounced id
  case deleteFrom =>
    have hc : applied.change = none := (State.strips_deleteFrom _ (of_keeping_eq_ok h)).change
    simp [Applied.IsAnnounced, hc, IsSelective]
  all_goals
    obtain ⟨_, -, ha⟩ := inserts_run State.inserts_announced h trivial
    exact iff_of_true ha id

end Operation

namespace Command

variable {c : Command} {s : State} {flags : Flags} {dice dice' : Dice} {applied : Applied} {op : Operation}

-- A removal that names what is to go beside the path.
def IsSelective (c : Command) : Prop :=
  c.verb.canonical = .delete ∧ c.args.tail ≠ []

theorem isSelective_of_ofCommand (h : Operation.ofCommand c dice = .ok (op, dice')) :
    op.IsSelective ↔ c.IsSelective := by
  obtain ⟨p, -, ha⟩ := asks_of_ofCommand h
  cases ha <;> simp [Operation.IsSelective, IsSelective, *]

-- Of the commands that go through, only selective removals are not announced.
theorem isAnnounced_run (h : (c.run flags s dice).1 = .ok applied) :
    applied.IsAnnounced ↔ ¬c.IsSelective := by
  obtain ⟨op, dice', a, ho, hr, rfl, -⟩ := exists_of_run_eq_ok h
  rw [← isSelective_of_ofCommand ho, ← Operation.isAnnounced_run hr, Applied.IsAnnounced,
    Applied.change_because]
  rfl

end Command

end Storyworld
