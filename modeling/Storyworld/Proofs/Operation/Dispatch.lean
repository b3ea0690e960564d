import Storyworld.Proofs.Insertion.Site
import Storyworld.Proofs.Yields

/-!
Operations by what they can come to. An assignment that goes through comes to one write, a removal to one
value less; an insertion goes into a list or into a map, and what all the ways to do so have in common it
has as well.
-/

namespace Storyworld

namespace State

variable {s : State} {flags : Flags} {path : Path} {selector v : Tree} {Q : Path → Applied × State → Prop}

theorem yields_slot {unwrap : Bool} : Yields (path <+: ·) (s.slot path unwrap) := by
  unfold slot
  split
  · exact yields_error
  · refine yields_ok ?_
    split
    · exact List.prefix_append path _
    · exact List.prefix_refl path

-- What an assignment can come to.
def Overwrites (s : State) (path : Path) (r : Applied × State) : Prop :=
  ∃ slot v, path <+: slot ∧ r = s.overwrite path slot v

theorem overwrites_put : Yields (s.Overwrites path) (s.put path flags v) := by
  refine yields_slot.bind fun slot hs => ?_
  split
  · exact yields_ok ⟨slot, _, hs, rfl⟩
  · exact yields_bind fun _ => yields_ok ⟨slot, _, hs, rfl⟩
  · exact yields_ok ⟨slot, _, hs, rfl⟩

theorem overwrites_add : Yields (s.Overwrites path) (s.add path v) := by
  refine yields_slot.bind fun slot hs => ?_
  split
  · exact yields_bind fun _ => yields_ok ⟨slot, _, hs, rfl⟩
  · exact yields_error

-- What a removal of a path can come to. Nothing can be taken from the root, so it stays as it is.
def Unsets (s : State) (path : Path) (r : Applied × State) : Prop :=
  s.stat.has path ∧ ∃ x t, (s.stat.unset? path).getD (.null, s.stat) = (x, t) ∧
    r = (.one path (told "removed" x) (some ⟨path, x, .null⟩), { s with stat := t })

theorem unsets_delete : Yields (s.Unsets path) (s.delete path) := by
  unfold delete
  dsimp only
  split
  · exact yields_error
  case isFalse hh =>
    split
    · exact yields_error
    split
    · exact yields_error
    · exact yields_ok ⟨by simpa using hh, _, _, rfl, rfl⟩

-- What a selective removal can come to.
def Strips (s : State) (path : Path) (r : Applied × State) : Prop :=
  ∃ place x t, r = (.one place (told "removed" x) none, { s with stat := s.stat.set path t })

theorem strips_deleteFrom : Yields (s.Strips path) (s.deleteFrom path selector) := by
  unfold deleteFrom
  split
  case h_1 items _ =>
    unfold removeItem
    cases s.closedList path <;> cases itemFor? items selector
    case false.some i => exact yields_ok ⟨_, _, _, rfl⟩
    all_goals exact yields_error
  case h_2 fields _ =>
    unfold removeEntry
    dsimp only
    split
    · split
      · exact yields_error
      · exact yields_ok ⟨_, _, _, rfl⟩
    · exact yields_error
  · exact yields_error
  · exact yields_error

-- The container of an insertion is what stands at its path, or the parent of a path where nothing
-- stands. A map that is made for a selector is its own container.
def Houses (s : State) (container path : Path) : Prop :=
  container = path ∨ s.stat.get? path = none ∧ ∃ step, path = container.child step

-- All ways to insert something into a container come to what has the property.
structure Inserts (s : State) (flags : Flags) (Q : Path → Applied × State → Prop) : Prop where
  item  : ∀ (container : Path) (items : List Tree) (index : Option Nat) (v : Tree),
    s.stat.get? container = some (.arr items) →
      Yields (Q container) (s.insertItem flags container items index v)
  entry : ∀ (container : Path) (fields : Fields) (key : String) (v : Tree),
    s.stat.get? container = some (.obj fields) → Yields (Q container) (s.insertKey flags container key v)
  merge : ∀ (container : Path) (v : Tree), Yields (Q container) (s.mergeInto flags container v)
  -- Into a map that is made for it.
  made  : ∀ (container : Path) (made : State) (key : String) (v : Tree), s.stat.get? container = none →
    s.makeMap container = .ok made → Yields (Q container) (made.insertKey flags container key v)

namespace Inserts

theorem insertNew (h : s.Inserts flags Q) (hn : s.stat.get? path = none) :
    Yields (fun r => ∃ container, s.Houses container path ∧ Q container r) (s.insertNew flags path v) := by
  obtain ⟨p, step, rfl⟩ := exists_child hn
  have hp : s.Houses p (p.child step) := .inr ⟨hn, step, rfl⟩
  simp only [State.insertNew, Path.child, List.getLast?_concat, List.dropLast_concat]
  split
  · exact yields_error
  case h_2 hc => exact (h.entry _ _ _ _ hc).mono fun _ hr => ⟨p, hp, hr⟩
  case h_3 hc =>
    split
    · exact (h.item _ _ _ _ hc).mono fun _ hr => ⟨p, hp, hr⟩
    · exact yields_error
  · exact yields_error

theorem insert (h : s.Inserts flags Q) :
    Yields (fun r => ∃ container, s.Houses container path ∧ Q container r) (s.insert flags path v) := by
  unfold State.insert
  split
  case h_1 hc => exact (h.item _ _ _ _ hc).mono fun _ hr => ⟨path, .inl rfl, hr⟩
  · exact (h.merge _ _).mono fun _ hr => ⟨path, .inl rfl, hr⟩
  · exact yields_error
  case h_4 hn => exact h.insertNew hn

theorem insertAt (h : s.Inserts flags Q) : Yields (Q path) (s.insertAt flags path selector v) := by
  unfold State.insertAt
  split
  case h_1 hc =>
    split
    · exact h.item _ _ _ _ hc
    · exact yields_error
  case h_2 hc => exact h.entry _ _ _ _ hc
  · exact yields_error
  · exact yields_error

end Inserts

end State

namespace Operation

variable {s : State} {flags : Flags} {op : Operation} {applied : Applied} {Q : Path → Applied × State → Prop}

theorem inserts_run (hq : s.Inserts flags Q) (h : (op.run flags s).1 = .ok applied) (hi : op.IsInsertion) :
    ∃ container, s.Houses container op.path ∧ Q container (applied, (op.run flags s).2) := by
  cases op
  case insert path v => exact hq.insert _ (of_keeping_eq_ok h)
  case insertAt path selector v =>
    refine ⟨path, .inl rfl, ?_⟩
    cases hn : s.stat.get? path
    case some c =>
      have hh : s.stat.has path := by simp [Tree.has, hn]
      simp only [run, hh, if_true] at h ⊢
      exact hq.insertAt _ (of_keeping_eq_ok h)
    case none =>
      have hh : s.stat.has path = false := by simp [Tree.has, hn]
      simp only [run, hh, Bool.false_eq_true, if_false] at h ⊢
      cases hm : s.makeMap path <;> simp only [hm] at h ⊢
      case error => cases h
      case ok    => exact hq.made _ _ _ _ hn hm _ (of_keeping_eq_ok h)
  all_goals cases hi

end Operation

end Storyworld
