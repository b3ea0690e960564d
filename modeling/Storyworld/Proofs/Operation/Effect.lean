import Storyworld.Proofs.Operation.Dispatch

/-!
What an operation does to a state as a whole. All but the insertions change the live tree alone. An
insertion writes its container, has the schema read off anew, and cleans what it has written.
-/

namespace Storyworld

namespace State

variable {s s' : State} {flags : Flags} {op : Operation} {path container p : Path} {items : List Tree}
  {index : Option Nat} {fields : Fields} {key : String} {keys : List String} {c selector v x : Tree}
  {step : Segment}

-- The values at some paths rid of their metadata, one after the other.
def cleanAll (s : State) (paths : List Path) : State :=
  paths.foldl (fun s path => (s.cleanAt path).2) s

theorem cleanEntries_eq_cleanAll :
    (s.cleanEntries container keys).2 = s.cleanAll ((keys.map .key).map container.child) := by
  induction keys generalizing s
  case nil => rfl
  case cons key keys ih => exact ih

inductive Fills (s : State) (flags : Flags) (container : Path) : State → Prop where
  | mk (v : Tree) (steps : List Segment) :
    Fills s flags container
      (({ s with stat := s.stat.set container v }.refreshSchema container flags).cleanAll
        (steps.map container.child))

theorem fills_insertItem :
    Yields (s.Fills flags container ·.2) (s.insertItem flags container items index v) := by
  unfold insertItem
  split
  · exact yields_error
  · exact yields_ok <| .mk _ [.index _]

theorem fills_insertKey (hc : s.stat.get? container = some c) :
    Yields (s.Fills flags container ·.2) (s.insertKey flags container key v) := by
  unfold insertKey
  split
  · exact yields_error
  · refine yields_ok ?_
    rw [Tree.set_child hc]
    exact .mk _ [.key key]

theorem fills_mergeInto : Yields (s.Fills flags container ·.2) (s.mergeInto flags container v) := by
  unfold mergeInto
  split
  · split
    · exact yields_error
    · refine yields_ok ?_
      dsimp only
      rw [cleanEntries_eq_cleanAll]
      exact .mk _ _
  · exact yields_error

-- The write of the empty map and the write into it are one.
theorem fills_makeMap (hm : s.makeMap path = .ok s') :
    Yields (s.Fills flags path ·.2) (s'.insertKey flags path key v) := by
  obtain ⟨_, _, rfl⟩ := makeMap_eq_ok.mp hm
  refine (fills_insertKey Tree.get?_set_self).mono fun r h => ?_
  obtain ⟨_, _⟩ := r
  cases h
  dsimp only
  rw [Tree.set_set]
  exact .mk _ _

theorem inserts_fills : s.Inserts flags fun container r => s.Fills flags container r.2 where
  item _ _ _ _ _     := fills_insertItem
  entry _ _ _ _ hc   := fills_insertKey hc
  merge _ _          := fills_mergeInto
  made _ _ _ _ _ hm  := fills_makeMap hm

-- What the other operations do to the live tree.
inductive Writes (s : State) : Operation → State → Prop where
  | write {op : Operation} {p : Path} {v : Tree} (hp : op.path <+: p) :
    Writes s op { s with stat := s.stat.set p v }
  | remove {path : Path} {x t : Tree} (h : s.stat.unset? path = some (x, t)) :
    Writes s (.delete path) { s with stat := t }

theorem Writes.schema (h : s.Writes op s') : s'.schema = s.schema := by
  cases h <;> rfl

theorem writes_put : Yields (s.Writes (.set path v) ·.2) (s.put path flags v) := by
  refine overwrites_put.mono fun r h => ?_
  obtain ⟨slot, _, hs, rfl⟩ := h
  exact .write hs

theorem writes_add : Yields (s.Writes (.add path v) ·.2) (s.add path v) := by
  refine overwrites_add.mono fun r h => ?_
  obtain ⟨slot, _, hs, rfl⟩ := h
  exact .write hs

theorem writes_delete : Yields (s.Writes (.delete path) ·.2) (s.delete path) := by
  refine unsets_delete.mono fun r h => ?_
  obtain ⟨hh, x, t, hu, rfl⟩ := h
  obtain ⟨c, hc⟩ := Option.isSome_iff_exists.mp hh
  cases h : s.stat.unset? path <;> rw [h] at hu
  -- The root is written as it was.
  case none =>
    cases hu
    exact Tree.set_of_get? hc ▸ .write (List.prefix_refl path)
  case some r =>
    cases hu
    exact .remove h

theorem writes_deleteFrom :
    Yields (s.Writes (.deleteFrom path selector) ·.2) (s.deleteFrom path selector) := by
  refine strips_deleteFrom.mono fun r h => ?_
  obtain ⟨_, _, _, rfl⟩ := h
  exact .write (List.prefix_refl path)

end State

namespace Operation

variable {s : State} {flags : Flags} {op : Operation} {applied : Applied}

theorem fills_run (hi : op.IsInsertion) (h : (op.run flags s).1 = .ok applied) :
    ∃ container, s.Houses container op.path ∧ s.Fills flags container (op.run flags s).2 :=
  inserts_run State.inserts_fills h hi

theorem writes_run (hi : ¬op.IsInsertion) (h : (op.run flags s).1 = .ok applied) :
    s.Writes op (op.run flags s).2 := by
  cases op
  case set        => exact State.writes_put _ (of_keeping_eq_ok h)
  case add        => exact State.writes_add _ (of_keeping_eq_ok h)
  case delete     => exact State.writes_delete _ (of_keeping_eq_ok h)
  case deleteFrom => exact State.writes_deleteFrom _ (of_keeping_eq_ok h)
  all_goals exact absurd trivial hi

end Operation

end Storyworld
