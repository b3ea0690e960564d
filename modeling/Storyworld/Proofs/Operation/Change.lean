import Storyworld.Proofs.Operation.Announcement
import Storyworld.Proofs.Operation.Effect
import Storyworld.Proofs.Operation.Removal

/-!
What listeners are told of a change: the value that stood at its path before, and the one that stands
there from then on. Of a removal they are told that nothing does.
-/

namespace Storyworld

-- The change, if there is one, has the old value of its path, which is null where nothing stood, and the
-- value that the new state has there.
def Applied.Tells (a : Applied) (s s' : State) : Prop :=
  ∀ change, a.change = some change →
    change.old = s.valueAt change.path ∧ s'.stat.get? change.path = some change.new

def Applied.TellsRemoval (a : Applied) (s : State) : Prop :=
  ∀ change, a.change = some change → change.old = s.valueAt change.path ∧ change.new = .null

theorem Applied.tells_some {accounts : List (Path × String)} {path : Path} {v w : Tree} {s s' : State}
    (hv : v = s.valueAt path) (hw : s'.stat.get? path = some w) :
    Tells ⟨accounts, some ⟨path, v, w⟩⟩ s s' := by
  rintro _ ⟨⟩
  exact ⟨hv, hw⟩

namespace State

variable {s s' : State} {flags : Flags} {path slot container p : Path} {items : List Tree}
  {fields : Fields} {index : Option Nat} {key : String} {keys : List String} {selector v : Tree}
  {step : Segment}

theorem valueAt_of_get? (h : s.stat.get? path = some v) : s.valueAt path = v := by
  simp [valueAt, h]

theorem valueAt_of_missing (h : s.stat.get? path = none) : s.valueAt path = .null := by
  simp [valueAt, h]

theorem get?_of_has (h : s.stat.has path) : s.stat.get? path = some (s.valueAt path) := by
  obtain ⟨v, hv⟩ := Option.isSome_iff_exists.mp h
  rw [hv, valueAt_of_get? hv]

-- What is written below a place leaves something there.
theorem has_set (h : path <+: p) : (s.stat.set p v).has path := by
  obtain ⟨q, rfl⟩ := h
  have hg : (s.stat.set (path ++ q) v).get? (path ++ q) = some v := Tree.get?_set_self
  rw [Tree.get?_append] at hg
  obtain ⟨c, hc, -⟩ := Option.bind_eq_some_iff.mp hg
  simp [Tree.has, hc]

theorem get?_cleanAt (h : s.stat.has path) :
    (s.cleanAt path).2.stat.get? path = some (s.cleanAt path).1 := by
  rw [cleanAt_eq (get?_of_has h)]
  exact Tree.get?_set_self

theorem has_cleanAt_child (h : s.stat.has container) :
    (s.cleanAt (container.child step)).2.stat.has container := by
  cases hc : s.stat.get? (container.child step)
  case none   => rwa [cleanAt_of_missing hc]
  case some v =>
    rw [cleanAt_eq hc]
    exact has_set (List.prefix_append container [step])

theorem has_cleanEntries (h : s.stat.has container) :
    (s.cleanEntries container keys).2.stat.has container := by
  induction keys generalizing s
  case nil              => exact h
  case cons key keys ih => exact ih (has_cleanAt_child h)

theorem tells_overwrite {new : Tree} (h : path <+: slot) :
    (s.overwrite path slot new).1.Tells s (s.overwrite path slot new).2 :=
  Applied.tells_some rfl (get?_of_has (has_set h))

theorem Overwrites.tells {r : Applied × State} (h : s.Overwrites path r) : r.1.Tells s r.2 := by
  obtain ⟨_, _, hs, rfl⟩ := h
  exact tells_overwrite hs

theorem tells_insertItem (hc : s.stat.get? container = some (.arr items)) :
    Yields (fun r => r.1.Tells s r.2) (s.insertItem flags container items index v) := by
  unfold insertItem
  split
  · exact yields_error
  · refine yields_ok (Applied.tells_some (valueAt_of_get? hc).symm (get?_of_has (has_cleanAt_child ?_)))
    rw [refreshSchema_stat]
    exact has_set (List.prefix_refl container)

-- Of the key, the state just before the insertion has what there was anyway.
theorem tells_insertKey
    (ho : s'.valueAt (container.child (.key key)) = s.valueAt (container.child (.key key))) :
    Yields (fun r => r.1.Tells s r.2) (s'.insertKey flags container key v) := by
  unfold insertKey
  split
  · exact yields_error
  · refine yields_ok (Applied.tells_some ho (get?_cleanAt ?_))
    rw [refreshSchema_stat]
    exact has_set (List.prefix_refl _)

theorem tells_mergeInto : Yields (fun r => r.1.Tells s r.2) (s.mergeInto flags container v) := by
  unfold mergeInto
  split
  · split
    · exact yields_error
    · refine yields_ok (Applied.tells_some rfl (get?_of_has (has_cleanEntries ?_)))
      rw [refreshSchema_stat]
      exact has_set (List.prefix_refl container)
  · exact yields_error

-- The map that has been made is empty, so the key is as new as if it were not there.
theorem tells_makeMap (hn : s.stat.get? path = none) (hm : s.makeMap path = .ok s') :
    Yields (fun r => r.1.Tells s r.2) (s'.insertKey flags path key v) := by
  obtain ⟨_, _, rfl⟩ := makeMap_eq_ok.mp hm
  refine tells_insertKey ?_
  rw [valueAt_of_missing, valueAt_of_missing]
  · rw [Tree.get?_child, hn]; rfl
  · rw [Tree.get?_child, Tree.get?_set_self]; rfl

theorem inserts_tells : s.Inserts flags fun _ r => r.1.Tells s r.2 where
  item _ _ _ _ hc    := tells_insertItem hc
  entry _ _ _ _ _    := tells_insertKey rfl
  merge _ _          := tells_mergeInto
  made _ _ _ _ hn hm := tells_makeMap hn hm

theorem tells_delete :
    Yields (·.1.TellsRemoval s) (s.delete (p.child step)) := by
  intro r h
  obtain ⟨c, d, x, st, hx, -, -, -, -, -, rfl⟩ := of_delete_eq_ok h
  rintro _ ⟨⟩
  exact ⟨(valueAt_of_get? hx).symm, rfl⟩

end State

namespace Operation

variable {s : State} {flags : Flags} {op : Operation} {applied : Applied}

theorem tells_run (hr : ¬op.IsRemoval) (h : (op.run flags s).1 = .ok applied) :
    applied.Tells s (op.run flags s).2 := by
  cases op
  case set    => exact (State.overwrites_put _ (of_keeping_eq_ok h)).tells
  case add    => exact (State.overwrites_add _ (of_keeping_eq_ok h)).tells
  case insert | insertAt =>
    obtain ⟨_, -, ht⟩ := inserts_run State.inserts_tells h trivial
    exact ht
  all_goals exact absurd trivial hr

theorem tells_run_removal (hr : op.IsRemoval) (hp : ∃ (p : Path) (step : Segment), op.path = p.child step)
    (h : (op.run flags s).1 = .ok applied) : applied.TellsRemoval s := by
  cases op
  case delete path =>
    obtain ⟨p, step, rfl : path = p.child step⟩ := hp
    exact State.tells_delete _ (of_keeping_eq_ok h)
  case deleteFrom =>
    have hc : applied.change = none := (State.strips_deleteFrom _ (of_keeping_eq_ok h)).change
    simp [Applied.TellsRemoval, hc]
  all_goals exact hr.elim

end Operation

namespace Command

variable {c : Command} {s : State} {flags : Flags} {dice : Dice} {applied : Applied} {change : Change}

-- What is announced of a command is what it found and what it has left.
theorem run_tells (h : (c.run flags s dice).1 = .ok applied) (hc : applied.change = some change) :
    change.old = s.valueAt change.path ∧
      (c.verb.canonical ≠ .delete →
        (c.run flags s dice).2.1.stat.get? change.path = some change.new) ∧
      (c.verb.canonical = .delete → change.new = .null) := by
  obtain ⟨op, dice', a, ho, hr, rfl, hs⟩ := exists_of_run_eq_ok h
  rw [Applied.change_because] at hc
  have hi := isRemoval_of_ofCommand ho
  by_cases hv : c.verb.canonical = .delete
  case pos =>
    have hp := exists_child_of_target (ofCommand_eq_ok ho).1
    obtain ⟨hold, hnew⟩ := Operation.tells_run_removal (hi.mpr hv) hp hr _ hc
    exact ⟨hold, absurd hv, fun _ => hnew⟩
  case neg =>
    obtain ⟨hold, hnew⟩ := Operation.tells_run (mt hi.mp hv) hr _ hc
    exact ⟨hold, fun _ => hs ▸ hnew, fun hd => absurd hd hv⟩

def wilds : State where
  stat := .obj [("world", .obj [])]

def settleBree : Command where
  verb := .insert
  call := ""
  args := ["world.towns", "\"bree\"", "\x7b\"kind\":\"village\",\"$meta\":\x7b\"extensible\":true\x7d\x7d"]
  reason := ""

def bree : Change where
  path := [.key "world", .key "towns", .key "bree"]
  old := .null
  new := .obj [("kind", .str "village")]

-- The map of towns is made first, and still it is the town that is announced, rid of its metadata.
theorem wilds_settleBree_tells :
    ∃ applied, (settleBree.run {} wilds ⟨[], 0⟩).1 = .ok applied ∧ applied.change = some bree ∧
      bree.old = wilds.valueAt bree.path ∧
      (settleBree.run {} wilds ⟨[], 0⟩).2.1.stat.get? bree.path = some bree.new := by
  have hc : (settleBree.run {} wilds ⟨[], 0⟩).1.toOption.bind (·.change) = some bree := by
    decide +kernel
  cases h : (settleBree.run {} wilds ⟨[], 0⟩).1 <;> rw [h] at hc
  case error => cases hc
  case ok applied =>
    obtain ⟨ho, hn, -⟩ := run_tells h hc
    exact ⟨applied, rfl, hc, ho, hn (by decide)⟩

end Command

end Storyworld
