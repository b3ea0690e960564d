import Storyworld.Proofs.Insertion.Site
import Storyworld.Proofs.Tree.Removal
import Storyworld.Proofs.Yields

/-!
What a removal takes away: one item or entry of the live tree and nothing else, and never one that the
schema keeps.
-/

namespace Storyworld

namespace State

variable {s s' : State} {p : Path} {step st : Segment} {items : List Tree} {fields : Fields} {i : Nat}
  {op : Operation} {container container' : Path} {key : String} {selector c x : Tree}

-- What a removal is about, by its container and the step there: what stands at the path, or the item at
-- a position, or else the first one equal to the selector, or the entry of the key at a position, or else
-- of the selector as a key.
inductive Picks (s : State) : Operation → Path → Segment → Prop where
  | path {p : Path} {step st : Segment} {c : Tree} (hp : s.stat.get? p = some c)
    (hs : c.enters? step = some st) : Picks s (.delete (p.child step)) p st
  | position {p : Path} {items : List Tree} {selector : Tree} {i : Nat}
    (hp : s.stat.get? p = some (.arr items)) (hi : selector.position? = some i)
    (hl : i < items.length) : Picks s (.deleteFrom p selector) p (.index i)
  | equal {p : Path} {items : List Tree} {selector x : Tree} {i : Nat}
    (hp : s.stat.get? p = some (.arr items))
    (hn : ∀ j, selector.position? = some j → items.length ≤ j)
    (hx : items[i]? = some x) (he : x.same selector)
    (hf : ∀ j y, j < i → items[j]? = some y → y.same selector = false) :
    Picks s (.deleteFrom p selector) p (.index i)
  | nth {p : Path} {fields : Fields} {selector : Tree} {i : Nat} {key : String}
    (hp : s.stat.get? p = some (.obj fields)) (hi : selector.position? = some i)
    (hk : fields.keys[i]? = some key) : Picks s (.deleteFrom p selector) p (.key key)
  | named {p : Path} {fields : Fields} {selector : Tree} (hp : s.stat.get? p = some (.obj fields))
    (hn : ∀ j, selector.position? = some j → fields.length ≤ j) :
    Picks s (.deleteFrom p selector) p (.key selector.display)

-- The schema keeps the required keys of a map, and the items of a closed list.
inductive Protects (s : State) (container : Path) : Segment → Prop where
  | entry {fields : Fields} {properties : Schema.Properties} {traits : Traits} {key : String}
    (hc : s.stat.get? container = some (.obj fields))
    (hn : s.schemaAt? container = some (.object properties traits))
    (hr : Schema.requires properties traits key) : Protects s container (.key key)
  | item {items : List Tree} {element : Schema} {traits : Traits} {i : Nat}
    (hc : s.stat.get? container = some (.arr items))
    (hn : s.schemaAt? container = some (.array element traits)) (he : traits.extensible = false) :
    Protects s container (.index i)

-- One child less in the container, and all else of the state as it was.
inductive Removes (s : State) (container : Path) (step : Segment) : State → Prop where
  | mk {x before after stat : Tree} (hl : Tree.Loses x step before after)
    (hr : Tree.Replaced before after container s.stat stat) :
    Removes s container step { s with stat }

theorem removes_set {before after : Tree} (h : s.stat.get? container = some before)
    (hl : Tree.Loses x step before after) :
    s.Removes container step { s with stat := s.stat.set container after } :=
  .mk hl (Tree.replaced_set h)

theorem Protects.requires (h : s.Protects container (.key key)) : s.requires container key := by
  cases h with
  | entry _ hn hr => simpa [State.requires, hn] using hr

theorem Protects.closedList (h : s.Protects container (.index i)) : s.closedList container := by
  cases h with
  | item _ hn he => simpa [State.closedList, hn] using he

/-! ## Removals one by one -/

-- A removal that goes through has picked something the schema does not keep, and it is gone.
structure Takes (s : State) (op : Operation) (container : Path) (step : Segment) (s' : State) : Prop where
  picks       : s.Picks op container step
  removes     : s.Removes container step s'
  unprotected : ¬s.Protects container step

-- A removal of a path that goes through takes the last step out of the container above.
theorem of_delete_eq_ok {r : Applied × State} (h : s.delete (p.child step) = .ok r) :
    ∃ c d x st, s.stat.get? (p.child step) = some x ∧ s.stat.get? p = some c ∧
      c.enters? step = some st ∧ Tree.Loses x st c d ∧ s.requires p step.name = false ∧
      s.closedList p = false ∧
      r = (.one (p.child step) (told "removed" x) (some ⟨p.child step, x, .null⟩),
        { s with stat := s.stat.set p d }) := by
  have hd : (p.child step).dropLast = p := List.dropLast_concat
  have hl : (p.child step).getLast? = some step := List.getLast?_concat
  simp only [delete, Tree.has, hd, hl, Option.elim_some] at h
  cases hx : s.stat.get? (p.child step) <;> simp only [hx] at h
  case none => cases h
  case some x =>
    obtain ⟨c, d, st, hc, hs, hl, hu⟩ := Tree.exists_unset? hx
    cases hr : s.requires p step.name <;> simp only [hr] at h
    case true  => cases h
    case false =>
      cases hn : s.closedList p <;> simp only [hn, hu] at h
      case true  => cases h
      case false => exact ⟨c, d, x, st, rfl, hc, hs, hl, rfl, rfl, (Except.ok.inj h).symm⟩

theorem takes_delete :
    Yields (fun r => ∃ st, s.Takes (.delete (p.child step)) p st r.2) (s.delete (p.child step)) := by
  intro r h
  obtain ⟨c, d, x, st, -, hc, hs, hl, hr, hn, rfl⟩ := of_delete_eq_ok h
  refine ⟨st, .path hc hs, removes_set hc hl, fun hp => ?_⟩
  cases hl
  case item  => cases hn.symm.trans hp.closedList
  case entry =>
    obtain rfl : step.name = _ := by simpa using hs
    cases hr.symm.trans hp.requires

-- A position counts only if an item is there.
theorem itemFor?_cases (h : itemFor? items selector = some i) :
    (selector.position? = some i ∧ i < items.length) ∨
      (∀ j, selector.position? = some j → items.length ≤ j) ∧ items.findIdx? (·.same selector) = some i := by
  unfold itemFor? at h
  cases hp : selector.position?
  case none   => exact .inr ⟨by simp, by simpa [hp] using h⟩
  case some j =>
    by_cases hj : j < items.length
    case pos =>
      obtain rfl : j = i := by simpa [hp, Option.filter, hj] using h
      exact .inl ⟨rfl, hj⟩
    case neg => exact .inr ⟨by simpa using hj, by simpa [hp, Option.filter, hj] using h⟩

theorem takes_removeItem (hp : s.stat.get? p = some (.arr items)) :
    Yields (fun r => ∃ st, s.Takes (.deleteFrom p selector) p st r.2) (s.removeItem p items selector) := by
  unfold removeItem
  cases hc : s.closedList p
  case true  => exact yields_error
  case false =>
    cases hi : itemFor? items selector
    case none   => exact yields_error
    case some i =>
      have hn : ¬s.Protects p (.index i) := mt Protects.closedList (by simp [hc])
      suffices h : ∃ x, items[i]? = some x ∧ s.Picks (.deleteFrom p selector) p (.index i) by
        obtain ⟨x, hx, hs⟩ := h
        exact yields_ok ⟨_, hs, removes_set hp (Tree.loses_eraseIdx hx), hn⟩
      obtain ⟨hi, hl⟩ | ⟨hi, hf⟩ := itemFor?_cases hi
      · exact ⟨_, List.getElem?_eq_getElem hl, .position hp hi hl⟩
      · obtain ⟨hl, he, hf⟩ := List.findIdx?_eq_some_iff_getElem.mp hf
        have hx := List.getElem?_eq_getElem hl
        refine ⟨_, hx, .equal hp hi hx he fun j y hj hy => ?_⟩
        obtain ⟨hj', rfl⟩ := List.getElem?_eq_some_iff.mp hy
        simpa using hf j hj

theorem keyFor_cases (fields : Fields) (selector : Tree) :
    (∃ i, selector.position? = some i ∧ fields.keys[i]? = some (keyFor fields selector)) ∨
      (∀ j, selector.position? = some j → fields.length ≤ j) ∧
        keyFor fields selector = selector.display := by
  unfold keyFor
  cases hp : selector.position?
  case none   => exact .inr ⟨by simp, rfl⟩
  case some i =>
    cases hk : fields.keys[i]?
    case some key => exact .inl ⟨i, rfl, by simp [hk]⟩
    case none     => exact .inr ⟨by simpa [Fields.keys] using hk, by simp [hk]⟩

theorem takes_removeEntry (hp : s.stat.get? p = some (.obj fields)) :
    Yields (fun r => ∃ st, s.Takes (.deleteFrom p selector) p st r.2)
      (s.removeEntry p fields selector) := by
  unfold removeEntry
  dsimp only
  split
  case h_2 => exact yields_error
  case h_1 x hx =>
    split
    · exact yields_error
    case isFalse hr =>
      refine yields_ok ⟨_, ?_, removes_set hp (Tree.loses_erase hx), mt Protects.requires hr⟩
      obtain ⟨i, hi, hk⟩ | ⟨hn, hk⟩ := keyFor_cases fields selector
      · exact .nth hp hi hk
      · exact hk ▸ .named hp hn

theorem takes_deleteFrom :
    Yields (fun r => ∃ st, s.Takes (.deleteFrom p selector) p st r.2) (s.deleteFrom p selector) := by
  unfold deleteFrom
  split
  case h_1 hp => exact takes_removeItem hp
  case h_2 hp => exact takes_removeEntry hp
  · exact yields_error
  · exact yields_error

-- What is picked is one thing only.
theorem Picks.unique (h : s.Picks op container step) (h' : s.Picks op container' st) :
    container = container' ∧ step = st := by
  generalize he : op = op' at h'
  cases h <;> cases h' <;>
    simp only [Operation.delete.injEq, Operation.deleteFrom.injEq, Path.child_inj, reduceCtorEq] at he
  all_goals
    obtain ⟨rfl, rfl⟩ := he
    grind [Fields.keys]

end State

namespace Operation

variable {s : State} {flags : Flags} {op : Operation} {applied : Applied}

-- The operations that a command of removal stands for.
def IsRemoval : Operation → Prop
  | delete .. | deleteFrom .. => True
  | _ => False

theorem takes_run (hr : op.IsRemoval) (hp : ∃ (p : Path) (step : Segment), op.path = p.child step)
    (h : (op.run flags s).1 = .ok applied) :
    ∃ container step, s.Takes op container step (op.run flags s).2 := by
  cases op
  case delete path =>
    obtain ⟨p, step, rfl : path = p.child step⟩ := hp
    obtain ⟨st, ht⟩ := State.takes_delete _ (of_keeping_eq_ok h)
    exact ⟨p, st, ht⟩
  case deleteFrom path selector =>
    obtain ⟨st, ht⟩ := State.takes_deleteFrom _ (of_keeping_eq_ok h)
    exact ⟨path, st, ht⟩
  all_goals exact hr.elim

end Operation

namespace Command

variable {c : Command} {s : State} {flags : Flags} {dice dice' : Dice} {applied : Applied} {op : Operation}

theorem isRemoval_of_ofCommand (h : Operation.ofCommand c dice = .ok (op, dice')) :
    op.IsRemoval ↔ c.verb.canonical = .delete := by
  obtain ⟨p, -, ha⟩ := asks_of_ofCommand h
  cases ha <;> simp [Operation.IsRemoval, *]

-- A removal that goes through takes away what it picks, which no schema keeps, and nothing else.
theorem run_delete_takes (hv : c.verb.canonical = .delete) (h : (c.run flags s dice).1 = .ok applied) :
    ∃ op dice' container step, Operation.ofCommand c dice = .ok (op, dice') ∧
      s.Takes op container step (c.run flags s dice).2.1 := by
  obtain ⟨op, dice', a, ho, hr, -, hs⟩ := exists_of_run_eq_ok h
  have hp := exists_child_of_target (ofCommand_eq_ok ho).1
  obtain ⟨container, step, ht⟩ := Operation.takes_run ((isRemoval_of_ofCommand ho).mpr hv) hp hr
  exact ⟨op, dice', container, step, ho, hs ▸ ht⟩

def camp : State where
  stat := .obj [("bag", .arr [.str "axe", .str "rope", .str "oil", .str "rope"]), ("fire", .bool true)]
  schema := some
    { root := .object [⟨"bag", none, .array .string { extensible := true }⟩, ⟨"fire", none, .boolean⟩] {} }

def dropRope : Command where
  verb := .remove
  call := ""
  args := ["bag", "\"rope\""]
  reason := ""

-- The first rope goes, and the other one stays.
theorem camp_dropRope_takes :
    (dropRope.run {} camp ⟨[], 0⟩).1 = .ok (.one [.key "bag"] "removed \"rope\"" none) ∧
      camp.Takes (.deleteFrom [.key "bag"] (.str "rope")) [.key "bag"] (.index 1)
        (dropRope.run {} camp ⟨[], 0⟩).2.1 := by
  have h : (dropRope.run {} camp ⟨[], 0⟩).1 = .ok (.one [.key "bag"] "removed \"rope\"" none) := rfl
  have hp : camp.Picks (.deleteFrom [.key "bag"] (.str "rope")) [.key "bag"] (.index 1) := by
    refine .equal rfl (by simp [Tree.position?]) rfl (by decide) fun j y hj hy => ?_
    obtain rfl : j = 0 := by omega
    obtain rfl : Tree.str "axe" = y := Option.some.inj hy
    decide
  obtain ⟨op, dice', container, step, ho, ht⟩ := run_delete_takes rfl h
  cases ho
  obtain ⟨rfl, rfl⟩ := hp.unique ht.picks
  exact ⟨h, ht⟩

end Command

end Storyworld
