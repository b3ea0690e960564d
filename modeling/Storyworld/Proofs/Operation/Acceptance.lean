import Storyworld.Proofs.Command.Chance
import Storyworld.Proofs.Operation.Effect

/-!
When an operation is accepted. It depends on what stands at its path and below, and on the nodes that
the schema has there; of the root it only counts whether it is a closed list, and whether it requires
the first key of the path.
-/

namespace Storyworld

namespace State

variable {s s' : State} {flags : Flags} {b : Segment} {q path container : Path} {items : List Tree}
  {fields : Fields} {index : Option Nat} {key : String} {selector v : Tree}

-- The two states look the same from a child of the root on.
structure Alike (b : Segment) (s s' : State) : Prop where
  get?       : ∀ q, s'.stat.get? (b :: q) = s.stat.get? (b :: q)
  schemaAt?  : ∀ q, s'.schemaAt? (b :: q) = s.schemaAt? (b :: q)
  requires   : s'.requires [] b.name = s.requires [] b.name
  closedList : s'.closedList [] = s.closedList []

-- What a value may be replaced by: a number by what counts as one, or by null.
def admits : (old v : Tree) → Bool
  | _, .null => true
  | .num _, v => (v.toFloat?.bind Number.ofFloat?).isSome
  | _, _ => true

theorem isOk_asNumber (path : Path) (v : Tree) :
    (asNumber path v).isOk = (v.toFloat?.bind Number.ofFloat?).isSome := by
  unfold asNumber
  cases v.toFloat?.bind Number.ofFloat? <;> rfl

theorem isOk_put :
    (s.put path flags v).isOk =
      (s.slot path !flags.strictSet).toOption.any fun slot => admits (s.valueAt slot) v := by
  unfold put
  cases s.slot path !flags.strictSet
  case error => rfl
  case ok slot =>
    simp only [bind, Except.bind, Except.toOption, Option.any_some]
    cases s.valueAt slot
    case num n =>
      cases v
      case null | arr | obj => rfl
      all_goals
        refine Eq.trans ?_ (isOk_asNumber path _)
        dsimp only
        cases asNumber path _ <;> rfl
    all_goals cases v <;> rfl

theorem isOk_add :
    (s.add path v).isOk =
      (s.slot path true).toOption.any fun slot =>
        v.toFloat?.any fun step => (sum (s.valueAt slot) step).isOk := by
  unfold add
  cases s.slot path true
  case error => rfl
  case ok slot =>
    cases v.toFloat?
    case none => rfl
    case some step =>
      simp only [bind, Except.bind, Except.toOption, Option.any_some]
      cases sum (s.valueAt slot) step <;> rfl

theorem isOk_insertItem :
    (s.insertItem flags container items index v).isOk = !s.closedList container := by
  unfold insertItem
  cases s.closedList container <;> rfl

theorem isOk_insertKey : (s.insertKey flags container key v).isOk = !s.refuses container key := by
  unfold insertKey
  cases s.refuses container key <;> rfl

theorem isOk_mergeInto :
    (s.mergeInto flags container v).isOk =
      v.asFields?.any fun fields => ((Fields.keys fields).find? (s.refuses container)).isNone := by
  unfold mergeInto
  cases v.asFields?
  case none => rfl
  case some fields =>
    dsimp only
    cases hk : (Fields.keys fields).find? (s.refuses container) <;> simp [hk] <;> rfl

theorem isOk_makeMap {step : Segment} :
    (s.makeMap (path.child step)).isOk = (s.stat.has path && !s.refuses path step.name) := by
  simp only [makeMap, Path.child, List.getLast?_concat, List.dropLast_concat]
  cases s.stat.has path
  case false => rfl
  case true  => cases s.refuses path step.name <;> rfl

theorem isOk_delete :
    (s.delete path).isOk =
      (s.stat.has path && !s.requires path.dropLast (path.getLast?.elim "" Segment.name) &&
        !s.closedList path.dropLast) := by
  unfold delete
  dsimp only
  cases s.stat.has path
  case false => rfl
  case true =>
    cases s.requires path.dropLast (path.getLast?.elim "" Segment.name)
    case true  => rfl
    case false => cases s.closedList path.dropLast <;> rfl

theorem isOk_removeItem :
    (s.removeItem container items selector).isOk =
      (!s.closedList container && (itemFor? items selector).isSome) := by
  unfold removeItem
  cases s.closedList container <;> cases itemFor? items selector <;> rfl

theorem isOk_removeEntry :
    (s.removeEntry container fields selector).isOk =
      ((fields.get? (keyFor fields selector)).isSome &&
        !s.requires container (keyFor fields selector)) := by
  unfold removeEntry
  dsimp only
  cases fields.get? (keyFor fields selector)
  case none   => rfl
  case some v => cases s.requires container (keyFor fields selector) <;> rfl

namespace Alike

variable (h : Alike b s s')

include h

theorem valueAt : s'.valueAt (b :: q) = s.valueAt (b :: q) := by
  rw [State.valueAt, h.get?, State.valueAt]

theorem closedList_below : s'.closedList (b :: q) = s.closedList (b :: q) := by
  rw [State.closedList, h.schemaAt?, State.closedList]

theorem refuses_below : s'.refuses (b :: q) = s.refuses (b :: q) := by
  funext key
  rw [refuses, h.schemaAt?, refuses]

theorem requires_below : s'.requires (b :: q) key = s.requires (b :: q) key := by
  rw [State.requires, h.schemaAt?, State.requires]

theorem slot {unwrap : Bool} : s'.slot (b :: q) unwrap = s.slot (b :: q) unwrap := by
  rw [State.slot, h.get?, State.slot]

-- A slot is at the path or in what stands there.
theorem valueAt_slot {unwrap : Bool} {slot : Path} (hs : s.slot (b :: q) unwrap = .ok slot) :
    s'.valueAt slot = s.valueAt slot := by
  obtain ⟨r, rfl⟩ := yields_slot slot hs
  exact h.valueAt

theorem isOk_put : (s'.put (b :: q) flags v).isOk = (s.put (b :: q) flags v).isOk := by
  rw [State.isOk_put, State.isOk_put, h.slot]
  cases hs : s.slot (b :: q) !flags.strictSet
  case error   => rfl
  case ok slot => simp [Except.toOption, h.valueAt_slot hs]

theorem isOk_add : (s'.add (b :: q) v).isOk = (s.add (b :: q) v).isOk := by
  rw [State.isOk_add, State.isOk_add, h.slot]
  cases hs : s.slot (b :: q) true
  case error   => rfl
  case ok slot => simp [Except.toOption, h.valueAt_slot hs]

theorem requires_parent :
    s'.requires (b :: q).dropLast (((b :: q).getLast?).elim "" Segment.name) =
      s.requires (b :: q).dropLast (((b :: q).getLast?).elim "" Segment.name) := by
  cases q
  case nil            => exact h.requires
  case cons step rest => exact h.requires_below

theorem closedList_parent : s'.closedList (b :: q).dropLast = s.closedList (b :: q).dropLast := by
  cases q
  case nil            => exact h.closedList
  case cons step rest => exact h.closedList_below

theorem isOk_delete : (s'.delete (b :: q)).isOk = (s.delete (b :: q)).isOk := by
  rw [State.isOk_delete, State.isOk_delete, h.requires_parent, h.closedList_parent, Tree.has, h.get?,
    Tree.has]

theorem isOk_deleteFrom :
    (s'.deleteFrom (b :: q) selector).isOk = (s.deleteFrom (b :: q) selector).isOk := by
  unfold deleteFrom
  rw [h.get?]
  cases s.stat.get? (b :: q)
  case none => rfl
  case some c =>
    cases c
    case arr => dsimp only; rw [isOk_removeItem, isOk_removeItem, h.closedList_below]
    case obj => dsimp only; rw [isOk_removeEntry, isOk_removeEntry, h.requires_below]
    all_goals rfl

-- The parent of a missing path is below the root, as its first step is there.
theorem isOk_insertNew (hb : (s.stat.get? [b]).isSome) (hn : s.stat.get? (b :: q) = none) :
    (s'.insertNew flags (b :: q) v).isOk = (s.insertNew flags (b :: q) v).isOk := by
  obtain rfl | ⟨q, step, rfl⟩ := q.eq_nil_or_concat'
  · simp [hn] at hb
  · rw [← List.cons_append]
    simp only [insertNew, List.getLast?_concat, List.dropLast_concat]
    rw [h.get?]
    cases s.stat.get? (b :: q)
    case none => rfl
    case some c =>
      cases c
      case arr =>
        dsimp only
        cases step.index?
        · rfl
        · dsimp only; rw [isOk_insertItem, isOk_insertItem, h.closedList_below]
      case obj => dsimp only; rw [isOk_insertKey, isOk_insertKey, h.refuses_below]
      all_goals rfl

theorem isOk_insert (hb : (s.stat.get? [b]).isSome) :
    (s'.insert flags (b :: q) v).isOk = (s.insert flags (b :: q) v).isOk := by
  unfold insert
  rw [h.get?]
  cases hc : s.stat.get? (b :: q)
  case none => exact h.isOk_insertNew hb hc
  case some c =>
    cases c
    case arr => dsimp only; rw [isOk_insertItem, isOk_insertItem, h.closedList_below]
    case obj => dsimp only; rw [isOk_mergeInto, isOk_mergeInto, h.refuses_below]
    all_goals rfl

theorem isOk_insertAt :
    (s'.insertAt flags (b :: q) selector v).isOk = (s.insertAt flags (b :: q) selector v).isOk := by
  unfold insertAt
  rw [h.get?]
  cases s.stat.get? (b :: q)
  case none => rfl
  case some c =>
    cases c
    case arr =>
      dsimp only
      cases selectedIndex? selector
      · rfl
      · dsimp only; rw [isOk_insertItem, isOk_insertItem, h.closedList_below]
    case obj => dsimp only; rw [isOk_insertKey, isOk_insertKey, h.refuses_below]
    all_goals rfl

theorem isOk_makeMap (hb : (s.stat.get? [b]).isSome) (hn : s.stat.get? (b :: q) = none) :
    (s'.makeMap (b :: q)).isOk = (s.makeMap (b :: q)).isOk := by
  obtain rfl | ⟨q, step, rfl⟩ := q.eq_nil_or_concat'
  · simp [hn] at hb
  · have hc : b :: (q ++ [step]) = Path.child (b :: q) step := rfl
    rw [hc, State.isOk_makeMap, State.isOk_makeMap, h.refuses_below, Tree.has, h.get?, Tree.has]

end Alike

end State

namespace Operation

variable {s s' : State} {flags : Flags} {op : Operation} {b : Segment} {q : Path}

theorem isOk_keeping {r : Except CommandError (Applied × State)} : (keeping s r).1.isOk = r.isOk := by
  cases r <;> rfl

theorem isOk_run_insertAt {path : Path} {selector v : Tree} (hn : s.stat.get? path = none) :
    ((insertAt path selector v).run flags s).1.isOk =
      ((s.makeMap path).isOk && !s.refuses path selector.display) := by
  have hh : s.stat.has path = false := by simp [Tree.has, hn]
  simp only [run, hh, Bool.false_eq_true, if_false]
  cases hm : s.makeMap path
  case error => rfl
  case ok s₁ =>
    obtain ⟨_, _, rfl⟩ := State.makeMap_eq_ok.mp hm
    exact isOk_keeping.trans State.isOk_insertKey

-- Where two states look the same, an operation is accepted on both or on neither.
theorem isOk_run_of_alike (h : s.Alike b s') (hp : op.path = b :: q) (hb : (s.stat.get? [b]).isSome) :
    (op.run flags s').1.isOk = (op.run flags s).1.isOk := by
  cases op <;> obtain rfl := hp
  case set        => simp only [run, isOk_keeping, h.isOk_put]
  case add        => simp only [run, isOk_keeping, h.isOk_add]
  case delete     => simp only [run, isOk_keeping, h.isOk_delete]
  case deleteFrom => simp only [run, isOk_keeping, h.isOk_deleteFrom]
  case insert     => simp only [run, isOk_keeping, h.isOk_insert hb]
  case insertAt =>
    cases hn : s.stat.get? (b :: q)
    case none =>
      have hn' := (h.get? q).trans hn
      rw [isOk_run_insertAt hn, isOk_run_insertAt hn', h.isOk_makeMap hb hn, h.refuses_below]
    case some c =>
      have hh : s.stat.has (b :: q) := by simp only [Tree.has, hn, Option.isSome_some]
      have hh' : s'.stat.has (b :: q) := by simp only [Tree.has, h.get?, hn, Option.isSome_some]
      simp only [run, hh, hh', if_true, isOk_keeping, h.isOk_insertAt]

end Operation

namespace Command

variable {c : Command} {s s' : State} {flags : Flags} {dice dice' : Dice} {op : Operation} {b : Segment}
  {q : Path}

theorem isOk_run :
    (c.run flags s dice).1.isOk =
      (Operation.ofCommand c dice).toOption.any fun r => (r.1.run flags s).1.isOk := by
  unfold run
  cases Operation.ofCommand c dice
  case error => rfl
  case ok r =>
    obtain ⟨op, dice'⟩ := r
    dsimp only [Except.toOption, Option.any_some]
    cases (op.run flags s).1 <;> rfl

theorem isOk_run_of_alike (h : s.Alike b s') (ht : c.target = .ok (b :: q))
    (hb : (s.stat.get? [b]).isSome) (hc : c.Settled) :
    (c.run flags s' dice').1.isOk = (c.run flags s dice).1.isOk := by
  obtain ⟨_ | op, ho⟩ := hc
  case error => simp [isOk_run, ho, Except.map, Except.toOption]
  case ok =>
    have hp : op.path = b :: q := Except.ok.inj ((ofCommand_eq_ok (ho dice)).1.symm.trans ht)
    simp [isOk_run, ho, Except.map, Except.toOption, Operation.isOk_run_of_alike h hp hb]

end Command

end Storyworld
