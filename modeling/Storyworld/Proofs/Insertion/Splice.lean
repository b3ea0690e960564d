import Storyworld.Proofs.Insertion.Site
import Storyworld.Proofs.Tree.Replacement

/-!
Insertions into a list: the schema has a say only if it closes the list, and else the new item stands
at its position, with its defaults and without its metadata, between the items before and behind it.
-/

namespace Storyworld

theorem Tree.insertIdx_eq {items : List Tree} {i : Nat} {v : Tree} (h : i ≤ items.length) :
    items.insertIdx i v = items.take i ++ [v] ++ items.drop i := by
  induction items generalizing i
  case nil          => simp_all
  case cons x xs ih => cases i <;> simp_all

namespace State

variable {s : State} {container : Path}

theorem closedList_iff :
    s.closedList container ↔
      ∃ element traits, s.schemaAt? container = some (.array element traits) ∧
        traits.extensible = false := by
  unfold closedList
  constructor
  case mp =>
    intro h
    split at h
    case h_1 element traits hn => exact ⟨element, traits, hn, by simpa using h⟩
    case h_2                   => cases h
  case mpr =>
    rintro ⟨element, traits, hn, ht⟩
    simp [hn, ht]

end State

namespace Command

variable {c : Command} {s : State} {flags : Flags} {dice : Dice} {container : Path} {items : List Tree}
  {index : Nat} {v : Tree}

-- The forms of an insertion of `v` into a list: behind its items, at a position that is selected, or at
-- one that the path itself ends in while no item is there. No position is beyond the end of the list.
inductive Splices (c : Command) (s : State) (dice : Dice) : Path → List Tree → Nat → Tree → Prop where
  | append {p : Path} {items : List Tree} {raw : String} (ht : c.target = .ok p)
    (ha : c.args.tail = [raw]) (hp : s.stat.get? p = some (.arr items)) :
    Splices c s dice p items items.length (Argument.value raw dice).1
  | selected {p : Path} {items : List Tree} {rawSelector raw : String} {rest : List String} {i : Nat}
    (ht : c.target = .ok p) (ha : c.args.tail = rawSelector :: raw :: rest)
    (hp : s.stat.get? p = some (.arr items))
    (hi : State.selectedIndex? (Argument.value rawSelector dice).1 = some i) :
    Splices c s dice p items (min i items.length)
      (Argument.value raw (Argument.value rawSelector dice).2).1
  | missing {p : Path} {step : Segment} {items : List Tree} {raw : String} {i : Nat}
    (ht : c.target = .ok (p.child step)) (ha : c.args.tail = [raw])
    (hp : s.stat.get? p = some (.arr items)) (hn : s.stat.get? (p.child step) = none)
    (hi : step.index? = some i) :
    Splices c s dice p items (min i items.length) (Argument.value raw dice).1

theorem Splices.get? (h : c.Splices s dice container items index v) :
    s.stat.get? container = some (.arr items) := by
  cases h <;> assumption

theorem Splices.le (h : c.Splices s dice container items index v) : index ≤ items.length := by
  cases h
  case append => exact Nat.le_refl _
  all_goals exact Nat.min_le_right ..

section

variable {p : Path} {rawSelector raw : String} {rest : List String} (hv : c.verb.canonical = .insert)
  (ht : c.target = .ok p)

include hv ht

theorem ofCommand_insert (ha : c.args.tail = [raw]) :
    Operation.ofCommand c dice =
      .ok (.insert p (Argument.value raw dice).1, (Argument.value raw dice).2) := by
  simp only [Operation.ofCommand, Operation.read, ht, hv, ha]
  rfl

theorem ofCommand_insertAt (ha : c.args.tail = rawSelector :: raw :: rest) :
    Operation.ofCommand c dice =
      .ok (.insertAt p (Argument.value rawSelector dice).1
        (Argument.value raw (Argument.value rawSelector dice).2).1,
        (Argument.value raw (Argument.value rawSelector dice).2).2) := by
  simp only [Operation.ofCommand, Operation.read, ht, hv, ha]
  rfl

end

-- All of them come to one insertion of an item.
theorem Splices.exists_insertItem (h : c.Splices s dice container items index v) (flags : Flags)
    (hv : c.verb.canonical = .insert) :
    ∃ op dice' index?, Operation.ofCommand c dice = .ok (op, dice') ∧
      op.run flags s = Operation.keeping s (s.insertItem flags container items index? v) ∧
      index?.elim items.length (min · items.length) = index := by
  cases h with
  | append ht ha hp =>
    refine ⟨_, _, none, ofCommand_insert hv ht ha, ?_, rfl⟩
    simp only [Operation.run, State.insert, hp]
  | selected ht ha hp hi =>
    refine ⟨_, _, some _, ofCommand_insertAt hv ht ha, ?_, rfl⟩
    simp only [Operation.run, Tree.has, State.insertAt, hp, hi, Option.isSome_some, if_true]
  | missing ht ha hp hn hi =>
    refine ⟨_, _, some _, ofCommand_insert hv ht ha, ?_, rfl⟩
    simp only [Operation.run, State.insert, hn]
    simp only [State.insertNew, Path.child, List.getLast?_concat, List.dropLast_concat, hp, hi]

theorem run_insert_splices (hv : c.verb.canonical = .insert)
    (h : c.Splices s dice container items index v) :
    let node := s.schemaAt? container
    let closed := ∃ element traits, node = some (.array element traits) ∧ traits.extensible = false
    let inserted := Meta.clean (Template.apply flags.strictTemplate flags.concatTemplateArray
      (node.bind Schema.template?) v)
    (closed → (c.run flags s dice).1 = .error (.schemaViolation container .closedList) ∧
      (c.run flags s dice).2.1 = s) ∧
    (¬closed → (∃ applied, (c.run flags s dice).1 = .ok applied) ∧
      Tree.Replaced (.arr items) (.arr (items.take index ++ [inserted] ++ items.drop index)) container
        s.stat (c.run flags s dice).2.1.stat) := by
  intro node closed inserted
  obtain ⟨op, dice', index?, ho, hr, hi⟩ := h.exists_insertItem flags hv
  have hrun : c.run flags s dice =
      ((op.run flags s).1.map (·.because c.reason), (op.run flags s).2, dice') := by
    simp only [run, ho]
  rw [hrun, hr]
  constructor
  case left =>
    intro hc
    rw [State.insertItem_of_closed (State.closedList_iff.mpr hc)]
    exact ⟨rfl, rfl⟩
  case right =>
    intro hc
    have hc : s.closedList container = false := by simpa using mt State.closedList_iff.mp hc
    obtain ⟨applied, s', hs, ht⟩ := s.insertItem_of_open flags items index? v hc
    rw [hs]
    refine ⟨⟨_, rfl⟩, ?_⟩
    have he : s'.stat = s.stat.set container
        (.arr (items.take index ++ [inserted] ++ items.drop index)) := by
      rw [ht, hi, Tree.insertIdx_eq h.le]
      rfl
    exact he ▸ Tree.replaced_set h.get?

def armory : State where
  stat := .obj [("rack", .arr [.str "bow", .str "axe"])]
  schema := some
    { root := .object [⟨"rack", none, .array .string
        { extensible := true, template := some (.obj [("worn", .bool false)]) }⟩] {} }

def hangSpear : Command where
  verb := .assign
  call := ""
  args := ["rack", "\"1\"", "\x7b\"kind\":\"spear\",\"$meta\":\x7b\"extensible\":true\x7d\x7d"]
  reason := ""

def spear : Tree :=
  .obj [("kind", .str "spear"), ("$meta", .obj [("extensible", .bool true)])]

-- The spear comes with a default of the rack, and without its metadata.
theorem armory_hangSpear_splices :
    hangSpear.Splices armory ⟨[], 0⟩ [.key "rack"] [.str "bow", .str "axe"] 1 spear ∧
      Tree.Replaced (.arr [.str "bow", .str "axe"])
        (.arr [.str "bow", .obj [("worn", .bool false), ("kind", .str "spear")], .str "axe"])
        [.key "rack"] armory.stat (hangSpear.run {} armory ⟨[], 0⟩).2.1.stat := by
  have hs : hangSpear.Splices armory ⟨[], 0⟩ [.key "rack"] [.str "bow", .str "axe"] (min 1 2) _ :=
    .selected rfl rfl rfl (by decide +kernel)
  have hv : (Argument.value "\x7b\"kind\":\"spear\",\"$meta\":\x7b\"extensible\":true\x7d\x7d"
      (Argument.value "\"1\"" ⟨[], 0⟩).2).1 = spear := by decide +kernel
  rw [hv] at hs
  refine ⟨hs, ((run_insert_splices rfl hs).2 ?_).2⟩
  rintro ⟨_, _, hn, ht⟩
  cases hn
  cases ht

end Command

end Storyworld
