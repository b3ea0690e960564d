import Storyworld.Proofs.Command.Chance
import Storyworld.Proofs.Command.Value
import Storyworld.Proofs.Insertion.Refresh
import Storyworld.Proofs.Insertion.Splice
import Storyworld.Proofs.Meta.Tidy
import Storyworld.Proofs.Tree.Equality
import Storyworld.Proofs.Tree.Removal

/-!
Insertions taken back. An item that is new to an open list can be removed again by its value, and an
entry that is new to an open map by its key, although the schema has been read anew in between; the live
tree is then what it was.
-/

namespace Storyworld

namespace State

variable {s : State} {flags : Flags} {p : Path} {items : List Tree} {fields : Fields} {key : String}
  {v w : Tree} {element : Schema} {traits : Traits} {properties : Schema.Properties}

-- As a selector, what is new to a list and no position in it selects itself behind the items.
theorem itemFor?_concat (hk : v.KeysOnce) (hi : ∀ i, v.position? = some i → items.length < i)
    (hs : ∀ x ∈ items, x.same v = false) : itemFor? (items ++ [v]) v = some items.length := by
  have hp : v.position?.filter (· < (items ++ [v]).length) = none := by
    cases hv : v.position?
    case none   => rfl
    case some i =>
      have := hi i hv
      simp [Option.filter]
      omega
  have hf : items.findIdx? (·.same v) = none := List.findIdx?_eq_none_iff.mpr hs
  rw [itemFor?, hp, Option.none_or, List.findIdx?_append, hf]
  simp [hk.same_self]

theorem deleteFrom_item (hp : s.stat.get? p = some (.arr (items ++ [v]))) (hc : s.closedList p = false)
    (hi : itemFor? (items ++ [v]) v = some items.length) :
    ∃ applied, s.deleteFrom p v = .ok (applied, { s with stat := s.stat.set p (.arr items) }) := by
  have he : (items ++ [v]).eraseIdx items.length = items := by
    rw [List.eraseIdx_append_of_length_le (Nat.le_refl _)]
    simp
  simp only [deleteFrom, hp, removeItem, hc, hi, he]
  exact ⟨_, rfl⟩

theorem deleteFrom_entry (hp : s.stat.get? p = some (.obj (fields ++ [(key, w)])))
    (hk : key ∉ fields.keys) (hr : s.requires p key = false) :
    ∃ applied, s.deleteFrom p (.str key) =
      .ok (applied, { s with stat := s.stat.set p (.obj fields) }) := by
  have he : Fields.erase key (fields ++ [(key, w)]) = fields := by
    rw [Fields.erase_split hk, List.append_nil]
  have hg : Fields.get? key (fields ++ [(key, w)]) = some w := by
    rw [← Fields.put_of_notMem hk, Fields.get?_put_self]
  have hf : keyFor (fields ++ [(key, w)]) (.str key) = key := rfl
  simp only [deleteFrom, hp, removeEntry, hf, hg, hr, he]
  exact ⟨_, rfl⟩

-- The same for a whole insertion and the removal behind it.
theorem deleteFrom_insertItem (flags : Flags) (hp : s.stat.get? p = some (.arr items))
    (hn : s.schemaAt? p = some (.array element traits)) (he : traits.extensible)
    (ht : traits.template = none) (hb : Meta.Bare v)
    (hi : itemFor? (items ++ [v]) v = some items.length) :
    ∃ applied s' applied', s.insertItem flags p items none v = .ok (applied, s') ∧
      s'.deleteFrom p v = .ok (applied', { s' with stat := s.stat }) := by
  have hc : s.closedList p = false := by simp [closedList, hn, he]
  obtain ⟨applied, s', ho, hs⟩ := s.insertItem_of_open flags items none v hc
  have hf : s.filled flags p v = v := by simp [filled, hn, Schema.template?, Schema.traits?, ht]
  have hg : s'.stat.get? p = some (.arr (items ++ [v])) := by
    simp [hs, hf, hb.clean]
  obtain ⟨applied', hd⟩ := deleteFrom_item hg (closedList_insertItem hn he _ ho) hi
  refine ⟨applied, s', applied', ho, ?_⟩
  rw [hd, hs, Tree.set_set, Tree.set_of_get? hp]

theorem deleteFrom_insertKey (flags : Flags) (v : Tree) (hp : s.stat.get? p = some (.obj fields))
    (hn : s.schemaAt? p = some (.object properties traits)) (he : traits.extensible)
    (hm : Meta.key ∉ fields.keys) (hk : key ≠ Meta.key) (hf : key ∉ fields.keys)
    (hr : Schema.requires properties traits key = false) :
    ∃ applied s' applied', s.insertKey flags p key v = .ok (applied, s') ∧
      s'.deleteFrom p (.str key) = .ok (applied', { s' with stat := s.stat }) := by
  have ha : s.refuses p key = false := by simp [refuses, hn, Schema.accepts, he]
  obtain ⟨applied, s', ho, hs⟩ := s.insertKey_of_accepts flags v ha
  have hs : s'.stat = s.stat.set p (.obj (fields ++ [(key, Meta.clean (s.filled flags p v))])) := by
    rw [hs, Tree.set_child hp, Tree.set_obj, ← Fields.put_of_notMem hf]
    simp [Fields.put]
  have hg := Tree.get?_set_self (t := s.stat) (p := p)
    (v := .obj (fields ++ [(key, Meta.clean (s.filled flags p v))]))
  obtain ⟨applied', hd⟩ := deleteFrom_entry (hs ▸ hg) hf (requires_insertKey hp hn he hm hk hr _ ho)
  refine ⟨applied, s', applied', ho, ?_⟩
  rw [hd, hs, Tree.set_set, Tree.set_of_get? hp]

end State

namespace Command

variable {c c' : Command} {s s' : State} {flags flags' : Flags} {dice dice' : Dice}

-- An insertion, and the removal of what it inserts: of an item by its value, which may not count as a
-- position in the longer list, or of an entry by its key.
inductive Reverts (s : State) (c c' : Command) : Prop where
  | item {p : Path} {items : List Tree} {element : Schema} {traits : Traits} {raw : String}
    {rest : List String} {dice : Dice} {v : Tree}
    (ht : c.target = .ok p) (ha : c.args.tail = [raw])
    (ht' : c'.target = .ok p) (ha' : c'.args.tail = raw :: rest)
    (hp : s.stat.get? p = some (.arr items)) (hn : s.schemaAt? p = some (.array element traits))
    (he : traits.extensible) (hd : traits.template = none)
    (hc : Argument.Chanceless raw) (hv : (Argument.value raw dice).1 = v) (hb : Meta.Bare v)
    (hi : ∀ i, v.position? = some i → items.length < i) (hs : ∀ x ∈ items, x.same v = false) :
    Reverts s c c'
  | entry {p : Path} {fields : Fields} {properties : Schema.Properties} {traits : Traits}
    {rawKey raw key : String} {rest rest' : List String}
    (ht : c.target = .ok p) (ha : c.args.tail = rawKey :: raw :: rest)
    (ht' : c'.target = .ok p) (ha' : c'.args.tail = rawKey :: rest')
    (hp : s.stat.get? p = some (.obj fields)) (hn : s.schemaAt? p = some (.object properties traits))
    (he : traits.extensible) (hk : ∀ dice, (Argument.value rawKey dice).1 = .str key)
    (hm : key ≠ Meta.key) (hf : key ∉ fields.keys)
    (hr : Schema.requires properties traits key = false) : Reverts s c c'

theorem run_of_ofCommand {op : Operation} {applied : Applied}
    (ho : Operation.ofCommand c dice = .ok (op, dice')) (hr : op.run flags s = (.ok applied, s')) :
    c.run flags s dice = (.ok (applied.because c.reason), s', dice') := by
  simp only [run, ho, hr]
  rfl

theorem ofCommand_deleteFrom {p : Path} {raw : String} {rest : List String}
    (hv : c.verb.canonical = .delete) (ht : c.target = .ok p) (ha : c.args.tail = raw :: rest) :
    Operation.ofCommand c dice =
      .ok (.deleteFrom p (Argument.value raw dice).1, (Argument.value raw dice).2) := by
  simp only [Operation.ofCommand, Operation.read, ht, hv, ha]
  rfl

-- What has just been inserted can be taken back, and then the live tree is what it was. The two commands
-- may run under different flags and with any dice.
theorem run_delete_reverts (flags flags' : Flags) (dice dice' : Dice) (hm : Meta.Bare s.stat)
    (hv : c.verb.canonical = .insert) (hv' : c'.verb.canonical = .delete) (h : c.Reverts s c') :
    ∃ s₁, (∃ applied dice₁, c.run flags s dice = (.ok applied, s₁, dice₁)) ∧
      ∃ applied dice₂, c'.run flags' s₁ dice' = (.ok applied, { s₁ with stat := s.stat }, dice₂) := by
  cases h with
  | @item p items element traits raw rest dice₀ v₀ ht ha ht' ha' hp hn he hd hc hv₀ hb hi hs =>
    -- One value, whatever the dice are.
    obtain ⟨v, hv₁⟩ := hc.settled
    obtain rfl : v = _ := (congrArg Prod.fst (hv₁ _)).symm.trans hv₀
    have hk : v.KeysOnce := hv₀ ▸ Argument.keysOnce_value
    obtain ⟨applied, s₁, applied', ho, hd⟩ :=
      State.deleteFrom_insertItem flags hp hn he hd hb (State.itemFor?_concat hk hi hs)
    have hr : (Operation.insert p (Argument.value raw dice).1).run flags s = (.ok applied, s₁) := by
      simp only [hv₁, Operation.run, State.insert, hp, ho]
      rfl
    have hr' : (Operation.deleteFrom p (Argument.value raw dice').1).run flags' s₁ =
        (.ok applied', { s₁ with stat := s.stat }) := by
      simp only [hv₁, Operation.run, hd]
      rfl
    exact ⟨s₁, ⟨_, _, run_of_ofCommand (ofCommand_insert hv ht ha) hr⟩, _, _,
      run_of_ofCommand (ofCommand_deleteFrom hv' ht' ha') hr'⟩
  | @entry p fields properties traits rawKey raw key rest rest' ht ha ht' ha' hp hn he hk hm' hf hr =>
    -- Without metadata of its own the map does not start to require the key.
    have hmeta : Meta.key ∉ fields.keys := (hm.get? hp).1.key_notMem
    obtain ⟨applied, s₁, applied', ho, hd⟩ := State.deleteFrom_insertKey flags
      (Argument.value raw (Argument.value rawKey dice).2).1 hp hn he hmeta hm' hf hr
    have hr : (Operation.insertAt p (Argument.value rawKey dice).1
        (Argument.value raw (Argument.value rawKey dice).2).1).run flags s = (.ok applied, s₁) := by
      rw [hk]
      simp only [Operation.run, Tree.has, State.insertAt, hp, Option.isSome_some, if_true,
        Tree.display, ho]
      rfl
    have hr' : (Operation.deleteFrom p (Argument.value rawKey dice').1).run flags' s₁ =
        (.ok applied', { s₁ with stat := s.stat }) := by
      simp only [hk, Operation.run, hd]
      rfl
    exact ⟨s₁, ⟨_, _, run_of_ofCommand (ofCommand_insertAt hv ht ha) hr⟩, _, _,
      run_of_ofCommand (ofCommand_deleteFrom hv' ht' ha') hr'⟩

def pantry : State where
  stat := .obj [("shelf", .arr [.str "jam"]), ("jars", .obj [("plum", .str "full")])]
  schema := some
    { root := .object [⟨"jars", none, .object [⟨"plum", none, .string⟩] { extensible := true }⟩,
        ⟨"shelf", none, .array .string { extensible := true }⟩] { extensible := true } }

def storeHoney : Command where
  verb := .insert
  call := ""
  args := ["shelf", "\"honey\""]
  reason := ""

def takeHoney : Command where
  verb := .delete
  call := ""
  args := ["shelf", "\"honey\""]
  reason := ""

def fillFigs : Command where
  verb := .insert
  call := ""
  args := ["jars", "\"fig\"", "\"half\""]
  reason := ""

def emptyFigs : Command where
  verb := .delete
  call := ""
  args := ["jars", "\"fig\""]
  reason := ""

-- The honey is taken from the shelf again, and the figs from the jars.
theorem pantry_reverts :
    (storeHoney.Reverts pantry takeHoney ∧
      (takeHoney.run {} (storeHoney.run {} pantry ⟨[], 0⟩).2.1 ⟨[], 0⟩).2.1.stat = pantry.stat) ∧
    fillFigs.Reverts pantry emptyFigs ∧
      (emptyFigs.run {} (fillFigs.run {} pantry ⟨[], 0⟩).2.1 ⟨[], 0⟩).2.1.stat = pantry.stat := by
  have hm : Meta.Bare pantry.stat := by decide +kernel
  have hc : Argument.Chanceless "\"honey\"" := Argument.chanceless_of_not_infix (by decide +kernel)
  have hs : storeHoney.Reverts pantry takeHoney := by
    have hv : (Argument.value "\"honey\"" ⟨[], 0⟩).1 = .str "honey" := rfl
    refine .item rfl rfl rfl rfl rfl rfl rfl rfl hc hv (.leaf rfl) (by simp [Tree.position?]) ?_
    decide +kernel
  have hf : fillFigs.Reverts pantry emptyFigs := by
    have hk (dice : Dice) : (Argument.value "\"fig\"" dice).1 = .str "fig" := rfl
    exact .entry rfl rfl rfl rfl rfl rfl rfl hk (by decide) (by decide) (by decide)
  refine ⟨⟨hs, ?_⟩, hf, ?_⟩
  · obtain ⟨s₁, ⟨_, _, h₁⟩, _, _, h₂⟩ := run_delete_reverts {} {} ⟨[], 0⟩ ⟨[], 0⟩ hm rfl rfl hs
    rw [h₁, h₂]
  · obtain ⟨s₁, ⟨_, _, h₁⟩, _, _, h₂⟩ := run_delete_reverts {} {} ⟨[], 0⟩ ⟨[], 0⟩ hm rfl rfl hf
    rw [h₁, h₂]

-- The pantry itself is open, but no command is about the root.
def openDoor : Command where
  verb := .insert
  call := ""
  args := ["''", "\"door\"", "\"open\""]
  reason := ""

theorem pantry_refuses_openDoor :
    Meta.Bare pantry.stat ∧ Path.parse (Argument.pathText "''") = .ok [] ∧
      (∃ fields properties traits, pantry.stat.get? [] = some (.obj fields) ∧
        pantry.schemaAt? [] = some (.object properties traits) ∧ traits.extensible ∧
        traits.template = none ∧ "door" ∉ Fields.keys fields ∧
        Schema.requires properties traits "door" = false) ∧
      (∀ dice, (Argument.value "\"door\"" dice).1 = .str "door") ∧
      Argument.Chanceless "\"open\"" ∧
      (∀ dice, (openDoor.run {} pantry dice).1 = .error (.invalidArguments .emptyPath)) := by
  have hc : Argument.Chanceless "\"open\"" := Argument.chanceless_of_not_infix (by decide +kernel)
  refine ⟨by decide +kernel, rfl, ?_, fun _ => rfl, hc, fun _ => rfl⟩
  exact ⟨_, _, _, rfl, rfl, rfl, rfl, by decide, by decide⟩

end Command

end Storyworld
