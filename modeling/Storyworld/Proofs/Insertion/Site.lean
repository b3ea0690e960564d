import Storyworld.Proofs.Insertion.Outcome

/-!
Sites: the container that an insertion is about, and what becomes of it there. The insertion rewrites
the live tree at that place and nowhere else.
-/

namespace Storyworld

theorem Path.child_inj {p q : Path} {step step' : Segment} :
    p.child step = q.child step' ↔ p = q ∧ step = step' := by
  simp [child]

inductive Edit where
  -- An item put into a list at a position.
  | splice (index : Nat)
  -- An entry of a map written.
  | put (key : String)
  -- A map laid over a map.
  | overlay (source : Fields)
  -- A child made where none is.
  | make (step : Segment)

namespace Edit

-- What a container can turn into.
inductive Turns : Edit → Tree → Tree → Prop where
  | splice {items : List Tree} {i : Nat} {v : Tree} (h : i ≤ items.length) :
    Turns (.splice i) (.arr items) (.arr (items.insertIdx i v))
  | put {fields : Fields} {key : String} {v : Tree} :
    Turns (.put key) (.obj fields) (.obj (fields.put key v))
  | overlay {fields source : Fields} :
    Turns (.overlay source) (.obj fields)
      (.obj (Meta.cleanKeys source.keys (Tree.mergeFields fields source)))
  | make {c : Tree} {step : Segment} {v : Tree} (h : c.child? step = none) :
    Turns (.make step) c (c.set [step] v)

end Edit

structure Site where
  container : Path
  edit : Edit

namespace Site

inductive Turns (site : Site) (t : Tree) : Tree → Prop where
  | at_container {c c' : Tree} (ha : t.place? site.container = some site.container)
    (hc : t.get? site.container = some c) (he : site.edit.Turns c c') :
    Turns site t (t.set site.container c')

end Site

namespace State

-- Where the forms of an insertion aim, by what stands at the path or at its parent.
inductive Aims (s : State) : Operation → Site → Prop where
  | append {p a items v} (ha : s.stat.place? p = some a) (hp : s.stat.get? p = some (.arr items)) :
    Aims s (.insert p v) ⟨a, .splice items.length⟩
  | merge {p a fields source} (ha : s.stat.place? p = some a)
    (hp : s.stat.get? p = some (.obj fields)) :
    Aims s (.insert p (.obj source)) ⟨a, .overlay source⟩
  | newItem {p : Path} {step : Segment} {a items i v} (ha : s.stat.place? p = some a)
    (hp : s.stat.get? p = some (.arr items)) (hn : s.stat.get? (p.child step) = none)
    (hi : step.index? = some i) :
    Aims s (.insert (p.child step) v) ⟨a, .splice (min i items.length)⟩
  | newKey {p : Path} {step : Segment} {a fields v} (ha : s.stat.place? p = some a)
    (hp : s.stat.get? p = some (.obj fields)) (hn : s.stat.get? (p.child step) = none) :
    Aims s (.insert (p.child step) v) ⟨a, .put step.name⟩
  | item {p a items selector i v} (ha : s.stat.place? p = some a)
    (hp : s.stat.get? p = some (.arr items)) (hi : selectedIndex? selector = some i) :
    Aims s (.insertAt p selector v) ⟨a, .splice (min i items.length)⟩
  | entry {p a fields v} {selector : Tree} (ha : s.stat.place? p = some a)
    (hp : s.stat.get? p = some (.obj fields)) :
    Aims s (.insertAt p selector v) ⟨a, .put selector.display⟩
  | newMap {p : Path} {step : Segment} {a c selector v} (ha : s.stat.place? p = some a)
    (hp : s.stat.get? p = some c) (hn : s.stat.get? (p.child step) = none) :
    Aims s (.insertAt (p.child step) selector v) ⟨a, .make step⟩

theorem Aims.unique {s : State} {op : Operation} {site site' : Site} (h : s.Aims op site)
    (h' : s.Aims op site') : site = site' := by
  generalize he : op = op' at h'
  cases h <;> cases h' <;>
    simp only [Operation.insert.injEq, Operation.insertAt.injEq, Path.child_inj, reduceCtorEq] at he <;>
    simp_all

end State

namespace Site

variable {s s' : State} {flags : Flags} {p a : Path} {key : String} {v c c' : Tree}
  {items : List Tree} {fields : Fields} {index : Option Nat} {edit : Edit} {applied : Applied}

theorem Turns.of_set {t : Tree} (ha : t.place? p = some a) (hp : t.get? p = some c)
    (he : edit.Turns c c') : Turns ⟨a, edit⟩ t (t.set p c') :=
  Tree.set_place ha ▸ .at_container (Tree.place?_place ha) ((Tree.get?_place ha).trans hp) he

theorem turns_insertItem (ha : s.stat.place? p = some a) (hp : s.stat.get? p = some (.arr items))
    (h : s.insertItem flags p items index v = .ok (applied, s')) :
    Turns ⟨a, .splice (index.elim items.length (min · items.length))⟩ s.stat s'.stat := by
  have ⟨_, w, hs⟩ := State.of_insertItem_eq_ok h
  refine hs ▸ Turns.of_set ha hp (.splice ?_)
  cases index
  case none   => exact Nat.le_refl _
  case some i => exact Nat.min_le_right i _

theorem turns_insertKey (ha : s.stat.place? p = some a) (hp : s.stat.get? p = some (.obj fields))
    (h : s.insertKey flags p key v = .ok (applied, s')) : Turns ⟨a, .put key⟩ s.stat s'.stat := by
  have ⟨_, w, hs⟩ := State.of_insertKey_eq_ok h
  rw [Tree.set_child hp, Tree.set_obj] at hs
  exact hs ▸ Turns.of_set ha hp .put

end Site

namespace State

variable {s s' : State} {flags : Flags} {p path : Path} {step : Segment} {selector v : Tree}
  {applied : Applied}

-- Where nothing stands there is a last step to get there.
theorem exists_child (h : s.stat.get? path = none) :
    ∃ (p : Path) (step : Segment), path = p.child step := by
  obtain rfl | ⟨p, step, rfl⟩ := path.eq_nil_or_concat
  · simp at h
  · exact ⟨p, step, List.concat_eq_append⟩

theorem turns_insertNew (hn : s.stat.get? (p.child step) = none)
    (h : s.insertNew flags (p.child step) v = .ok (applied, s')) :
    ∃ site, s.Aims (.insert (p.child step) v) site ∧ site.Turns s.stat s'.stat := by
  simp only [insertNew, Path.child, List.getLast?_concat, List.dropLast_concat] at h
  cases hp : s.stat.get? p
  case none => rw [hp] at h; cases h
  case some c =>
    obtain ⟨a, ha⟩ := Tree.exists_place? hp
    cases c <;> simp only [hp] at h
    case obj fields => exact ⟨_, .newKey ha hp hn, Site.turns_insertKey ha hp h⟩
    case arr items =>
      cases hi : step.index?
      case none   => rw [hi] at h; cases h
      case some i =>
        rw [hi] at h
        exact ⟨_, .newItem ha hp hn hi, Site.turns_insertItem ha hp h⟩
    all_goals cases h

theorem turns_insert (h : s.insert flags path v = .ok (applied, s')) :
    ∃ site, s.Aims (.insert path v) site ∧ site.Turns s.stat s'.stat := by
  unfold insert at h
  cases hp : s.stat.get? path
  case none =>
    obtain ⟨p, step, rfl⟩ := exists_child hp
    exact turns_insertNew hp (by simpa only [hp] using h)
  case some c =>
    have ⟨a, ha⟩ := Tree.exists_place? hp
    cases c <;> simp only [hp] at h
    case arr items  => exact ⟨_, .append ha hp, Site.turns_insertItem ha hp h⟩
    case obj fields =>
      obtain ⟨source, rfl, _, hs⟩ := of_mergeInto_eq_ok hp h
      exact ⟨_, .merge ha hp, hs ▸ Site.Turns.of_set ha hp .overlay⟩
    all_goals cases h

theorem turns_insertAt (h : s.insertAt flags path selector v = .ok (applied, s')) :
    ∃ site, s.Aims (.insertAt path selector v) site ∧ site.Turns s.stat s'.stat := by
  unfold insertAt at h
  cases hp : s.stat.get? path
  case none => rw [hp] at h; cases h
  case some c =>
    have ⟨a, ha⟩ := Tree.exists_place? hp
    cases c <;> simp only [hp] at h
    case arr items =>
      cases hi : selectedIndex? selector
      case none   => rw [hi] at h; cases h
      case some i =>
        rw [hi] at h
        exact ⟨_, .item ha hp hi, Site.turns_insertItem ha hp h⟩
    case obj fields => exact ⟨_, .entry ha hp, Site.turns_insertKey ha hp h⟩
    all_goals cases h

-- The made map and its only entry are one write.
theorem turns_makeMap {s₁ : State} {key : String} (hn : s.stat.get? (p.child step) = none)
    (hm : s.makeMap (p.child step) = .ok s₁)
    (h : s₁.insertKey flags (p.child step) key v = .ok (applied, s')) :
    ∃ site, s.Aims (.insertAt (p.child step) selector v) site ∧ site.Turns s.stat s'.stat := by
  obtain ⟨hd, _, rfl⟩ := makeMap_eq_ok.mp hm
  simp only [Path.child, List.dropLast_concat, Tree.has] at hd
  obtain ⟨c, hc⟩ := Option.isSome_iff_exists.mp hd
  obtain ⟨a, ha⟩ := Tree.exists_place? hc
  obtain ⟨_, w, hs⟩ := of_insertKey_eq_ok h
  have hmiss : c.child? step = none := by simpa [Tree.get?_child, hc] using hn
  rw [Tree.set_child Tree.get?_set_self, Tree.set_set, Tree.set_child hc] at hs
  exact ⟨_, .newMap ha hc hn, hs ▸ Site.Turns.of_set ha hc (.make hmiss)⟩

end State

namespace Operation

variable {s : State} {flags : Flags} {op : Operation} {applied : Applied}
  {r : Except CommandError (Applied × State)}

theorem of_keeping_eq_ok (h : (keeping s r).1 = .ok applied) : r = .ok (applied, (keeping s r).2) := by
  cases r <;> cases h
  rfl

def path : Operation → Path
  | set path _ | insert path _ | insertAt path _ _ | delete path | deleteFrom path _ | add path _ => path

def IsInsertion : Operation → Prop
  | insert .. | insertAt .. => True
  | _ => False

theorem turns_run (ho : op.IsInsertion) (h : (op.run flags s).1 = .ok applied) :
    ∃ site, s.Aims op site ∧ site.Turns s.stat (op.run flags s).2.stat := by
  cases op
  case insert path v => exact State.turns_insert <| of_keeping_eq_ok h
  case insertAt path selector v =>
    cases hp : s.stat.get? path
    case some c =>
      have hh : s.stat.has path := by simp [Tree.has, hp]
      simp only [run, hh, if_true] at h ⊢
      exact State.turns_insertAt <| of_keeping_eq_ok h
    case none =>
      obtain ⟨p, step, rfl⟩ := State.exists_child hp
      have hh : s.stat.has (p.child step) = false := by simp [Tree.has, hp]
      simp only [run, hh, Bool.false_eq_true, if_false] at h ⊢
      cases hm : s.makeMap (p.child step)
      case error => rw [hm] at h; cases h
      case ok s₁ =>
        rw [hm] at h
        exact State.turns_makeMap hp hm <| of_keeping_eq_ok h
  all_goals exact ho.elim

-- What a verb can ask for at a path, by what follows the path.
inductive Asks (verb : Verb) (path : Path) (rest : List String) : Operation → Prop where
  | set {v : Tree} (hv : verb.canonical = .set) : Asks verb path rest (.set path v)
  | insert {v : Tree} (hv : verb.canonical = .insert) : Asks verb path rest (.insert path v)
  | insertAt {selector v : Tree} (hv : verb.canonical = .insert) :
    Asks verb path rest (.insertAt path selector v)
  | delete (hv : verb.canonical = .delete) (hr : rest = []) : Asks verb path rest (.delete path)
  | deleteFrom {selector : Tree} (hv : verb.canonical = .delete) (hr : rest ≠ []) :
    Asks verb path rest (.deleteFrom path selector)
  | add {v : Tree} (hv : verb.canonical = .add) : Asks verb path rest (.add path v)

theorem asks_of_read {verb : Verb} {path : Path} {rest : List String} {dice dice' : Dice}
    (h : read verb path rest dice = .ok (op, dice')) : Asks verb path rest op := by
  unfold read at h
  split at h
  all_goals simp only [Except.ok.injEq, Prod.mk.injEq, reduceCtorEq] at h
  all_goals obtain ⟨rfl, -⟩ := h
  case h_1 hv | h_2 hv => exact .set hv
  case h_4 hv          => exact .delete hv rfl
  case h_5 hv          => exact .deleteFrom hv (by simp)
  case h_6 hv          => exact .add hv
  case h_9             => exact .insert (by cases verb <;> simp_all [Verb.canonical])
  case h_10            => exact .insertAt (by cases verb <;> simp_all [Verb.canonical])

end Operation

namespace Command

variable {c : Command} {s : State} {flags : Flags} {dice dice' : Dice} {applied : Applied} {op : Operation}

-- No command is about the root.
theorem exists_child_of_target {path : Path} (h : c.target = .ok path) :
    ∃ (p : Path) (step : Segment), path = p.child step := by
  unfold target at h
  split at h
  case h_1 => cases h
  case h_2 =>
    split at h
    case h_1 => cases h
    case h_2 =>
      obtain rfl | ⟨p, step, rfl⟩ := path.eq_nil_or_concat
      · split at h
        case isTrue  => cases h
        case isFalse => simp_all
      · exact ⟨p, step, List.concat_eq_append⟩

theorem asks_of_ofCommand (h : Operation.ofCommand c dice = .ok (op, dice')) :
    ∃ p, c.target = .ok p ∧ op.Asks c.verb p c.args.tail := by
  unfold Operation.ofCommand at h
  cases ht : c.target <;> rw [ht] at h
  case error => cases h
  case ok p  => exact ⟨p, rfl, Operation.asks_of_read h⟩

-- An operation has the path of its command, and it is an insertion if the verb asks for one.
theorem ofCommand_eq_ok (h : Operation.ofCommand c dice = .ok (op, dice')) :
    c.target = .ok op.path ∧ (op.IsInsertion ↔ c.verb.canonical = .insert) := by
  obtain ⟨p, ht, ha⟩ := asks_of_ofCommand h
  cases ha <;> exact ⟨ht, by simp [Operation.IsInsertion, *]⟩

theorem exists_of_run_eq_ok (h : (c.run flags s dice).1 = .ok applied) :
    ∃ op dice' a, Operation.ofCommand c dice = .ok (op, dice') ∧ (op.run flags s).1 = .ok a ∧
      applied = a.because c.reason ∧ (c.run flags s dice).2.1 = (op.run flags s).2 := by
  unfold run at h ⊢
  cases ho : Operation.ofCommand c dice <;> simp only [ho] at h ⊢
  case error => cases h
  case ok r =>
    cases hr : (r.1.run flags s).1 <;> simp only [hr] at h
    case error => cases h
    case ok a  => exact ⟨r.1, r.2, a, rfl, hr, (Except.ok.inj h).symm, rfl⟩

theorem exists_of_isOk_run (h : (c.run flags s dice).1.isOk) :
    ∃ op dice' applied, Operation.ofCommand c dice = .ok (op, dice') ∧
      (op.run flags s).1 = .ok applied ∧ (c.run flags s dice).2.1 = (op.run flags s).2 := by
  cases hr : (c.run flags s dice).1
  case error => simp [hr, Except.isOk, Except.toBool] at h
  case ok applied =>
    obtain ⟨op, dice', a, ho, ha, -, hs⟩ := exists_of_run_eq_ok hr
    exact ⟨op, dice', a, ho, ha, hs⟩

-- An insertion that goes through aims at a site, and leaves everything else alone.
theorem turns_run (hv : c.verb.canonical = .insert) (h : (c.run flags s dice).1 = .ok applied) :
    ∃ op dice' site, Operation.ofCommand c dice = .ok (op, dice') ∧ s.Aims op site ∧
      site.Turns s.stat (c.run flags s dice).2.1.stat := by
  obtain ⟨op, dice', _, ho, hr, -, hs⟩ := exists_of_run_eq_ok h
  have hi : op.IsInsertion := (ofCommand_eq_ok ho).2.mpr hv
  have ⟨site, ha, ht⟩ := Operation.turns_run hi hr
  exact ⟨op, dice', site, ho, ha, hs ▸ ht⟩

end Command

end Storyworld
