import Storyworld.Proofs.Insertion.Site

/-!
What an insertion leaves alone: all values beside its site, all children of the container that it does
not write, and the kinds of the containers on the way. The items behind a spliced one move up by one.
A map that is made below something else than a container takes its place.
-/

namespace Storyworld

namespace Edit

variable {edit : Edit} {c c' x v : Tree} {i j : Nat} {step other st : Segment}

-- The children that are written over.
def Writes : Edit → Segment → Prop
  | put key, st => st.name = key
  | overlay source, st => st.name ∈ source.keys
  | _, _ => False

-- The items that move up.
def Shifts : Edit → Segment → Prop
  | splice i, .index j => i ≤ j
  | _, _ => False

-- What a child is made in must be able to hold it.
def Fits : Edit → Tree → Prop
  | make step, c => c.enters? step ≠ none
  | _, _ => True

theorem Turns.kind (h : edit.Turns c c') (hf : edit.Fits c) : c'.kind = c.kind := by
  cases h
  case make step v hn =>
    obtain ⟨fields, rfl⟩ | ⟨items, i, rfl, hi⟩ | h := c.enters?_cases step
    · simp [Tree.set_obj, Tree.kind]
    · simp [Tree.set_arr hi, Tree.kind]
    · exact absurd h hf
  all_goals rfl

-- What does not fit is replaced by something of another kind.
theorem Turns.kind_ne (h : edit.Turns c c') (hf : ¬edit.Fits c) : c'.kind ≠ c.kind := by
  cases h
  case make step v hn =>
    have he : c.enters? step = none := by simpa [Fits] using hf
    rw [Tree.set_of_enters?_none he]
    cases c <;> cases step <;> simp_all [Tree.holding, Tree.kind]
  all_goals exact absurd trivial hf

theorem Turns.isComposite (h : edit.Turns c c') (hf : edit.Fits c) : c.isComposite := by
  cases h
  case make step v hn =>
    obtain ⟨fields, rfl⟩ | ⟨items, i, rfl, hi⟩ | h := c.enters?_cases step
    · rfl
    · rfl
    · exact absurd h hf
  all_goals rfl

theorem child?_make (hn : c.child? step = none) (hf : c.enters? step ≠ none)
    (hx : c.child? other = some x) : (c.set [step] v).child? other = some x := by
  obtain ⟨fields, rfl⟩ | ⟨items, i, rfl, hi⟩ | h := c.enters?_cases step
  · have hne : other.name ≠ step.name := fun he => by simp_all [Tree.child?]
    simpa [Tree.set_obj, Tree.child?, Fields.get?_alter_of_ne hne] using hx
  · obtain ⟨j, hj, hx⟩ : ∃ j, other.index? = some j ∧ items[j]? = some x := by
      simpa [Tree.child?, Option.bind_eq_some_iff] using hx
    have hne : j ≠ i := fun he => by simp_all [Tree.child?]
    have hlt := (List.getElem?_eq_some_iff.mp hx).1
    simp [Tree.set_arr hi, Tree.child?, hj, Tree.getElem?_alterItem_of_ne hne hlt, hx]
  · exact absurd h hf

-- The children that are neither written nor moved stay.
theorem Turns.child? (h : edit.Turns c c') (hf : edit.Fits c) (hs : c.enters? step = some st)
    (hx : c.child? step = some x) (hw : ¬edit.Writes st) (hm : ¬edit.Shifts st) :
    c'.child? step = some x := by
  cases h
  case splice items i v hi =>
    have ⟨j, hj, hst⟩ : ∃ j, step.index? = some j ∧ .index j = st := by simpa using hs
    have hlt : j < i := by simpa [← hst, Shifts] using hm
    simpa [Tree.child?, hj, List.getElem?_insertIdx_of_lt hlt] using hx
  case put fields key v =>
    have hk : step.name ≠ key := by
      cases hs
      exact hw
    simpa [Tree.child?, Fields.put, Fields.get?_alter_of_ne hk] using hx
  case overlay fields source =>
    have hk : step.name ∉ Fields.keys source := by
      cases hs
      exact hw
    simpa [Tree.child?, Meta.get?_cleanKeys, hk, Tree.get?_mergeFields_of_not_mem hk] using hx
  case make step' v hn => exact child?_make hn hf hx

-- The items behind the new one are found one position later.
theorem Turns.child?_later (h : edit.Turns c c') (he : edit = .splice i) (hj : i ≤ j) :
    c'.child? (.index (j + 1)) = c.child? (.index j) := by
  cases h <;> cases he
  case splice items v hi =>
    simp [Tree.child?, List.getElem?_insertIdx_of_gt (show i < j + 1 by omega)]

end Edit

namespace Site

variable {site : Site} {t t' : Tree}

structure Spares (site : Site) (t t' : Tree) : Prop where
  -- Containers on the way keep their kind, and nothing else is on the way.
  way {q r : Path} {v : Tree} (hr : t.place? q = some r) (hq : t.get? q = some v)
    (h : r <+: site.container) :
    ∃ v', t'.get? q = some v' ∧ v'.kind = v.kind ∧ (v.isComposite = false → v' = v)
  -- What lies beside the container stays.
  aside {q r : Path} (hr : t.place? q = some r) (h : ¬r <+: site.container)
    (h' : ¬site.container <+: r) : t'.get? q = t.get? q
  -- So does what lies in it, as far as it is not written over.
  within {q rest : Path} {st : Segment} (hr : t.place? q = some (site.container ++ st :: rest))
    (hw : ¬site.edit.Writes st) (hm : ¬site.edit.Shifts st) : t'.get? q = t.get? q
  -- Behind a spliced item everything is found one position later.
  later {q rest : Path} {i j : Nat} (he : site.edit = .splice i) (hj : i ≤ j)
    (hr : t.place? q = some (site.container ++ .index j :: rest)) :
    t'.get? (site.container ++ .index (j + 1) :: rest) = t.get? q

def Fits (site : Site) (t : Tree) : Prop :=
  ∀ c, t.get? site.container = some c → site.edit.Fits c

theorem Turns.spares (h : site.Turns t t') (hf : site.Fits t) : site.Spares t t' := by
  cases h
  case at_container c c' ha hc he =>
    have hf := hf c hc
    constructor
    case way =>
      intro q r v hr hq hp
      -- At the container itself the edit decides, above it only the shell counts.
      by_cases hra : r = site.container
      case pos =>
        have hv : t.get? q = some c := by rw [← Tree.get?_place hr, hra, hc]
        cases Option.some.inj <| hq.symm.trans hv
        refine ⟨c', Tree.get?_set_of_place ha (hra ▸ hr), he.kind hf, fun hn => ?_⟩
        simp [he.isComposite hf] at hn
      case neg =>
        have ⟨v', hv', hs⟩ := Tree.sameShell_set_above (w := c') ha hr hq hp hra
        exact ⟨v', hv', hs.kind, fun hn => by simp [hs.isComposite] at hn⟩
    case aside =>
      intro q r hr hp hp'
      exact Tree.get?_set_apart ha hr hp' hp
    case within =>
      intro q rest st hr hw hm
      have ⟨step, below, x, hs, hx, hq, _, hq'⟩ := Tree.exists_step_below ha hc hr
      rw [hq, hq', he.child? hf hs hx hw hm]
      rfl
    case later =>
      intro q rest i j hi hj hr
      rw [← Tree.get?_place hr, Tree.get?_append, Tree.get?_append, Tree.get?_set_self, hc]
      simp [he.child?_later hi hj]

-- Just the insertions that do not fit lose something: the container itself.
theorem Turns.spares_iff (h : site.Turns t t') : site.Spares t t' ↔ site.Fits t := by
  refine ⟨fun hs c hc => ?_, h.spares⟩
  cases h
  case at_container c₁ c' ha hc₁ he =>
    cases Option.some.inj <| hc.symm.trans hc₁
    have ⟨v', hv', hk, _⟩ := hs.way ha hc (List.prefix_refl _)
    cases Option.some.inj <| Tree.get?_set_self.symm.trans hv'
    exact Classical.byContradiction fun hn => he.kind_ne hn hk

end Site

namespace State

variable {s : State} {op : Operation} {site : Site}

-- A map made for a selector overruns its parent if the parent is a primitive, or a list and the map's
-- own step no position.
def Overruns (s : State) : Operation → Prop
  | .insertAt path _ _ =>
    s.stat.get? path = none ∧ ∃ (p : Path) (step : Segment) (c : Tree),
      path = p.child step ∧ s.stat.get? p = some c ∧ c.enters? step = none
  | _ => False

theorem Aims.fits_iff (h : s.Aims op site) : site.Fits s.stat ↔ ¬s.Overruns op := by
  cases h
  case newMap p step a c selector v ha hp hn =>
    have hp' := (Tree.get?_place ha).trans hp
    have hf : Site.Fits ⟨a, .make step⟩ s.stat ↔ c.enters? step ≠ none := by
      simp [Site.Fits, Edit.Fits, hp']
    rw [hf]
    refine not_congr ⟨fun he => ⟨hn, p, step, c, rfl, hp, he⟩, fun ⟨_, p', step', c', he, hp', hs⟩ => ?_⟩
    obtain ⟨rfl, rfl⟩ := Path.child_inj.mp he
    cases Option.some.inj <| hp.symm.trans hp'
    exact hs
  all_goals exact ⟨fun _ => by simp [Overruns, *], fun _ _ _ => trivial⟩

end State

namespace Command

variable {c : Command} {s : State} {flags : Flags} {dice : Dice} {applied : Applied}

-- An insertion that goes through spares everything that it was not told to write, unless it overruns
-- the parent of its path.
theorem run_insert_spares_iff (hv : c.verb.canonical = .insert)
    (h : (c.run flags s dice).1 = .ok applied) :
    ∃ op dice' site, Operation.ofCommand c dice = .ok (op, dice') ∧ s.Aims op site ∧
      (site.Spares s.stat (c.run flags s dice).2.1.stat ↔ ¬s.Overruns op) := by
  have ⟨op, dice', site, ho, ha, ht⟩ := turns_run hv h
  exact ⟨op, dice', site, ho, ha, ht.spares_iff.trans ha.fits_iff⟩

def hardy : State where
  stat := .obj [("hp", .str "full")]

def raiseMax : Command where
  verb := .insert
  call := ""
  args := ["hp.max", "\"base\"", "\"ten\""]
  reason := ""

-- The text under `hp` is gone, where the insertion of `hp.max` alone would have been refused.
theorem hardy_raiseMax_overruns :
    (∃ applied, (raiseMax.run {} hardy ⟨[], 0⟩).1 = .ok applied) ∧
      hardy.stat.get? [.key "hp"] = some (.str "full") ∧
      (raiseMax.run {} hardy ⟨[], 0⟩).2.1.stat.get? [.key "hp"] =
        some (.obj [("max", .obj [("base", .str "ten")])]) :=
  ⟨⟨_, rfl⟩, rfl, by decide +kernel⟩

def addMana : Command where
  verb := .assign
  call := ""
  args := ["mp", "\"base\"", "\"ten\""]
  reason := ""

-- A map made in a map takes nothing away.
theorem hardy_addMana_spares :
    ∃ op dice' site, Operation.ofCommand addMana ⟨[], 0⟩ = .ok (op, dice') ∧ hardy.Aims op site ∧
      site.Spares hardy.stat (addMana.run {} hardy ⟨[], 0⟩).2.1.stat := by
  have h : (addMana.run {} hardy ⟨[], 0⟩).1 = .ok _ := rfl
  have ⟨op, dice', site, ho, ha, hs⟩ := run_insert_spares_iff rfl h
  refine ⟨op, dice', site, ho, ha, hs.mpr ?_⟩
  cases ho
  rintro ⟨_, p, step, c, hp, hc, he⟩
  have hp : [Segment.key "mp"] = p ++ [step] := hp
  obtain rfl : p = [] := by simpa using congrArg List.length hp
  cases hc
  cases he

end Command

end Storyworld
