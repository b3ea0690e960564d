import Storyworld.Proofs.Insertion.Frame

/-!
Closed containers under insertion. A schema is asked at the container that the insertion is aimed at,
so the containers above stay as they are. What it is not asked about is the rest: lists in which a map
is made, and the containers within a map that is laid over another.
-/

namespace Storyworld

namespace Edit

variable {edit : Edit} {c c' x : Tree} {items : List Tree} {fields : Fields} {step st : Segment}

-- Whether a list gets longer.
def Lengthens : Edit → Prop
  | splice _ => True
  | make step => step.index?.isSome
  | _ => False

-- The keys that a map may get.
def keys : Edit → List String
  | put key => [key]
  | overlay source => source.keys
  | make step => [step.name]
  | splice _ => []

-- The children whose place is taken by the inserted value. Where a child is made, there was none.
def Replaces : Edit → Segment → Prop
  | put key, st => st.name = key
  | make step, st => st.name = step.name
  | _, _ => False

theorem Turns.arr (h : edit.Turns (.arr items) c') :
    edit.Lengthens ∧ (∃ items', c' = .arr items' ∧ items.length < items'.length) ∨
      ¬edit.Lengthens ∧ ∃ fields, c' = .obj fields := by
  cases h
  case splice v i hi => exact .inl ⟨trivial, _, rfl, by simp [List.length_insertIdx, hi]⟩
  case make step v hn =>
    cases hi : step.index?
    case none =>
      refine .inr ⟨by simp [Lengthens, hi], ?_⟩
      cases step
      case index i => simp at hi
      case key k   => exact ⟨_, Tree.set_of_enters?_none (by simp [hi])⟩
    case some i =>
      -- The list has no item at `i`, so the write fills it up to there.
      have hle : items.length ≤ i := by simpa [Tree.child?, hi] using hn
      refine .inl ⟨by simp [Lengthens, hi], _, Tree.set_arr hi, ?_⟩
      rw [Tree.length_alterItem]
      omega

theorem Turns.obj (h : edit.Turns (.obj fields) c') :
    ∃ fields', c' = .obj fields' ∧
      ∀ k, k ∈ Fields.keys fields' ↔ k ∈ edit.keys ∨ k ∈ Fields.keys fields := by
  cases h
  case put key v => exact ⟨_, rfl, by simp [Fields.put, Fields.mem_keys_alter, keys]⟩
  case overlay source =>
    refine ⟨_, rfl, fun k => ?_⟩
    rw [Meta.mem_keys_cleanKeys, Tree.mem_keys_mergeFields, or_comm]
    rfl
  case make step v hn => exact ⟨_, Tree.set_obj, by simp [Fields.mem_keys_alter, keys]⟩

-- In place of a list that a name cannot enter, only this name leads to something.
theorem child?_unfit {made : Segment} {v : Tree} (he : c.enters? made = none)
    (hs : c.enters? step = some st) (hx : c.child? step = some x) (hn : st.name ≠ made.name) :
    (c.set [made] v).child? step = none := by
  rw [Tree.set_of_enters?_none he]
  cases c <;> simp [Tree.child?] at hx <;> simp at he
  case arr items =>
    obtain ⟨i, hi, hst⟩ : ∃ i, step.index? = some i ∧ .index i = st := by simpa using hs
    cases made
    case index j => simp at he
    case key k   =>
      have hne : step.name ≠ k := by
        cases step
        case index j =>
          cases hi
          exact hst ▸ hn
        case key k' =>
          rintro rfl
          simp_all
      simp [Tree.holding, Tree.child?, Fields.get?, hne.symm]

-- A child that is neither replaced nor moved stays, or is lost with its container, or is overlaid.
theorem Turns.child?_cases (h : edit.Turns c c') (hs : c.enters? step = some st)
    (hx : c.child? step = some x) (hr : ¬edit.Replaces st) (hm : ¬edit.Shifts st) :
    c'.child? step = some x ∨ c'.child? step = none ∨
      ∃ fields source k w, edit = .overlay source ∧ c = .obj fields ∧ st = .key k ∧
        k ∈ Fields.keys source ∧ (Tree.mergeFields fields source).get? k = some w ∧
        c'.child? step = some (Meta.clean w) := by
  by_cases hw : edit.Writes st
  case pos =>
    cases h
    case put => exact absurd hw hr
    case overlay fields source =>
      cases hs
      have hk : step.name ∈ Fields.keys source := hw
      have hm : step.name ∈ Fields.keys (Tree.mergeFields fields source) :=
        Tree.mem_keys_mergeFields.mpr <| .inr hk
      have ⟨w, hw'⟩ := Fields.mem_keys.mp hm
      refine .inr <| .inr ⟨fields, source, step.name, w, rfl, rfl, rfl, hk, hw', ?_⟩
      simp [Tree.child?, Meta.get?_cleanKeys, hk, hw']
    all_goals exact hw.elim
  case neg =>
    by_cases hf : edit.Fits c
    case pos => exact .inl <| h.child? hf hs hx hw hm
    case neg =>
      cases h <;> try exact absurd trivial hf
      case make made v hn =>
        have he : c.enters? made = none := by simpa [Fits] using hf
        exact .inr <| .inl <| child?_unfit he hs hx hr

end Edit

namespace Schema

variable {node : Schema} {edit : Edit} {c c' v w : Tree}

-- A closed map gets none but declared keys, and a closed list keeps its length.
def Keeps : Schema → Tree → Tree → Prop
  | object properties traits, .obj old, .obj new =>
    traits.extensible = false →
      ∀ k ∈ Fields.keys new, k ∈ Fields.keys old ∨ (Properties.find? k properties).isSome
  | array _ traits, .arr old, .arr new => traits.extensible = false → new.length = old.length
  | _, _, _ => True

-- What a node has against an edit of its container.
def Forbids : Schema → Edit → Tree → Prop
  | object properties traits, edit, .obj fields =>
    traits.extensible = false ∧
      ∃ k ∈ edit.keys, k ∉ Fields.keys fields ∧ Properties.find? k properties = none
  | array _ traits, edit, .arr _ => traits.extensible = false ∧ edit.Lengthens
  | _, _, _ => False

theorem keeps_self : node.Keeps v v := by
  cases node <;> cases v <;> simp +contextual [Keeps]

theorem keeps_of_sameShell (h : Tree.SameShell v w) : node.Keeps v w := by
  cases h
  case arr h => cases node <;> first | exact fun _ => h | trivial
  case obj h =>
    cases node
    case object => exact fun _ k hk => .inl <| h ▸ hk
    all_goals trivial

theorem keeps_iff_not_forbids (h : edit.Turns c c') : node.Keeps c c' ↔ ¬node.Forbids edit c := by
  cases c
  case arr items =>
    obtain ⟨hl, items', rfl, hlt⟩ | ⟨hl, fields, rfl⟩ := h.arr
    · cases node <;> simp [Keeps, Forbids, hl, Nat.ne_of_gt hlt]
    · cases node <;> simp [Keeps, Forbids, hl]
  case obj fields =>
    obtain ⟨fields', rfl, hk⟩ := h.obj
    cases node
    case object properties traits =>
      constructor
      · rintro h ⟨ht, k, hke, hn, hd⟩
        have := h ht k <| (hk k).mpr (.inl hke)
        simp [hn, hd] at this
      · intro h ht k hk'
        cases hd : Properties.find? k properties
        case some p => exact .inr rfl
        case none   =>
          refine .inl <| Classical.byContradiction fun hn => h ⟨ht, k, ?_, hn, hd⟩
          exact (hk k).mp hk' |>.resolve_right hn
    all_goals simp [Keeps, Forbids]
  all_goals cases node <;> simp [Keeps, Forbids]

end Schema

namespace Site

variable {site : Site} {s : State} {t' : Tree}

-- Every container that is closed when the insertion begins, and that the inserted value does not
-- replace, is what its node wants it to be. Behind a spliced item it is found one position later.
structure LeavesClosed (site : Site) (s : State) (t' : Tree) : Prop where
  stay {q r : Path} {v v' : Tree} {node : Schema} (hr : s.stat.place? q = some r)
    (hv : s.stat.get? q = some v) (hn : s.schemaAt? q = some node)
    (hu : ∀ st rest, r = site.container ++ st :: rest → ¬site.edit.Replaces st ∧ ¬site.edit.Shifts st)
    (hv' : t'.get? q = some v') : node.Keeps v v'
  later {q rest : Path} {i j : Nat} {v v' : Tree} {node : Schema} (he : site.edit = .splice i)
    (hj : i ≤ j) (hr : s.stat.place? q = some (site.container ++ .index j :: rest))
    (hv : s.stat.get? q = some v) (hn : s.schemaAt? q = some node)
    (hv' : t'.get? (site.container ++ .index (j + 1) :: rest) = some v') : node.Keeps v v'

-- The ways past a closed node.
inductive Breach (site : Site) (s : State) : Prop where
  -- A node of the container itself has not been asked, or not the right question.
  | here {q : Path} {c : Tree} {node : Schema} (hr : s.stat.place? q = some site.container)
    (hv : s.stat.get? q = some c) (hn : s.schemaAt? q = some node) (hb : node.Forbids site.edit c)
  -- A container within an overlaid entry becomes what its node does not want.
  | below {q rest : Path} {fields source : Fields} {k : String} {w v v' : Tree} {node : Schema}
    (he : site.edit = .overlay source) (hf : s.stat.get? site.container = some (.obj fields))
    (hk : k ∈ Fields.keys source) (hw : (Tree.mergeFields fields source).get? k = some w)
    (hr : s.stat.place? q = some (site.container ++ .key k :: rest)) (hv : s.stat.get? q = some v)
    (hn : s.schemaAt? q = some node)
    (hv' : (Meta.clean w).get? (q.drop (site.container.length + 1)) = some v')
    (hb : ¬node.Keeps v v')

section

variable {c c' v v' : Tree} {q rest : Path} {st : Segment} {node : Schema}
  (ha : s.stat.place? site.container = some site.container)
  (hc : s.stat.get? site.container = some c) (he : site.edit.Turns c c') (hb : ¬site.Breach s)
  (hv : s.stat.get? q = some v) (hn : s.schemaAt? q = some node)
  (hv' : (s.stat.set site.container c').get? q = some v')

include ha hc he hb hv hn hv'

theorem keeps_at_container (hr : s.stat.place? q = some site.container) : node.Keeps v v' := by
  have hvc : v = c := by
    rw [← Tree.get?_place hr, hc] at hv
    exact Option.some.inj hv.symm
  have hvc' : v' = c' := by
    rw [Tree.get?_set_of_place ha hr] at hv'
    exact Option.some.inj hv'.symm
  rw [hvc, hvc', Schema.keeps_iff_not_forbids he]
  exact fun hf => hb <| .here hr (hvc ▸ hv) hn hf

theorem keeps_within (hr : s.stat.place? q = some (site.container ++ st :: rest))
    (hs : ¬site.edit.Replaces st) (hm : ¬site.edit.Shifts st) : node.Keeps v v' := by
  have ⟨step, below, x, hst, hx, hq, hd, hq'⟩ := Tree.exists_step_below ha hc hr
  have hw := he.child?_cases hst hx hs hm
  rw [hq'] at hv'
  -- Only an overlaid child is another one than before.
  obtain hw | hw | ⟨fields, source, k, w, hes, rfl, rfl, hk, hw, hw'⟩ := hw
  · rw [hw, Option.bind_some, ← hq, hv] at hv'
    exact Option.some.inj hv' ▸ Schema.keeps_self
  · simp [hw] at hv'
  · rw [hw', Option.bind_some, ← hd] at hv'
    exact Classical.byContradiction fun hf => hb <| .below hes hc hk hw hr hv hn hv' hf

end

theorem Turns.leavesClosed (h : site.Turns s.stat t') (hb : ¬site.Breach s) :
    site.LeavesClosed s t' := by
  cases h
  case at_container c c' ha hc he =>
    constructor
    case stay =>
      intro q r v v' node hr hv hn hu hv'
      -- The path leads to the container, above it, into it, or beside it.
      by_cases hra : r = site.container
      case pos => exact keeps_at_container ha hc he hb hv hn hv' (hra ▸ hr)
      case neg =>
        by_cases hp : r <+: site.container
        case pos =>
          have ⟨w, hw, hs⟩ := Tree.sameShell_set_above (w := c') ha hr hv hp hra
          exact Option.some.inj (hw.symm.trans hv') ▸ Schema.keeps_of_sameShell hs
        case neg =>
          by_cases hp' : site.container <+: r
          case pos =>
            obtain ⟨_ | ⟨st, rest⟩, rfl⟩ := hp'
            · simp at hra
            · have ⟨hs, hm⟩ := hu st rest rfl
              exact keeps_within ha hc he hb hv hn hv' hr hs hm
          case neg =>
            rw [Tree.get?_set_apart ha hr hp' hp, hv] at hv'
            exact Option.some.inj hv' ▸ Schema.keeps_self
    case later =>
      intro q rest i j v v' node hi hj hr hv hn hv'
      rw [Tree.get?_append, Tree.get?_set_self, Option.bind_some, Tree.get?_cons,
        he.child?_later hi hj] at hv'
      rw [← Tree.get?_place hr, Tree.get?_append, hc, Option.bind_some, Tree.get?_cons] at hv
      exact Option.some.inj (hv.symm.trans hv') ▸ Schema.keeps_self

theorem Turns.not_breach (h : site.Turns s.stat t') (hl : site.LeavesClosed s t') :
    ¬site.Breach s := by
  cases h
  case at_container c c' ha hc he =>
    intro hb
    cases hb
    case here q c₁ node hr hv hn hb =>
      have hvc : c₁ = c := by
        rw [← Tree.get?_place hr, hc] at hv
        exact Option.some.inj hv.symm
      have hk := hl.stay hr hv hn (fun st rest h => by simp at h) (Tree.get?_set_of_place ha hr)
      exact Schema.keeps_iff_not_forbids he |>.mp (hvc ▸ hk) (hvc ▸ hb)
    case below q rest fields source k w v v' node hes hf hk hw hr hv hn hv' hb =>
      -- What the path finds afterwards is what the overlay holds there.
      have ⟨step, below, x, hs, hx, hq, hd, hq'⟩ := Tree.exists_step_below ha hc hr
      have hu : ∀ st, ¬site.edit.Replaces st ∧ ¬site.edit.Shifts st := by
        rw [hes]
        exact fun _ => ⟨id, id⟩
      cases Option.some.inj <| hc.symm.trans hf
      have ⟨site, edit⟩ := site
      cases hes
      refine hb <| hl.stay hr hv hn (fun st rest _ => hu st) ?_
      cases he
      cases hs
      rw [hq', ← hd, Tree.child?, Meta.get?_cleanKeys, if_pos hk, hw]
      exact hv'

-- Closed containers stay closed unless the schema is not asked.
theorem Turns.leavesClosed_iff (h : site.Turns s.stat t') :
    site.LeavesClosed s t' ↔ ¬site.Breach s :=
  ⟨h.not_breach, h.leavesClosed⟩

end Site

namespace Command

variable {c : Command} {s : State} {flags : Flags} {dice : Dice} {applied : Applied}

theorem run_insert_leavesClosed_iff (hv : c.verb.canonical = .insert)
    (h : (c.run flags s dice).1 = .ok applied) :
    ∃ op dice' site, Operation.ofCommand c dice = .ok (op, dice') ∧ s.Aims op site ∧
      (site.LeavesClosed s (c.run flags s dice).2.1.stat ↔ ¬site.Breach s) := by
  have ⟨op, dice', site, ho, ha, ht⟩ := turns_run hv h
  exact ⟨op, dice', site, ho, ha, ht.leavesClosed_iff⟩

def untrained : State where
  stat := .obj [("stats", .obj [("str", .obj [("base", .str "five")])])]
  schema := some
    { root := .object [⟨"stats", none, .object
        [⟨"str", none, .object [⟨"base", none, .string⟩] {}⟩] {}⟩] {} }

def train : Command where
  verb := .insert
  call := ""
  args := ["stats", "\x7b\"str\":\x7b\"bonus\":\"one\"\x7d\x7d"]
  reason := ""

-- The map of `str` is closed and gets a bonus, as only the keys of `stats` have been looked at.
theorem untrained_train_breaches :
    (train.run {} untrained ⟨[], 0⟩).1.isOk ∧
      untrained.stat.get? [.key "stats", .key "str"] = some (.obj [("base", .str "five")]) ∧
      untrained.schemaAt? [.key "stats", .key "str"] =
        some (.object [⟨"base", none, .string⟩] { extensible := false }) ∧
      (train.run {} untrained ⟨[], 0⟩).2.1.stat.get? [.key "stats", .key "str"] =
        some (.obj [("base", .str "five"), ("bonus", .str "one")]) :=
  ⟨by decide +kernel, rfl, rfl, by decide +kernel⟩

def pack : Command where
  verb := .insert
  call := ""
  args := ["bag", "\"rope\""]
  reason := ""

def unpacked : State where
  stat := .obj [("bag", .arr [])]
  schema := some { root := .object [⟨"bag", none, .array .string { extensible := true }⟩] {} }

-- The bag is open, and it is the only container at its place.
theorem unpacked_pack_leavesClosed :
    ∃ op dice' site, Operation.ofCommand pack ⟨[], 0⟩ = .ok (op, dice') ∧ unpacked.Aims op site ∧
      site.LeavesClosed unpacked (pack.run {} unpacked ⟨[], 0⟩).2.1.stat := by
  have h : (pack.run {} unpacked ⟨[], 0⟩).1 = .ok _ := rfl
  have ⟨op, dice', site, ho, ha, hs⟩ := run_insert_leavesClosed_iff rfl h
  refine ⟨op, dice', site, ho, ha, hs.mpr fun hb => ?_⟩
  have ho' : Operation.ofCommand pack ⟨[], 0⟩ =
      .ok (.insert [.key "bag"] (.str "rope"), ⟨[], 0⟩) := rfl
  cases ho'.symm.trans ho
  have hp : unpacked.stat.get? [.key "bag"] = some (.arr []) := rfl
  cases ha.unique <| .append (a := [.key "bag"]) rfl hp
  cases hb
  case below he _ _ _ _ _ _ _ _ => cases he
  case here q c node hr hv hn hb =>
    obtain _ | ⟨step, _ | ⟨step', rest⟩⟩ := q
    · cases hr
    · have hk : step.name = "bag" := by
        obtain ⟨_, st, _, _, hs, _, he⟩ := Tree.place?_cons.mp hr
        have hs : some (Segment.key step.name) = some st := hs
        simpa [← (List.cons.inj he).1] using hs
      have hn' : unpacked.schemaAt? [step] = some (.array .string { extensible := true }) := by
        simp [State.schemaAt?, unpacked, Schema.get?, Schema.child?, Schema.Properties.find?, hk]
      cases hn'.symm.trans hn
      cases c <;> simp [Schema.Forbids] at hb
    · simpa using Tree.length_place hr

end Command

end Storyworld
