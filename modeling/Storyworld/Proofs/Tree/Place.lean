import Storyworld.Proofs.Tree.Write

/-!
Places: the paths of a tree in the tree's own terms, by which two paths can be compared. A write at
one place is seen only there, and by the containers above it.
-/

namespace Storyworld.Tree

variable {t c d v w x : Tree} {step st other : Segment} {p q a r rest : Path}

-- The place that a path leads to, if it leads anywhere.
def place? : Tree → Path → Option Path
  | _, [] => some []
  | t, step :: rest => do
    let below ← (← t.child? step).place? rest
    return (← t.enters? step) :: below

@[simp] theorem place?_root : t.place? [] = some [] := by
  rw [place?]

/-! ## Steps and places -/

theorem exists_enters? (h : t.child? step = some c) : ∃ st, t.enters? step = some st := by
  cases hs : t.enters? step
  case none    => simp [child?_of_enters?_none hs] at h
  case some st => exact ⟨st, rfl⟩

theorem enters?_enters? (h : t.enters? step = some st) : t.enters? st = some st := by
  cases t <;> simp [enters?] at h ⊢
  case obj => simp [← h]
  case arr =>
    obtain ⟨i, _, rfl⟩ := h
    exact ⟨i, rfl, rfl⟩

theorem child?_enters? (h : t.enters? step = some st) : t.child? st = t.child? step := by
  cases t <;> simp [enters?] at h
  case obj => simp [← h, child?]
  case arr =>
    obtain ⟨i, hi, rfl⟩ := h
    simp [hi, child?]

theorem child?_congr (h : t.enters? step = t.enters? other) : t.child? step = t.child? other := by
  cases hs : t.enters? step
  case none    => rw [child?_of_enters?_none hs, child?_of_enters?_none (h.symm.trans hs)]
  case some st => rw [← child?_enters? hs, ← child?_enters? (h.symm.trans hs)]

-- Two steps that enter a tree in the same way lead to one child.
theorem child?_unique (hs : t.enters? step = some st) (ho : t.enters? other = some st)
    (hc : t.child? step = some c) (hx : t.child? other = some x) :
    t.enters? other = t.enters? step ∧ x = c :=
  ⟨ho.trans hs.symm, Option.some.inj <| hx.symm.trans <| (child?_congr <| ho.trans hs.symm).trans hc⟩

theorem place?_cons :
    t.place? (step :: rest) = some r ↔
      ∃ c st below, t.child? step = some c ∧ t.enters? step = some st ∧
        c.place? rest = some below ∧ r = st :: below := by
  rw [place?]
  cases hc : t.child? step
  case none   => simp
  case some c =>
    have ⟨st, hs⟩ := exists_enters? hc
    cases hb : c.place? rest <;> simp [hb, hs, eq_comm]

theorem get?_cons_eq_some :
    t.get? (step :: rest) = some v ↔ ∃ c, t.child? step = some c ∧ c.get? rest = some v := by
  simp [Option.bind_eq_some_iff]

theorem exists_place? (h : t.get? q = some v) : ∃ r, t.place? q = some r := by
  induction q generalizing t
  case nil => simp
  case cons step rest ih =>
    have ⟨c, hc, hv⟩ := get?_cons_eq_some.mp h
    have ⟨st, hs⟩ := exists_enters? hc
    have ⟨below, hb⟩ := ih hv
    exact ⟨_, place?_cons.mpr ⟨c, st, below, hc, hs, hb, rfl⟩⟩

theorem get?_place (h : t.place? q = some r) : t.get? r = t.get? q := by
  induction q generalizing t r
  case nil => simp_all
  case cons step rest ih =>
    obtain ⟨c, st, below, hc, hs, hb, rfl⟩ := place?_cons.mp h
    simp [child?_enters? hs, hc, ih hb]

theorem place?_place (h : t.place? q = some r) : t.place? r = some r := by
  induction q generalizing t r
  case nil => simp_all
  case cons step rest ih =>
    obtain ⟨c, st, below, hc, hs, hb, rfl⟩ := place?_cons.mp h
    exact place?_cons.mpr ⟨c, st, below, child?_enters? hs ▸ hc, enters?_enters? hs, ih hb, rfl⟩

theorem length_place (h : t.place? q = some r) : r.length = q.length := by
  induction q generalizing t r
  case nil => simp_all
  case cons step rest ih =>
    obtain ⟨c, st, below, _, _, hb, rfl⟩ := place?_cons.mp h
    simp [ih hb]

theorem replaceChild_enters? (h : t.enters? step = some st) :
    t.replaceChild st c = t.replaceChild step c := by
  cases t <;> simp [enters?] at h
  case obj => simp [← h, replaceChild]
  case arr =>
    obtain ⟨i, hi, rfl⟩ := h
    simp [hi, replaceChild]

theorem set_place (h : t.place? p = some a) : t.set a v = t.set p v := by
  induction p generalizing t a
  case nil => simp_all
  case cons step rest ih =>
    obtain ⟨c, st, below, hc, hs, hb, rfl⟩ := place?_cons.mp h
    rw [set_cons_of_child hc, set_cons_of_child (child?_enters? hs ▸ hc), ih hb,
      replaceChild_enters? hs]

/-! ## Shells -/

-- Two containers that are alike but for their children: of one kind, and with the same keys or the
-- same number of items.
inductive SameShell : Tree → Tree → Prop where
  | arr {items items' : List Tree} (h : items'.length = items.length) :
    SameShell (.arr items) (.arr items')
  | obj {fields fields' : Fields} (h : fields'.keys = fields.keys) :
    SameShell (.obj fields) (.obj fields')

theorem SameShell.kind (h : SameShell v w) : w.kind = v.kind := by
  cases h <;> rfl

theorem SameShell.isComposite (h : SameShell v w) : v.isComposite := by
  cases h <;> rfl

theorem sameShell_replaceChild (h : t.child? step = some c) : SameShell t (t.replaceChild step d) := by
  cases t
  case obj fields => exact .obj <| Fields.keys_alter_of_mem <| Fields.mem_keys.mpr ⟨c, h⟩
  case arr items  =>
    cases hi : step.index?
    case none   => simp [child?, hi] at h
    case some i => simpa [replaceChild, hi] using SameShell.arr (by simp)
  all_goals simp [child?] at h

theorem child?_replaceChild (h : t.child? step = some c) (ho : t.child? other = some x) :
    (t.replaceChild step d).child? other =
      if t.enters? other = t.enters? step then some d else some x := by
  cases t
  case obj fields =>
    have ho : Fields.get? other.name fields = some x := ho
    simp [replaceChild, child?, Fields.put, Fields.get?_alter, ho]
  case arr items =>
    simp only [child?, Option.bind_eq_bind, Option.bind_eq_some_iff] at h ho
    obtain ⟨i, hi, hc⟩ := h
    obtain ⟨j, hj, hx⟩ := ho
    have := (List.getElem?_eq_some_iff.mp hc).1
    simp [replaceChild, child?, hi, hj, List.getElem?_set, hx, this, eq_comm]
  all_goals simp [child?] at h

/-! ## A write at a place -/

-- The first steps of two paths into a tree, after a write along the first of them.
theorem child?_set_of_child (h : t.child? step = some c) (ho : t.child? other = some x) :
    (t.set (step :: rest) v).child? other =
      if t.enters? other = t.enters? step then some (c.set rest v) else some x := by
  rw [set_cons_of_child h, child?_replaceChild h ho]

-- A path that leads through the place reads on in the value written there.
theorem get?_set_below (hp : t.place? p = some a) (hq : t.place? q = some r) (h : a <+: r) :
    (t.set p v).get? q = v.get? (q.drop a.length) := by
  induction p generalizing t a q r
  case nil => simp_all
  case cons step p ih =>
    obtain ⟨c, st, a, hc, hs, ha, rfl⟩ := place?_cons.mp hp
    cases q
    case nil => simp_all
    case cons step' q =>
      obtain ⟨x, st', r, hx, hs', hr, rfl⟩ := place?_cons.mp hq
      obtain ⟨rfl, hb⟩ := List.cons_prefix_cons.mp h
      obtain ⟨he, rfl⟩ := child?_unique hs hs' hc hx
      simp [child?_set_of_child hc hx, he, ih ha hr hb]

theorem get?_set_of_place (hp : t.place? p = some a) (hq : t.place? q = some a) :
    (t.set p v).get? q = some v := by
  rw [get?_set_below hp hq (List.prefix_refl a), length_place hq]
  simp

-- Below the place the two paths have the same way up to it.
theorem get?_drop_below (hp : t.place? p = some a) (hc : t.get? p = some c)
    (hq : t.place? q = some r) (h : a <+: r) :
    t.get? q = c.get? (q.drop a.length) ∧ c.place? (q.drop a.length) = some (r.drop a.length) := by
  induction p generalizing t a q r
  case nil => simp_all
  case cons step p ih =>
    obtain ⟨x, st, a, hx, hs, ha, rfl⟩ := place?_cons.mp hp
    cases q
    case nil => simp_all
    case cons step' q =>
      obtain ⟨y, st', r, hy, hs', hr, rfl⟩ := place?_cons.mp hq
      obtain ⟨rfl, hb⟩ := List.cons_prefix_cons.mp h
      obtain ⟨-, rfl⟩ := child?_unique hs hs' hx hy
      have hc : y.get? p = some c := by simpa [hx] using hc
      simpa [hy] using ih ha hc hr hb

-- A path that leads below the place goes on from the value there, also after a write of the place.
theorem exists_step_below (hp : t.place? p = some a) (hc : t.get? p = some c)
    (hq : t.place? q = some (a ++ st :: rest)) :
    ∃ step below x, c.enters? step = some st ∧ c.child? step = some x ∧ t.get? q = x.get? below ∧
      q.drop (a.length + 1) = below ∧ ∀ d, (t.set p d).get? q = (d.child? step).bind (·.get? below) := by
  have h : a <+: a ++ st :: rest := List.prefix_append ..
  have ⟨hg, hl⟩ := get?_drop_below hp hc hq h
  have hd := fun d => get?_set_below (v := d) hp hq h
  rw [List.drop_left] at hl
  rw [← List.drop_drop]
  generalize q.drop a.length = below at hg hl hd ⊢
  cases below
  case nil => simp at hl
  case cons step below =>
    obtain ⟨x, st, rest, hx, hs, _, he⟩ := place?_cons.mp hl
    cases he
    exact ⟨step, below, x, hs, hx, by simpa [hx] using hg, rfl, by simpa using hd⟩

-- A container above the place keeps its shell.
theorem sameShell_set_above (hp : t.place? p = some a) (hq : t.place? q = some r)
    (hv : t.get? q = some v) (h : r <+: a) (hne : r ≠ a) :
    ∃ v', (t.set p w).get? q = some v' ∧ SameShell v v' := by
  induction p generalizing t a q r
  case nil => simp_all
  case cons step p ih =>
    obtain ⟨c, st, a, hc, hs, ha, rfl⟩ := place?_cons.mp hp
    cases q
    case nil =>
      cases eq_of_get?_root hv
      exact ⟨_, get?_root, set_cons_of_child hc ▸ sameShell_replaceChild hc⟩
    case cons step' q =>
      obtain ⟨x, st', r, hx, hs', hr, rfl⟩ := place?_cons.mp hq
      obtain ⟨rfl, hb⟩ := List.cons_prefix_cons.mp h
      obtain ⟨he, rfl⟩ := child?_unique hs hs' hc hx
      have hv : x.get? q = some v := by simpa [hx] using hv
      simpa [child?_set_of_child hc hx, he] using ih ha hr hv hb (by simpa using hne)

-- Elsewhere nothing changes.
theorem get?_set_apart (hp : t.place? p = some a) (hq : t.place? q = some r) (h : ¬a <+: r)
    (h' : ¬r <+: a) : (t.set p w).get? q = t.get? q := by
  induction p generalizing t a q r
  case nil => simp_all
  case cons step p ih =>
    obtain ⟨c, st, a, hc, hs, ha, rfl⟩ := place?_cons.mp hp
    cases q
    case nil => simp_all
    case cons step' q =>
      obtain ⟨x, st', r, hx, hs', hr, rfl⟩ := place?_cons.mp hq
      by_cases he : st' = st
      case pos =>
        subst he
        obtain ⟨he, rfl⟩ := child?_unique hs hs' hc hx
        have := ih ha hr (by simpa using h) (by simpa using h')
        simpa [child?_set_of_child hc hx, he, hx] using this
      case neg =>
        have he : t.enters? step' ≠ t.enters? step := by simpa [hs, hs'] using he
        simp [child?_set_of_child hc hx, he, hx]

end Storyworld.Tree
