import Storyworld.Proofs.Meta.Clean

/-!
Cleaning as a projection. Whatever is about a map or a list is gone, however deep it stands, and all else
stays in its order. The trees that say nothing about themselves are those that cleaning leaves alone.
-/

namespace Storyworld

-- `x` is the tree itself or stands somewhere in it.
inductive Tree.Within (x : Tree) : Tree → Prop where
  | self : Within x x
  | item {items : List Tree} {y : Tree} (hy : y ∈ items) (h : Within x y) : Within x (.arr items)
  | entry {fields : Fields} {e : String × Tree} (he : e ∈ fields) (h : Within x e.2) :
    Within x (.obj fields)

namespace Meta

variable {t r x : Tree} {items : List Tree} {fields : Fields}

-- An item that is about its list: the extensible marker, or a sentinel.
inductive AboutList : Tree → Prop where
  | marker : AboutList (.str "$__META_EXTENSIBLE__$")
  | sentinel {fields : Fields} (h : fields.get? "$arrayMeta" = some (.bool true)) :
    AboutList (.obj fields)

-- No map has metadata and no list holds any.
structure Spotless (t : Tree) : Prop where
  maps  : ∀ fields : Fields, Tree.Within (.obj fields) t → "$meta" ∉ fields.keys
  lists : ∀ items : List Tree, Tree.Within (.arr items) t → ∀ x ∈ items, ¬AboutList x

-- What is left of a tree, item by item and entry by entry.
inductive Leaves : Tree → Tree → Prop where
  | leaf {t : Tree} (h : t.isComposite = false) : Leaves t t
  | noItems : Leaves (.arr []) (.arr [])
  | dropItem {x : Tree} {xs ys : List Tree} (hx : AboutList x) (h : Leaves (.arr xs) (.arr ys)) :
    Leaves (.arr (x :: xs)) (.arr ys)
  | keepItem {x y : Tree} {xs ys : List Tree} (hx : ¬AboutList x) (hy : Leaves x y)
    (h : Leaves (.arr xs) (.arr ys)) : Leaves (.arr (x :: xs)) (.arr (y :: ys))
  | noEntries : Leaves (.obj []) (.obj [])
  | dropEntry {v : Tree} {es fs : Fields} (h : Leaves (.obj es) (.obj fs)) :
    Leaves (.obj (("$meta", v) :: es)) (.obj fs)
  | keepEntry {k : String} {v w : Tree} {es fs : Fields} (hk : k ≠ "$meta") (hw : Leaves v w)
    (h : Leaves (.obj es) (.obj fs)) : Leaves (.obj ((k, v) :: es)) (.obj ((k, w) :: fs))

theorem aboutList_iff : AboutList x ↔ isArtifact x := by
  constructor
  · rintro (_ | h)
    · rfl
    · simp [isArtifact, isSentinel, Tree.field?, sentinelKey, h, Tree.asBool?]
  · intro h
    cases x
    case str s =>
      obtain rfl : s = marker := by simpa [isArtifact, isMarker, isSentinel, Tree.field?] using h
      exact .marker
    case obj fields =>
      have h : ∃ v, Fields.get? sentinelKey fields = some v ∧ v.asBool? = some true := by
        simpa [isArtifact, isMarker, isSentinel, Tree.field?, Option.bind_eq_some_iff] using h
      obtain ⟨v, hv, hb⟩ := h
      cases v
      case bool b => exact .sentinel (Option.some.inj hb ▸ hv)
      all_goals cases hb
    all_goals cases h

theorem not_aboutList_iff : ¬AboutList x ↔ isArtifact x = false := by
  rw [aboutList_iff, Bool.not_eq_true]

theorem Spotless.item (h : Spotless (.arr items)) (hx : x ∈ items) : Spotless x where
  maps fields hf := h.maps fields (.item hx hf)
  lists items hi := h.lists items (.item hx hi)

theorem Spotless.entry {e : String × Tree} (h : Spotless (.obj fields)) (he : e ∈ fields) :
    Spotless e.2 where
  maps fields hf := h.maps fields (.entry he hf)
  lists items hi := h.lists items (.entry he hi)

theorem Bare.within (h : Bare t) (hx : x.Within t) : Bare x := by
  induction hx with
  | self => exact h
  | item hy _ ih =>
    cases h with
    | leaf h     => cases h
    | arr own ha => exact ih (ha _ hy)
  | entry he _ ih =>
    cases h with
    | leaf h     => cases h
    | obj own ho => exact ih (ho _ he)

theorem bare_iff_spotless : Bare t ↔ Spotless t := by
  constructor
  · intro h
    exact {
      maps  := fun _ hf => (h.within hf).key_notMem
      lists := fun _ hi x hx => not_aboutList_iff.mpr <| (h.within hi).own x hx }
  · intro h
    induction t using Tree.inductionOn
    case leaf t hl => exact .leaf hl
    case arr items ih =>
      refine .arr (fun x hx => ?_) fun x hx => ih x hx (h.item hx)
      simpa [isArtifact] using not_aboutList_iff.mp (h.lists items .self x hx)
    case obj fields ih =>
      refine .obj (fun e he hk => ?_) fun e he => ih e he (h.entry he)
      exact h.maps fields .self <| List.mem_map.mpr ⟨e, he, hk⟩

-- An item that stays is cleaned itself, but whether it stays is decided on what it was before.
theorem leaves_clean (t : Tree) : Leaves t (clean t) := by
  induction t using Tree.inductionOn
  case leaf t h =>
    rw [clean_leaf h]
    exact .leaf h
  case arr items ih =>
    rw [clean]
    induction items
    case nil => exact .noItems
    case cons x xs ihs =>
      obtain ⟨hx, hxs⟩ := List.forall_mem_cons.mp ih
      rw [cleanItems]
      split
      case isTrue ha  => exact .dropItem (aboutList_iff.mpr ha) (ihs hxs)
      case isFalse ha => exact .keepItem (mt aboutList_iff.mp ha) hx (ihs hxs)
  case obj fields ih =>
    rw [clean]
    induction fields
    case nil => exact .noEntries
    case cons e es ihs =>
      obtain ⟨hv, hes⟩ := List.forall_mem_cons.mp ih
      obtain ⟨k, v⟩ := e
      rw [cleanFields]
      split
      case isTrue hk  => exact hk ▸ .dropEntry (ihs hes)
      case isFalse hk => exact .keepEntry hk hv (ihs hes)

theorem Leaves.eq (h : Leaves t r) : r = clean t := by
  induction h with
  | leaf h => exact (clean_leaf h).symm
  | noItems | noEntries => rfl
  | dropItem hx _ ih => rw [ih, clean, clean, cleanItems, if_pos (aboutList_iff.mp hx)]
  | keepItem hx _ _ ihy ih =>
    rw [clean, Tree.arr.injEq] at ih
    rw [ihy, ih, clean, cleanItems, if_neg (mt aboutList_iff.mpr hx)]
  | dropEntry _ ih => rw [ih, clean, clean, cleanFields, if_pos (show "$meta" = key from rfl)]
  | keepEntry hk _ _ ihw ih =>
    rw [clean, Tree.obj.injEq] at ih
    rw [ihw, ih, clean, cleanFields, if_neg (show _ ≠ key from hk)]

theorem leaves_iff : Leaves t r ↔ r = clean t :=
  ⟨Leaves.eq, fun h => h ▸ leaves_clean t⟩

-- No metadata is left and nothing else is lost, so cleaning changes just the trees that have some.
theorem clean_projects (t : Tree) :
    Spotless (clean t) ∧ (∀ r, Leaves t r ↔ r = clean t) ∧ (clean t = t ↔ Spotless t) ∧
      clean (clean t) = clean t :=
  ⟨bare_iff_spotless.mp (bare_clean t), fun _ => leaves_iff, bare_iff_clean.symm.trans bare_iff_spotless,
    clean_clean⟩

-- What a key leads to is in no list, whatever it looks like, and no item of the box becomes a sentinel.
example :
    clean (.obj [("$meta", .obj [("extensible", .bool true)]),
      ("lock", .obj [("$arrayMeta", .bool true)]),
      ("box", .arr [.str "$__META_EXTENSIBLE__$", .obj [("$arrayMeta", .bool true), ("$meta", .null)],
        .obj [("$meta", .null), ("$arrayMeta", .obj [("$meta", .bool true)])], .str "lid"])]) =
    .obj [("lock", .obj [("$arrayMeta", .bool true)]),
      ("box", .arr [.obj [("$arrayMeta", .obj [])], .str "lid"])] := by
  decide

end Meta

end Storyworld
