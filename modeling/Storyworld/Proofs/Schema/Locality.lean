import Storyworld.Proofs.Insertion.Refresh
import Storyworld.Proofs.Meta.Tidy
import Storyworld.Proofs.Schema.Description

/-!
A change at one place is seen by the schema at this place only. Where reading a tree again finds nothing
new, and a container in it is replaced, reading the whole tree again comes to the same as reading the
container again and leaving all other nodes alone.
-/

namespace Storyworld

namespace Schema

variable {s n element : Schema} {q : Property Schema} {ps : Properties} {traits : Traits} {b : Bool}
  {k : String} {t c x w : Tree} {a : Segment} {p : Path} {fields : Fields} {items : List Tree}

-- Reading the tree again on the basis of its schema finds nothing new.
def Settled (s : Schema) (inherited : Bool) (t : Tree) : Prop :=
  infer (some s) inherited t = s

theorem infer_own_obj (hm : Meta.key ∉ fields.keys) :
    infer (some (object ps traits)) b (.obj fields) =
      object (inferProperties ps [] (mapTraits traits {} b) (traits.recursive || b) fields)
        (mapTraits traits {} b) := by
  have hm := Meta.ofMap_eq_empty (Fields.get?_eq_none_iff.mpr hm)
  rw [infer_obj, readMap_again hm, passedOn_again hm, hm]
  rfl

theorem infer_own_arr (own : ∀ x ∈ items, Meta.isArtifact x = false) :
    infer (some (array element traits)) b (.arr items) =
      array (items.head?.elim element (infer (some element) (traits.recursive || b)))
        (listTraits traits {} false b) := by
  have hr : (listTraits traits {} false b).recursive = (traits.recursive || b) := by simp [listTraits]
  rw [infer_arr, readList_again own, inferElement_eq, hr]
  cases items
  case nil          => rfl
  case cons x items => simp [own x, listBasis]

-- The node of a settled map is open if it has to be, and knows the map's entries.
theorem settled_obj (hm : Meta.key ∉ fields.keys) :
    Settled s b (.obj fields) ↔ ∃ ps traits, s = object ps traits ∧ mapTraits traits {} b = traits ∧
      inferProperties ps [] traits (traits.recursive || b) fields = ps := by
  constructor
  · intro h
    obtain ⟨ps, traits, rfl⟩ : ∃ ps traits, s = object ps traits := ⟨_, _, h.symm.trans infer_obj⟩
    rw [Settled, infer_own_obj hm, object.injEq] at h
    obtain ⟨hp, ht⟩ := h
    rw [ht] at hp
    exact ⟨ps, traits, rfl, ht, hp⟩
  · rintro ⟨ps, traits, rfl, ht, hp⟩
    rw [Settled, infer_own_obj hm, ht, hp]

-- That of a settled list knows the first item.
theorem settled_arr (own : ∀ x ∈ items, Meta.isArtifact x = false) :
    Settled s b (.arr items) ↔ ∃ element traits, s = array element traits ∧
      listTraits traits {} false b = traits ∧
      ∀ x ∈ items.head?, Settled element (traits.recursive || b) x := by
  constructor
  · intro h
    obtain ⟨element, traits, rfl⟩ : ∃ element traits, s = array element traits :=
      ⟨_, _, h.symm.trans infer_arr⟩
    rw [Settled, infer_own_arr own, array.injEq] at h
    obtain ⟨he, ht⟩ := h
    refine ⟨element, traits, rfl, ht, fun x hx => ?_⟩
    simpa [Settled, Option.mem_def.mp hx] using he
  · rintro ⟨element, traits, rfl, ht, he⟩
    rw [Settled, infer_own_arr own, ht, array.injEq]
    refine ⟨?_, rfl⟩
    cases hx : items.head?
    case none   => rfl
    case some x => exact he x hx

theorem find?_of_settled (hp : inferProperties ps [] traits b fields = ps) (hk : k ≠ Meta.key)
    (hc : fields.get? k = some c) : ∃ q, ps.find? k = some q ∧ Settled q.schema b c := by
  have h : ps.find? k = _ := hp ▸ find?_inferProperties
  rw [if_neg hk, hc] at h
  cases hq : ps.find? k <;> rw [hq] at h
  case none   => cases h
  case some q => exact ⟨q, rfl, (congrArg Property.schema <| Option.some.inj h).symm⟩

-- One entry of a settled map replaced: its property is read anew, and the others stay.
theorem inferProperties_put (hp : inferProperties ps [] traits b fields = ps) (hk : k ≠ Meta.key)
    (hq : ps.find? k = some q) :
    inferProperties ps [] traits b (fields.put k x) = ps.replace k (infer (some q.schema) b x) := by
  -- Both lists are sorted, so it is enough that the same is found in them.
  refine sorted_inferProperties.ext (Properties.sorted_replace <| hp ▸ sorted_inferProperties) fun key => ?_
  by_cases hkey : key = k
  case pos =>
    subst hkey
    obtain ⟨flag, hf⟩ := flag_of_mem_inferProperties (hp ▸ Properties.mem_of_find? hq)
    rw [Properties.find?_replace_self hq, find?_inferProperties, if_neg hk, Fields.get?_put_self, hq]
    simp [hf, Properties.key_of_find? hq]
  case neg =>
    rw [Properties.find?_replace_of_ne hkey, ← hp, find?_inferProperties, hp, Fields.get?_put_of_ne hkey,
      ← find?_inferProperties, hp]

-- The node that a step leads to is settled with the child it leads to, on what is handed down to it.
theorem Settled.child? (h : Settled s b t) (ht : Meta.Bare t)
    (first : ∀ items, t = .arr items → a.index? = some 0) (hc : t.child? a = some c) :
    ∃ n, s.child? a = some n ∧ Settled n (s.isRecursive || b) c := by
  obtain ⟨fields, rfl⟩ | ⟨items, i, rfl, -⟩ | hn := t.enters?_cases a
  · obtain ⟨ps, traits, rfl, -, hp⟩ := (settled_obj ht.key_notMem).mp h
    obtain ⟨q, hq, hs⟩ := find?_of_settled hp (ht.child? hc).2 hc
    exact ⟨q.schema, by simp [Schema.child?, hq], hs⟩
  · obtain ⟨element, traits, rfl, hl, he⟩ := (settled_arr ht.own).mp h
    obtain ⟨i, hi, hx⟩ := Tree.child?_arr.mp hc
    obtain rfl : i = 0 := Option.some.inj <| hi.symm.trans (first items rfl)
    exact ⟨element, by simp [Schema.child?, hi], he c (by rwa [List.head?_eq_getElem?])⟩
  · rw [Tree.child?_of_enters?_none hn] at hc
    cases hc

-- A child replaced by one that is no metadata: its node is read anew, and the others stay.
theorem Settled.infer_replaceChild (h : Settled s b t) (ht : Meta.Bare t)
    (first : ∀ items, t = .arr items → a.index? = some 0) (hc : t.child? a = some c)
    (hn : s.child? a = some n) (own : ∀ items, t = .arr items → Meta.isArtifact x = false) :
    infer (some s) b (t.replaceChild a x) = s.replaceChild a (infer (some n) (s.isRecursive || b) x) := by
  obtain ⟨fields, rfl⟩ | ⟨items, i, rfl, -⟩ | he := t.enters?_cases a
  · obtain ⟨ps, traits, rfl, hl, hp⟩ := (settled_obj ht.key_notMem).mp h
    obtain ⟨q, hq, rfl⟩ := Option.map_eq_some_iff.mp hn
    have hk := (ht.child? hc).2
    have hm : Meta.key ∉ Fields.keys (Fields.put a.name x fields) := by
      rw [Fields.put, Fields.keys_alter_of_mem (Fields.mem_keys.mpr ⟨c, hc⟩)]
      exact ht.key_notMem
    rw [Tree.replaceChild, infer_own_obj hm, hl, inferProperties_put hp hk hq]
    rfl
  · obtain ⟨element, traits, rfl, hl, he⟩ := (settled_arr ht.own).mp h
    obtain ⟨i, hi, hx⟩ := Tree.child?_arr.mp hc
    obtain rfl : i = 0 := Option.some.inj <| hi.symm.trans (first items rfl)
    obtain rfl : element = n := by simpa [Schema.child?, hi] using hn
    obtain ⟨y, items, rfl⟩ : ∃ y ys, items = y :: ys := by
      cases items
      case nil       => cases hx
      case cons y ys => exact ⟨y, ys, rfl⟩
    have own' : ∀ y ∈ x :: items, Meta.isArtifact y = false :=
      List.forall_mem_cons.mpr ⟨own _ rfl, fun y hy => ht.own y (List.mem_cons_of_mem _ hy)⟩
    simp only [Tree.replaceChild, hi, List.set_cons_zero]
    rw [infer_own_arr own', hl]
    simp [Schema.replaceChild, hi, isRecursive, traits?]
  · rw [Tree.child?_of_enters?_none he] at hc
    cases hc

-- The one node at the path is changed, with what is handed down to it on the way, and that is all that
-- reading the changed tree would change.
theorem Settled.update? (h : Settled s b t) (ht : Meta.Bare t) (first : t.EntersFirst p)
    (hc : t.get? p = some c) (hw : w.isComposite) (hs : Meta.isSentinel w = false) :
    s.update? p (fun node => infer (some node) (b || s.handsDown p) w) =
      some (infer (some s) b (t.set p w)) := by
  induction p generalizing s b t
  case nil => simp [Schema.update?, handsDown]
  case cons a rest ih =>
    obtain ⟨x, hx, hc⟩ := Tree.get?_cons_eq_some.mp hc
    have hi : ∀ items, t = .arr items → a.index? = some 0 := fun items he =>
      first [] a rest items rfl (by rw [Tree.get?_root, he])
    -- What is written into an item of the list does not make metadata of the item.
    have own : ∀ items, t = .arr items → Meta.isArtifact (x.set rest w) = false := by
      rintro items rfl
      obtain ⟨i, -, hx⟩ := Tree.child?_arr.mp hx
      refine Meta.isArtifact_set (ht.own x <| List.mem_of_getElem? hx) ?_ (Tree.asBool?_of_isComposite hw)
      cases w <;> first | exact hs | cases hw
    obtain ⟨n, hn, hsx⟩ := h.child? ht hi hx
    have hd : (b || s.handsDown (a :: rest)) = (s.isRecursive || b || n.handsDown rest) := by
      simp [handsDown, hn, Bool.or_left_comm, Bool.or_assoc]
    rw [Tree.set_cons_of_child hx, h.infer_replaceChild ht hi hx hn own, hd]
    simp [Schema.update?, hn, ih hsx (ht.child? hx).1 (first.tail hx) hc]

end Schema

namespace State

variable {s : State} {schema : RootSchema} {t c w : Tree} {p : Path}

-- After a container of a bare tree was replaced, the schema that is refreshed there is the one that
-- reading the whole tree anew would give.
theorem refreshSchema_replaced (defaults : Flags) (hschema : s.schema = some schema)
    (hstat : s.stat = t.set p w) (ht : Meta.Bare t) (hs : schema.root.Settled false t)
    (first : t.EntersFirst p) (hc : t.get? p = some c) (hw : w.isComposite)
    (hm : Meta.isSentinel w = false) :
    s.refreshSchema p defaults =
      { s with schema := some { schema with root := .infer (some schema.root) false (t.set p w) } } := by
  have hu := hs.update? ht first hc hw hm
  rw [Bool.false_or] at hu
  simp only [refreshSchema, hschema, hstat, Tree.get?_set_self, hu]

def workshop : Tree :=
  .obj [("open", .bool true), ("shelves", .arr [
    .obj [("label", .str "tools"), ("box", .obj [("nails", .str "many")])], .obj [("label", .str "paint")]])]

def workshopSchema : Schema :=
  .object [⟨"open", some true, .boolean⟩,
    ⟨"shelves", some true, .array
      (.object [⟨"box", some false, .object [⟨"nails", some true, .string⟩] { extensible := true }⟩,
        ⟨"label", some true, .string⟩] { extensible := true })
      { recursive := true }⟩] {}

-- The new box has metadata on two levels, and inherits what the shelves hand down.
def newBox : Tree :=
  .obj [("$meta", .obj [("template", .obj [("rust", .bool false)])]), ("nails", .str "few"),
    ("saws", .obj [("$meta", .obj [("required", .arr [.str "small"])]), ("small", .str "sharp")])]

def refitted : State where
  stat := workshop.set [.key "shelves", .index 0, .key "box"] newBox
  schema := some ⟨workshopSchema, {}⟩

theorem refitted_replaced :
    Meta.Bare workshop ∧ workshopSchema.Settled false workshop ∧
      workshop.EntersFirst [.key "shelves", .index 0, .key "box"] ∧
      workshop.get? [.key "shelves", .index 0, .key "box"] = some (.obj [("nails", .str "many")]) ∧
      newBox.isComposite ∧ Meta.isSentinel newBox = false ∧
      ∃ root, refitted.refreshSchema [.key "shelves", .index 0, .key "box"] {} =
          { refitted with schema := some ⟨root, {}⟩ } ∧
        root = .infer (some workshopSchema) false refitted.stat ∧
        (root.get? [.key "shelves", .index 0, .key "box", .key "saws"]).bind (·.traits?) =
          some { extensible := true } := by
  have hb : Meta.Bare workshop := by decide +kernel
  have hs : workshopSchema.Settled false workshop := rfl
  have hm : Meta.isSentinel newBox = false := by decide
  have first : workshop.EntersFirst [.key "shelves", .index 0, .key "box"] := by
    intro p step rest items hp hi
    obtain _ | ⟨_, _ | ⟨_, _ | ⟨_, p⟩⟩⟩ := p <;> simp at hp
    · obtain ⟨rfl, -⟩ := hp
      cases hi
    · obtain ⟨rfl, rfl, -⟩ := hp
      rfl
    · obtain ⟨rfl, rfl, rfl, -⟩ := hp
      cases hi
  have hr := refreshSchema_replaced (s := refitted) {} rfl rfl hb hs first rfl rfl hm
  exact ⟨hb, hs, first, rfl, rfl, hm, _, hr, rfl, by decide +kernel⟩

end State

end Storyworld
