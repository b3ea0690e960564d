import Storyworld.Proofs.Schema.Description

/-!
A schema read off anew where there has been one already. As far down as the older nodes are of the kinds of
the tree, no permission is taken back, no required flag of a key that is still there is lost, and a template
goes only where the tree's metadata declares another one.
-/

namespace Storyworld

namespace Schema

variable {old : Option Schema} {s node : Schema} {inherited : Bool} {t d c v : Tree} {step : Segment}
  {path rest : Path} {fields : Fields} {items : List Tree} {properties : Properties} {traits : Traits}

-- The one is a map node just where the other is a map, and a list node just where it is a list.
structure Parallels (node? : Option Schema) (v? : Option Tree) : Prop where
  map  : (∃ fields, v? = some (.obj fields)) ↔ ∃ properties traits, node? = some (object properties traits)
  list : (∃ items, v? = some (.arr items)) ↔ ∃ element traits, node? = some (array element traits)

-- So it is at the path, and at all places on the way there.
def Follows (old : Option Schema) (t : Tree) (path : Path) : Prop :=
  ∀ q, q <+: path → Parallels (old.bind (·.get? q)) (t.get? q)

theorem parallels_map : Parallels (some (object properties traits)) (some (.obj fields)) :=
  ⟨iff_of_true ⟨_, rfl⟩ ⟨_, _, rfl⟩, by simp⟩

theorem parallels_list : Parallels (some (array node traits)) (some (.arr items)) :=
  ⟨by simp, iff_of_true ⟨_, rfl⟩ ⟨_, _, rfl⟩⟩

theorem Follows.root (h : Follows old t path) : Parallels old (some t) := by
  have := h [] (List.nil_prefix)
  cases old <;> simpa [get?] using this

theorem Follows.tail (h : Follows old t (step :: path)) (hc : t.child? step = some c) :
    Follows (old.bind (·.child? step)) c path := by
  intro q hq
  have := h (step :: q) (List.cons_prefix_cons.mpr ⟨rfl, hq⟩)
  cases old <;> simpa [get?, hc] using this

theorem childBasis_of_parallels (h : Parallels old (some (Meta.clean t)))
    (hc : (Meta.clean t).child? step = some c)
    (hs : ∀ items, Meta.clean t = .arr items → step.index? = some 0) :
    childBasis old t step = old.bind (·.child? step) := by
  cases t <;> simp only [Meta.clean] at h hc hs <;> try cases hc
  case arr items =>
    obtain ⟨element, traits, rfl⟩ := h.list.mp ⟨_, rfl⟩
    simp [childBasis, listBasis, child?, hs _ rfl]
  case obj fields =>
    obtain ⟨properties, traits, rfl⟩ := h.map.mp ⟨_, rfl⟩
    rfl

-- The new node at a path is read off what stood there, on the basis of the old node there.
theorem get?_infer (inherited : Bool) (hf : Follows old (Meta.clean t) path) (he : (Meta.clean t).EntersFirst path)
    (hv : (Meta.clean t).get? path = some v) :
    ∃ inherited' x, Meta.origin? t path = some x ∧ v = Meta.clean x ∧
      (infer old inherited t).get? path = some (infer (old.bind (·.get? path)) inherited' x) := by
  induction path generalizing old inherited t
  case nil =>
    obtain rfl := Tree.eq_of_get?_root hv
    refine ⟨inherited, t, rfl, rfl, ?_⟩
    cases old <;> simp [get?]
  case cons step rest ih =>
    obtain ⟨c, hc, hv⟩ := Option.bind_eq_some_iff.mp <| Tree.get?_cons.symm.trans hv
    have hs items (hi : Meta.clean t = .arr items) :=
      he [] step rest items rfl (hi ▸ Tree.get?_root)
    obtain ⟨inherited', x, hx, rfl, hn⟩ := child?_infer old inherited hc hs
    rw [childBasis_of_parallels hf.root hc hs] at hn
    obtain ⟨inherited'', y, hy, hv, hn'⟩ := @ih (old.bind (·.child? step)) x inherited' (hf.tail hc) (he.tail hc) hv
    refine ⟨inherited'', y, by simp [Meta.origin?, hx, hy], hv, ?_⟩
    rw [get?, hn]
    refine hn'.trans ?_
    cases old <;> simp [get?]

-- Permissions stay, and a template stays unless another one is declared.
structure Continues (declared : Meta.Declaration) (old new : Traits) : Prop where
  extensible : old.extensible → new.extensible
  recursive  : old.recursive → new.recursive
  template   : new.template = declared.template.or old.template

-- What becomes of an old node where `x` stands, metadata and all.
inductive Renews (x : Tree) : Schema → Schema → Prop where
  | object {fields : Fields} {before after : Properties} {old new : Traits} (hx : x = .obj fields)
    (ht : Continues (Meta.ofMap fields) old new)
    (hr : ∀ k p flag, k ∈ Fields.keys (Meta.cleanFields fields) → before.find? k = some p →
      p.required = some flag → ∃ p', after.find? k = some p' ∧ p'.required = some flag) :
    Renews x (object before old) (object after new)
  | array {items : List Tree} {before after : Schema} {old new : Traits} (hx : x = .arr items)
    (ht : Continues (Meta.ofList items) old new) : Renews x (array before old) (array after new)

theorem continues_mapTraits {declared : Meta.Declaration} :
    Continues declared traits (mapTraits traits declared inherited) := by
  constructor <;> simp +contextual [mapTraits]

theorem continues_listTraits {declared : Meta.Declaration} {marked : Bool} :
    Continues declared traits (listTraits traits declared marked inherited) := by
  constructor <;> simp +contextual [listTraits]

-- A flag that is there goes before all declarations.
theorem required_inferProperties {before : Properties} {required : List String} {k : String}
    {p : Property Schema} {flag : Bool} (hk : k ∈ Fields.keys (Meta.cleanFields fields))
    (hp : before.find? k = some p) (hr : p.required = some flag) :
    ∃ p', (inferProperties before required traits inherited fields).find? k = some p' ∧
      p'.required = some flag := by
  obtain ⟨v, hv⟩ := Fields.mem_keys.mp hk
  rw [Meta.get?_cleanFields] at hv
  split at hv
  case isTrue  => cases hv
  case isFalse hn =>
    obtain ⟨w, hw, -⟩ := Option.map_eq_some_iff.mp hv
    exact ⟨_, by rw [find?_inferProperties, if_neg hn, hw]; rfl, by simp [hp, hr]⟩

theorem renews_infer (h : Parallels (some node) (some (Meta.clean t))) (hc : t.isComposite) :
    Renews t node (infer (some node) inherited t) := by
  cases t <;> simp only [Tree.isComposite, Bool.false_eq_true] at hc <;> simp only [Meta.clean] at h
  case arr items =>
    obtain ⟨element, traits, ⟨⟩⟩ := h.list.mp ⟨_, rfl⟩
    rw [infer_arr]
    exact .array rfl continues_listTraits
  case obj fields =>
    obtain ⟨properties, traits, ⟨⟩⟩ := h.map.mp ⟨_, rfl⟩
    rw [infer_obj]
    exact .object rfl continues_mapTraits fun k p flag => required_inferProperties

theorem Parallels.exists_node {v : Tree} (h : Parallels old (some v)) (hc : v.isComposite) :
    ∃ node, old = some node := by
  cases v <;> simp only [Tree.isComposite, Bool.false_eq_true] at hc
  case arr items =>
    obtain ⟨element, traits, ho⟩ := h.list.mp ⟨items, rfl⟩
    exact ⟨_, ho⟩
  case obj fields =>
    obtain ⟨properties, traits, ho⟩ := h.map.mp ⟨fields, rfl⟩
    exact ⟨_, ho⟩

-- At every container up to which the older schema follows the tree, its node is renewed. Of the sentinels
-- of a list only the last one that carries a map is heard.
theorem infer_renews (inherited : Bool) (hf : Follows (some s) (Meta.clean d) path)
    (he : (Meta.clean d).EntersFirst path) (hv : (Meta.clean d).get? path = some v)
    (hc : v.isComposite) :
    ∃ x node node', Meta.origin? d path = some x ∧ v = Meta.clean x ∧ s.get? path = some node ∧
      (infer (some s) inherited d).get? path = some node' ∧ Renews x node node' := by
  obtain ⟨inherited', x, hx, rfl, hn⟩ := get?_infer inherited hf he hv
  have hp := hf path (List.prefix_refl path)
  rw [hv] at hp
  obtain ⟨node, ho⟩ := hp.exists_node hc
  rw [ho] at hp hn
  have hx' : x.isComposite := by
    cases x <;> first | rfl | cases hc
  exact ⟨x, node, _, hx, rfl, ho, hn, renews_infer hp hx'⟩

-- The rope lies behind the marker, and its map is about to be read off anew.
def satchel : Tree :=
  .obj [("satchel", .arr [.str Meta.marker, .obj [("$meta", .obj [("template", .obj [("worn", .bool false)])]),
    ("kind", .str "rope"), ("length", .str "ten")]])]

def satchelBefore : Schema :=
  object [⟨"satchel", some true, array (object [⟨"kind", some false, string⟩, ⟨"owner", some true, string⟩]
    { extensible := true, template := some (.obj [("kind", .str "hemp")]) }) { recursive := true }⟩] {}

-- The kind of the rope is still optional, its map still open, and only the template is another one.
theorem satchel_renews :
    Follows (some satchelBefore) (Meta.clean satchel) [.key "satchel", .index 0] ∧
      (Meta.clean satchel).get? [.key "satchel", .index 0] =
        some (.obj [("kind", .str "rope"), ("length", .str "ten")]) ∧
      ∃ properties traits, (infer (some satchelBefore) false satchel).get? [.key "satchel", .index 0] =
        some (object properties traits) ∧ traits.extensible ∧
        traits.template = some (.obj [("worn", .bool false)]) ∧
        ∃ p, Properties.find? "kind" properties = some p ∧ p.required = some false := by
  have hf : Follows (some satchelBefore) (Meta.clean satchel) [.key "satchel", .index 0] := by
    intro q hq
    obtain rfl | ⟨q₁, rfl, hq₁⟩ := List.prefix_cons_iff.mp hq
    · exact parallels_map
    obtain rfl | ⟨q₂, rfl, hq₂⟩ := List.prefix_cons_iff.mp hq₁
    · exact parallels_list
    obtain rfl := List.prefix_nil.mp hq₂
    exact parallels_map
  have he : (Meta.clean satchel).EntersFirst [.key "satchel", .index 0] := by
    intro p step rest items hp hi
    obtain _ | ⟨_, _ | ⟨_, p⟩⟩ := p <;> simp at hp
    · obtain ⟨rfl, -⟩ := hp
      cases hi
    · obtain ⟨rfl, rfl, -⟩ := hp
      rfl
  have hv : (Meta.clean satchel).get? [.key "satchel", .index 0] =
      some (.obj [("kind", .str "rope"), ("length", .str "ten")]) := rfl
  refine ⟨hf, hv, ?_⟩
  obtain ⟨x, node, node', hx, -, hn, hn', hr⟩ := infer_renews false hf he hv rfl
  cases hx
  cases hn
  cases hr with
  | object hx ht hr =>
    cases hx
    exact ⟨_, _, hn', ht.extensible rfl, ht.template, hr "kind" _ false (by decide) rfl rfl⟩

def crateItems : List Tree :=
  [.obj [("$arrayMeta", .bool true), ("$meta", .obj [("template", .obj [("worn", .bool false)])])],
    .obj [("$arrayMeta", .bool true), ("$meta", .obj [("extensible", .bool true)])], .str "rope"]

-- The first sentinel declares a template, which is lost to the second one.
theorem crate_forgets :
    Follows (some (array string {})) (Meta.clean (.arr crateItems)) [] ∧
      (∃ x ∈ crateItems, Meta.isSentinel x ∧
        ∃ template, (x.field? Meta.key).bind (·.field? "template") = some template) ∧
      ∃ element traits, (infer (some (array string {})) false (.arr crateItems)).get? [] =
        some (array element traits) ∧ traits.template = none := by
  refine ⟨fun q hq => ?_, ⟨_, List.mem_cons_self, by decide, _, rfl⟩, _, _, rfl, by decide⟩
  obtain rfl := List.prefix_nil.mp hq
  exact parallels_list

end Schema

end Storyworld
