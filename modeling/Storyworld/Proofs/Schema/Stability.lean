import Storyworld.Proofs.Meta.Clean
import Storyworld.Proofs.Schema.Properties
import Storyworld.Schema.Infer

/-!
A schema read off a tree and read again once the tree's metadata is gone. What the metadata granted is
kept in the nodes, and the second reading finds nothing new. What it denied is not: below a map that
has stopped the cascade, the second reading hands down what the first did not.
-/

namespace Storyworld

namespace Meta

variable {fields : Fields} {items : List Tree}

theorem find?_cleanItems :
    (cleanItems items).find? (!isArtifact ·) = (items.find? (!isArtifact ·)).map clean := by
  induction items
  case nil          => rfl
  case cons x xs ih => cases hx : isArtifact x <;> simp [cleanItems, hx, ih]

theorem ofMap_eq_empty (h : fields.get? key = none) : ofMap fields = {} := by
  simp [ofMap, h]

-- A list whose items are all its own says nothing about itself.
theorem any_isMarker_eq_false (own : ∀ x ∈ items, isArtifact x = false) : items.any isMarker = false := by
  rw [List.any_eq_false]
  intro t ht
  have := own t ht
  simp_all [isArtifact]

theorem ofList_eq_empty (own : ∀ x ∈ items, isArtifact x = false) : ofList items = {} := by
  have : items.filter isSentinel = [] := by
    rw [List.filter_eq_nil_iff]
    intro t ht
    have := own t ht
    simp_all [isArtifact]
  simp [ofList, this]

theorem ofMap_cleanFields : ofMap (cleanFields fields) = {} :=
  ofMap_eq_empty (by rw [get?_cleanFields, if_pos rfl])

end Meta

namespace Schema

variable {old : Option Schema} {before : Properties} {required : List String} {traits : Traits}
  {a b inherited : Bool} {k : String} {t v x : Tree} {fields : Fields} {items : List Tree}

/-! ## A reading, node by node -/

-- The node that an older map node knows under a key.
def propertyBasis (old : Option Schema) (k : String) : Option Schema :=
  ((mapBasis old).1.find? k).map (·.schema)

def readMap (old : Option Schema) (inherited : Bool) (fields : Fields) : Traits :=
  mapTraits (mapBasis old).2 (Meta.ofMap fields) inherited

def readList (old : Option Schema) (inherited : Bool) (items : List Tree) : Traits :=
  listTraits (listBasis old).2 (Meta.ofList items) (items.any Meta.isMarker) inherited

-- What the entries of a map inherit.
def passedOn (old : Option Schema) (inherited : Bool) (fields : Fields) : Bool :=
  handedDown (readMap old inherited fields) (Meta.ofMap fields) inherited

theorem infer_obj :
    infer old inherited (.obj fields) =
      object (inferProperties (mapBasis old).1 (Meta.ofMap fields).required
        (readMap old inherited fields) (passedOn old inherited fields) fields)
        (readMap old inherited fields) := by
  rw [infer]
  rfl

theorem infer_arr :
    infer old inherited (.arr items) =
      array (inferElement (listBasis old).1 (readList old inherited items).recursive items)
        (readList old inherited items) := by
  rw [infer]
  rfl

theorem inferElement_eq :
    inferElement old inherited items =
      match items.find? (!Meta.isArtifact ·) with
      | some x => infer old inherited x
      | none => old.getD any := by
  induction items
  case nil          => simp [inferElement]
  case cons x xs ih => cases hx : Meta.isArtifact x <;> simp [inferElement, hx, ih]

theorem sorted_inferProperties :
    (inferProperties before required traits inherited fields).Sorted := by
  induction fields
  case nil => exact .nil
  case cons e fields ih =>
    rw [inferProperties]
    split
    case isTrue  => exact ih
    case isFalse => exact Properties.sorted_insert ih

-- Of an entry that is no metadata comes the property of its key.
theorem find?_inferProperties :
    (inferProperties before required traits inherited fields).find? k =
      if k = Meta.key then none
      else (fields.get? k).map fun v =>
        ⟨k, some <| ((before.find? k).bind (·.required)).getD (required.contains k || !traits.extensible),
          infer ((before.find? k).map (·.schema)) inherited v⟩ := by
  induction fields
  case nil => simp [inferProperties, Properties.find?]
  case cons e fields ih =>
    rw [inferProperties]
    split
    case isTrue h  => grind [Fields.get?]
    case isFalse h =>
      rw [Properties.find?_insert, ih]
      grind [Fields.get?]

/-! ## The second reading -/

-- Where the second reading, which inherits `b`, opens what the first one, which inherited `a`, has
-- left closed. Both inherit the same until a map has stopped the cascade.
inductive Reopens : Option Schema → (a b : Bool) → Tree → Prop where
  | map {old : Option Schema} {a : Bool} {fields : Fields}
    (h : (readMap old a fields).extensible = false) : Reopens old a true (.obj fields)
  | entry {old : Option Schema} {a b : Bool} {fields : Fields} {k : String} {v : Tree}
    (hk : k ≠ Meta.key) (hv : fields.get? k = some v)
    (h : Reopens (propertyBasis old k) (passedOn old a fields)
      ((readMap old a fields).recursive || b) v) : Reopens old a b (.obj fields)
  | list {old : Option Schema} {a : Bool} {items : List Tree}
    (h : (readList old a items).extensible = false ∨ (readList old a items).recursive = false) :
    Reopens old a true (.arr items)
  | item {old : Option Schema} {a b : Bool} {items : List Tree} {x : Tree}
    (hx : items.find? (!Meta.isArtifact ·) = some x)
    (h : Reopens (listBasis old).1 (readList old a items).recursive
      (readList old a items).recursive x) : Reopens old a b (.arr items)

theorem mapTraits_none :
    mapTraits traits {} b = traits ↔ (b = true → traits.extensible = true) := by
  obtain ⟨extensible, recursive, template⟩ := traits
  cases extensible <;> cases b <;> simp [mapTraits]

theorem listTraits_none :
    listTraits traits {} false b = traits ↔
      (b = true → traits.extensible = true ∧ traits.recursive = true) := by
  obtain ⟨extensible, recursive, template⟩ := traits
  cases extensible <;> cases recursive <;> cases b <;> simp [listTraits]

-- The properties come back if each entry's schema does.
theorem inferProperties_again :
    inferProperties (inferProperties before required traits a fields) [] traits b
        (Meta.cleanFields fields) = inferProperties before required traits a fields ↔
      ∀ k v, k ≠ Meta.key → Fields.get? k fields = some v →
        infer (some (infer ((before.find? k).map (·.schema)) a v)) b (Meta.clean v) =
          infer ((before.find? k).map (·.schema)) a v := by
  have hf (k : String) :
      (inferProperties (inferProperties before required traits a fields) [] traits b
        (Meta.cleanFields fields)).find? k =
      (inferProperties before required traits a fields).find? k ↔
      ∀ v, k ≠ Meta.key → Fields.get? k fields = some v →
        infer (some (infer ((before.find? k).map (·.schema)) a v)) b (Meta.clean v) =
          infer ((before.find? k).map (·.schema)) a v := by
    rw [find?_inferProperties, find?_inferProperties, Meta.get?_cleanFields]
    by_cases hk : k = Meta.key
    case pos => simp [hk]
    case neg => cases hv : Fields.get? k fields <;> simp [hk]
  constructor
  · intro h k v hk hv
    exact (hf k).mp (congrArg (Properties.find? k) h) v hk hv
  · -- Both lists are sorted, so it is enough that the same is found in them.
    intro h
    exact sorted_inferProperties.ext sorted_inferProperties fun k => (hf k).mpr (h k)

theorem reopens_obj :
    Reopens old a b (.obj fields) ↔
      b = true ∧ (readMap old a fields).extensible = false ∨
        ∃ k v, k ≠ Meta.key ∧ fields.get? k = some v ∧ Reopens (propertyBasis old k)
          (passedOn old a fields) ((readMap old a fields).recursive || b) v := by
  constructor
  · intro h
    cases h
    case map h         => exact .inl ⟨rfl, h⟩
    case entry hk hv h => exact .inr ⟨_, _, hk, hv, h⟩
  · rintro (⟨rfl, h⟩ | ⟨k, v, hk, hv, h⟩)
    · exact .map h
    · exact .entry hk hv h

theorem reopens_arr :
    Reopens old a b (.arr items) ↔
      b = true ∧ ((readList old a items).extensible = false ∨
        (readList old a items).recursive = false) ∨
      ∃ x, items.find? (!Meta.isArtifact ·) = some x ∧ Reopens (listBasis old).1
        (readList old a items).recursive (readList old a items).recursive x := by
  constructor
  · intro h
    cases h
    case list h    => exact .inl ⟨rfl, h⟩
    case item hx h => exact .inr ⟨_, hx, h⟩
  · rintro (⟨rfl, h⟩ | ⟨x, hx, h⟩)
    · exact .list h
    · exact .item hx h

theorem readMap_again (hm : Meta.ofMap fields = {}) :
    readMap (some (object before traits)) b fields = mapTraits traits {} b := by
  simp [readMap, mapBasis, hm]

theorem passedOn_again (hm : Meta.ofMap fields = {}) :
    passedOn (some (object before traits)) b fields = (traits.recursive || b) := by
  simp [passedOn, readMap_again hm, hm, handedDown, mapTraits]

theorem readList_again {element : Schema} (own : ∀ x ∈ items, Meta.isArtifact x = false) :
    readList (some (array element traits)) b items = listTraits traits {} false b := by
  simp [readList, listBasis, Meta.ofList_eq_empty own, Meta.any_isMarker_eq_false own]

-- A map node comes back if nothing opens it and the schemas of its entries come back.
theorem infer_again_obj :
    infer (some (infer old a (.obj fields))) b (Meta.clean (.obj fields)) = infer old a (.obj fields) ↔
      (b = true → (readMap old a fields).extensible = true) ∧
        ∀ k v, k ≠ Meta.key → fields.get? k = some v →
          infer (some (infer (propertyBasis old k) (passedOn old a fields) v))
            ((readMap old a fields).recursive || b) (Meta.clean v) =
              infer (propertyBasis old k) (passedOn old a fields) v := by
  rw [Meta.clean, infer_obj, infer_obj, object.injEq, readMap_again Meta.ofMap_cleanFields,
    passedOn_again Meta.ofMap_cleanFields, Meta.ofMap_cleanFields, mapTraits_none, and_comm]
  refine and_congr_right fun hb => ?_
  rw [mapTraits_none.mpr hb]
  exact inferProperties_again

-- So does a list node with the schema of its first item.
theorem infer_again_arr :
    infer (some (infer old a (.arr items))) b (Meta.clean (.arr items)) = infer old a (.arr items) ↔
      (b = true → (readList old a items).extensible = true ∧
        (readList old a items).recursive = true) ∧
        ∀ x, items.find? (!Meta.isArtifact ·) = some x →
          infer (some (infer (listBasis old).1 (readList old a items).recursive x))
            (readList old a items).recursive (Meta.clean x) =
              infer (listBasis old).1 (readList old a items).recursive x := by
  rw [Meta.clean, infer_arr, infer_arr, array.injEq,
    readList_again fun _ => Meta.isArtifact_of_mem_cleanItems, listTraits_none, and_comm]
  refine and_congr_right fun hb => ?_
  rw [listTraits_none.mpr hb, inferElement_eq, inferElement_eq, Meta.find?_cleanItems]
  cases hx : items.find? (!Meta.isArtifact ·) <;> simp [listBasis]

theorem infer_again_iff :
    infer (some (infer old a t)) b (Meta.clean t) = infer old a t ↔ ¬Reopens old a b t := by
  -- Below a node the two readings may inherit differently, so both flags vary with the tree.
  induction t using Tree.inductionOn generalizing old a b
  case leaf t h =>
    have hn : ¬Reopens old a b t := by
      rintro ⟨⟩ <;> cases h
    rw [Meta.clean_leaf h, iff_true_right hn]
    cases t <;> simp_all [infer, Tree.isComposite]
  case arr items ih =>
    rw [infer_again_arr, reopens_arr]
    cases hx : items.find? (!Meta.isArtifact ·)
    case none   => grind
    case some x =>
      have hi := @ih x (List.mem_of_find?_eq_some hx) (listBasis old).1
        (readList old a items).recursive (readList old a items).recursive
      grind
  case obj fields ih =>
    rw [infer_again_obj, reopens_obj]
    have hi (k v) (hv : Fields.get? k fields = some v) :=
      @ih (k, v) (Fields.mem_of_get? hv) (propertyBasis old k) (passedOn old a fields)
        ((readMap old a fields).recursive || b)
    grind

-- The schema of a tree is stable exactly if no stopped cascade would have opened anything.
theorem infer_clean_iff {d : Tree} :
    infer (some (infer old b d)) b (Meta.clean d) = infer old b d ↔ ¬Reopens old b b d :=
  infer_again_iff

-- Somewhere in the tree a map declares itself closed.
inductive Stops : Tree → Prop where
  | here {fields : Fields} (h : (Meta.ofMap fields).extensible = some false) : Stops (.obj fields)
  | entry {fields : Fields} {k : String} {v : Tree} (hk : k ≠ Meta.key)
    (hv : Fields.get? k fields = some v) (h : Stops v) : Stops (.obj fields)
  | item {items : List Tree} {x : Tree} (hx : items.find? (!Meta.isArtifact ·) = some x)
    (h : Stops x) : Stops (.arr items)

-- What is inherited opens every container, and lists pass it on, so only a declaration can make the
-- two readings differ.
theorem Reopens.stops (h : Reopens old a b t) (hab : a = b) : Stops t := by
  induction h
  case map h =>
    subst hab
    simp [readMap, mapTraits] at h
  case list h =>
    subst hab
    simp [readList, listTraits] at h
  case item hx h ih => exact .item hx (ih rfl)
  case entry old a b fields k v hk hv h ih =>
    by_cases hd : (Meta.ofMap fields).extensible = some false
    case pos => exact .here hd
    case neg => exact .entry hk hv <| ih <| by simp [passedOn, handedDown, hd, hab]

theorem infer_clean_of_not_stops (h : ¬Stops t) :
    infer (some (infer old b t)) b (Meta.clean t) = infer old b t :=
  infer_again_iff.mpr fun hr => h (hr.stops rfl)

def lockedRoom : Tree :=
  .obj [("$meta", .obj [("recursiveExtensible", .bool true)]),
    ("locked", .obj [("$meta", .obj [("extensible", .bool false)]),
      ("inner", .obj [("x", .str "chest")])])]

-- The room is closed as long as it says so, and what is in it is open from the second reading on.
theorem lockedRoom_opens :
    infer (some (infer none false lockedRoom)) false (Meta.clean lockedRoom) ≠
      infer none false lockedRoom := by
  intro h
  have := congrArg (fun s : Schema => (s.get? [.key "locked", .key "inner"]).bind (·.traits?)) h
  exact absurd this (by decide +kernel)

end Schema

end Storyworld
