import Storyworld.Proofs.Schema.Proper
import Storyworld.Schema.Json

/-!
Schemas and states written as documents and read again. All comes back but for a template that is null:
a node that has none is read.
-/

namespace Storyworld

def Traits.recorded (traits : Traits) : Traits :=
  { traits with template := traits.template.filter (· ≠ .null) }

theorem Traits.recorded_eq_self_iff {traits : Traits} :
    traits.recorded = traits ↔ traits.template ≠ some .null := by
  obtain ⟨extensible, recursive, template⟩ := traits
  simp only [recorded, mk.injEq, true_and]
  cases template <;> simp [Option.filter_some]

namespace Schema

variable {s element : Schema} {properties : Properties} {p : Property Schema} {traits : Traits}
  {fields : Fields} {required : Option Bool} {inside : Bool}

@[elab_as_elim]
theorem inductionOn {motive : Schema → Prop} (s : Schema)
    (object : ∀ properties traits, (∀ p ∈ properties, motive p.schema) → motive (.object properties traits))
    (array : ∀ element traits, motive element → motive (.array element traits))
    (string : motive .string) (number : motive .number) (boolean : motive .boolean)
    (any : motive .any) : motive s :=
  match s with
  | .object properties traits =>
    object properties traits fun p _ => p.schema.inductionOn object array string number boolean any
  | .array element traits =>
    array element traits (element.inductionOn object array string number boolean any)
  | .string  => string
  | .number  => number
  | .boolean => boolean
  | .any     => any
termination_by sizeOf s
decreasing_by
  · have := List.sizeOf_lt_of_mem ‹_ ∈ _›
    have : sizeOf p = 1 + sizeOf p.key + sizeOf p.required + sizeOf p.schema := rfl
    simp only [Schema.object.sizeOf_spec]
    omega
  · simp only [Schema.array.sizeOf_spec]
    omega

/-! ## What is kept -/

mutual

-- A schema without the templates that are null.
def recorded : Schema → Schema
  | object properties traits => object (recordedProperties properties) traits.recorded
  | array element traits => array (recorded element) traits.recorded
  | string => string
  | number => number
  | boolean => boolean
  | any => any

def recordedProperties : List (Property Schema) → Properties
  | [] => []
  | ⟨key, required, schema⟩ :: rest => ⟨key, required, recorded schema⟩ :: recordedProperties rest

end

theorem recordedProperties_eq :
    recordedProperties properties = properties.map fun p => { p with schema := p.schema.recorded } := by
  induction properties
  case nil                  => rfl
  case cons p properties ih => rw [recordedProperties, ih, List.map_cons]

-- Somewhere in the schema a template is null.
inductive HoldsNull : Schema → Prop where
  | object {properties : Properties} {traits : Traits} (h : traits.template = some .null) :
    HoldsNull (object properties traits)
  | array {element : Schema} {traits : Traits} (h : traits.template = some .null) :
    HoldsNull (array element traits)
  | property {properties : Properties} {traits : Traits} {p : Property Schema} (hp : p ∈ properties)
    (h : HoldsNull p.schema) : HoldsNull (object properties traits)
  | element {element : Schema} {traits : Traits} (h : HoldsNull element) :
    HoldsNull (array element traits)

theorem recordedProperties_eq_self_iff :
    recordedProperties properties = properties ↔ ∀ p ∈ properties, p.schema.recorded = p.schema := by
  rw [recordedProperties_eq]
  induction properties
  case nil                  => simp
  case cons p properties ih =>
    rw [List.map_cons, List.cons.injEq, ih, List.forall_mem_cons]
    obtain ⟨key, required, schema⟩ := p
    simp

theorem holdsNull_object :
    (object properties traits).HoldsNull ↔
      traits.template = some .null ∨ ∃ p ∈ properties, p.schema.HoldsNull := by
  constructor
  · intro h
    cases h with
    | object h      => exact .inl h
    | property hp h => exact .inr ⟨_, hp, h⟩
  · rintro (h | ⟨p, hp, h⟩)
    · exact .object h
    · exact .property hp h

theorem holdsNull_array :
    (array element traits).HoldsNull ↔ traits.template = some .null ∨ element.HoldsNull := by
  constructor
  · intro h
    cases h with
    | array h   => exact .inl h
    | element h => exact .inr h
  · rintro (h | h)
    · exact .array h
    · exact .element h

theorem recorded_eq_self_iff : s.recorded = s ↔ ¬s.HoldsNull := by
  induction s using inductionOn
  case object properties traits ih =>
    rw [recorded, object.injEq, recordedProperties_eq_self_iff, Traits.recorded_eq_self_iff,
      holdsNull_object]
    grind
  case array element traits ih =>
    rw [recorded, array.injEq, ih, Traits.recorded_eq_self_iff, holdsNull_array]
    grind
  all_goals exact iff_of_true rfl (by rintro ⟨⟩)

/-! ## Reading what is written -/

theorem readParts_eq :
    readParts fields =
      { fields
        properties := (fields.get? "properties").bind ofProperties?
        element := (fields.get? "elementType").bind (ofTree? true) } := by
  induction fields
  case nil => rfl
  case cons e fields ih =>
    rw [readParts, ih]
    rw [Parts.mk.injEq]
    refine ⟨rfl, ?_, ?_⟩
    all_goals
      simp only [Fields.get?]
      split <;> rfl

-- The entries of a node that stands under a key, with the flag of the key behind them.
def withRequired (fields : Fields) (required : Option Bool) : Fields :=
  fields ++ (required.map fun b => ("required", Tree.bool b)).toList

theorem keys_toFields : s.toFields.keys.Nodup ∧ "required" ∉ s.toFields.keys := by
  cases s
  case object properties traits | array element traits =>
    cases ht : traits.template <;> simp [toFields, writeTraits, ht, Fields.keys]
  all_goals simp [toFields, Fields.keys]

theorem nodup_keys_withRequired : (withRequired s.toFields required).keys.Nodup := by
  obtain ⟨hn, hr⟩ := s.keys_toFields
  rw [withRequired, Fields.keys, List.map_append, ← Fields.keys]
  cases required
  case none   => simpa using hn
  case some b => exact List.nodup_append.mpr ⟨hn, by simp, by grind⟩

theorem get?_withRequired {key : String} (hk : key ≠ "required") :
    (withRequired fields required).get? key = fields.get? key := by
  induction fields
  case nil => cases required <;> simp [withRequired, Fields.get?, Ne.symm hk]
  case cons e fields ih =>
    simp only [withRequired, List.cons_append, Fields.get?] at ih ⊢
    rw [ih]

theorem get?_required (h : "required" ∉ fields.keys) :
    (withRequired fields required).get? "required" = required.map .bool := by
  induction fields
  case nil => cases required <;> rfl
  case cons e fields ih =>
    obtain ⟨hk, hf⟩ := Fields.notMem_keys_cons.mp h
    exact (if_neg (Ne.symm hk)).trans (ih hf)

theorem filter_key_of_nodup {key : String} (h : fields.keys.Nodup) :
    fields.filter (·.1 = key) = ((fields.get? key).map (key, ·)).toList := by
  induction fields
  case nil => rfl
  case cons e fields ih =>
    obtain ⟨hk, hf⟩ := List.nodup_cons.mp h
    by_cases he : e.1 = key
    case pos =>
      subst he
      have hn : fields.filter (·.1 = e.1) = [] := by
        rw [ih hf, Fields.get?_eq_none_iff.mpr hk]
        rfl
      simp [Fields.get?, hn]
    case neg => simp [Fields.get?, he, ih hf]

theorem once?_readParts (h : fields.keys.Nodup) (key : String) :
    (readParts fields).once? key = some (fields.get? key) := by
  rw [Parts.once?, readParts_eq, filter_key_of_nodup h]
  cases fields.get? key <;> rfl

theorem once?_withRequired (s : Schema) (required : Option Bool) (key : String) (hk : key ≠ "required") :
    (readParts (withRequired s.toFields required)).once? key = some (s.toFields.get? key) := by
  rw [once?_readParts nodup_keys_withRequired, get?_withRequired hk]

theorem required?_readParts : (readParts (withRequired s.toFields required)).required? = some required := by
  rw [Parts.required?, once?_readParts nodup_keys_withRequired, get?_required s.keys_toFields.2]
  cases required <;> rfl

theorem distinct_template (h : s.Proper) :
    (s.template?.filter (· ≠ .null)).map Tree.distinct = s.template?.filter (· ≠ .null) := by
  cases ht : s.template?
  case none   => rfl
  case some t => by_cases hn : t = .null <;> simp [Option.filter_some, hn, (h.template ht).distinct]

theorem traits?_readParts (h : s.Proper) (hs : s.traits? = some traits) (required : Option Bool) :
    (readParts (withRequired s.toFields required)).traits? = some traits.recorded := by
  have he : s.toFields.get? "extensible" = some (.bool traits.extensible) := by
    cases s <;> cases hs <;> rfl
  have hr : s.toFields.get? "recursiveExtensible" = some (.bool traits.recursive) := by
    cases s <;> cases hs <;> rfl
  have ht : s.toFields.get? "template" = s.template? := by
    cases s <;> cases hs
    all_goals cases h : traits.template <;> simp [toFields, writeTraits, h, Fields.get?, template?, traits?]
  have hk : s.template? = traits.template := by
    rw [template?, hs]
    rfl
  rw [Parts.traits?, Parts.flag?, Parts.flag?, once?_withRequired _ _ "template" (by decide),
    once?_withRequired _ _ "extensible" (by decide),
    once?_withRequired _ _ "recursiveExtensible" (by decide), he, hr, ht]
  simp only [Option.bind_eq_bind, Option.bind_some]
  exact congrArg (fun template => some (Traits.mk _ _ template)) (hk ▸ distinct_template h)

theorem insert_of_head_lt (h : ∀ q ∈ properties, p.key < q.key) :
    Properties.insert p properties = p :: properties := by
  cases properties
  case nil => rfl
  case cons q properties =>
    have hq : p.key < q.key := h q List.mem_cons_self
    have hn : p.key ≠ q.key := fun he => String.lt_irrefl _ (he ▸ hq)
    simp [Properties.insert, hn, hq]

-- Each property is put before those that have been read, and as they are in order it stays first.
theorem readProperties?_propertyFields (hs : properties.Sorted)
    (ih : ∀ p ∈ properties, ∀ inside required,
      (readParts (withRequired p.schema.toFields required)).toSchema? inside = some p.schema.recorded) :
    readProperties? (propertyFields properties) = some (recordedProperties properties) := by
  induction properties
  case nil => rfl
  case cons p properties ihp =>
    obtain ⟨key, required, schema⟩ := p
    obtain ⟨hp, hs⟩ := List.pairwise_cons.mp hs
    obtain ⟨hi, ih⟩ := List.forall_mem_cons.mp ih
    have hr : ∀ q ∈ recordedProperties properties, key < q.key := by
      rw [recordedProperties_eq]
      simpa using hp
    have ho : ofProperty? (.obj (schema.toFields ++ (required.map fun b => ("required", .bool b)).toList)) =
        some (schema.recorded, required) := by
      rw [ofProperty?, ← withRequired, hi, required?_readParts]
      rfl
    rw [propertyFields, readProperties?, ihp hs ih, recordedProperties, ho]
    simp only [Option.bind_eq_bind, Option.bind_some]
    rw [Properties.find?_of_head_lt hr, insert_of_head_lt hr]
    rfl

theorem toSchema?_readParts (h : s.Proper) (inside : Bool) (required : Option Bool) :
    (readParts (withRequired s.toFields required)).toSchema? inside = some s.recorded := by
  induction h generalizing inside required
  case object properties traits hs hp ht ih =>
    have hr : (readParts (withRequired (object properties traits).toFields required)).properties =
        some (recordedProperties properties) := by
      rw [readParts_eq, ← readProperties?_propertyFields hs ih]
      rfl
    rw [Parts.toSchema?, once?_withRequired _ _ "type" (by decide),
      once?_withRequired _ _ "properties" (by decide), traits?_readParts (.object hs hp ht) rfl, hr]
    rfl
  case array element traits he ht ih =>
    have hi : ofTree? true (.obj element.toFields) = some element.recorded := by
      simpa [withRequired, ofTree?] using ih true none
    have hr : (readParts (withRequired (array element traits).toFields required)).element =
        some element.recorded := by
      rw [readParts_eq, ← hi]
      rfl
    rw [Parts.toSchema?, once?_withRequired _ _ "type" (by decide),
      once?_withRequired _ _ "elementType" (by decide), traits?_readParts (.array he ht) rfl, hr]
    rfl
  all_goals
    rw [Parts.toSchema?, once?_withRequired _ _ "type" (by decide)]
    rfl

theorem ofTree?_toTree (h : s.Proper) : ofTree? inside s.toTree = some s.recorded := by
  simpa [withRequired, toTree, ofTree?] using toSchema?_readParts h inside none

-- It is read off some tree, on the basis of an older schema or of none.
def Inferred (s : Schema) : Prop :=
  ∃ old inherited t, (∀ o, old = some o → o.Proper) ∧ t.KeysOnce ∧ s = infer old inherited t

theorem Inferred.proper (h : s.Inferred) : s.Proper := by
  obtain ⟨old, inherited, t, ho, ht, rfl⟩ := h
  exact proper_infer ho ht

end Schema

theorem Flags.ofTree?_toTree (flags : Flags) : Flags.ofTree? flags.toTree = some flags :=
  rfl

def RootSchema.recorded (r : RootSchema) : RootSchema :=
  { r with root := r.root.recorded }

theorem RootSchema.recorded_eq_self_iff {r : RootSchema} : r.recorded = r ↔ ¬r.root.HoldsNull := by
  rw [← Schema.recorded_eq_self_iff]
  constructor
  · exact congrArg RootSchema.root
  · intro h
    rw [recorded, h]

theorem RootSchema.ofTree?_toTree {r : RootSchema} (h : r.root.Proper) :
    RootSchema.ofTree? r.toTree = some r.recorded := by
  have ho : ofTree? r.toTree = (Schema.ofTree? false r.root.toTree).bind fun root =>
      (Flags.ofTree? r.flags.toTree).bind fun flags => some { root, flags } := rfl
  rw [ho, Schema.ofTree?_toTree h, Flags.ofTree?_toTree]
  rfl

namespace State

variable {s : State}

-- A state as it comes back.
def recorded (s : State) : State :=
  { s with schema := s.schema.map RootSchema.recorded }

theorem recorded_eq_self_iff : s.recorded = s ↔ ∀ r, s.schema = some r → ¬r.root.HoldsNull := by
  obtain ⟨stat, display, delta, schema⟩ := s
  cases schema <;> simp [recorded, RootSchema.recorded_eq_self_iff]

theorem ofTree?_toTree (h : ∀ r, s.schema = some r → r.root.Proper) :
    ofTree? s.toTree = some s.recorded := by
  obtain ⟨stat, display, delta, schema⟩ := s
  cases schema
  case none   => rfl
  case some r =>
    have ho : ofTree? (State.mk stat display delta (some r)).toTree =
        ((RootSchema.ofTree? r.toTree).map some).bind fun schema => some ⟨stat, display, delta, schema⟩ := rfl
    rw [ho, RootSchema.ofTree?_toTree (h r rfl)]
    rfl

theorem load?_toTree (s : State) : load? s.toTree = ofTree? s.toTree :=
  rfl

-- A state that is saved comes back, and it is the same exactly if no template of its schema is null.
theorem toTree_restores (h : ∀ r, s.schema = some r → r.root.Inferred) :
    ofTree? s.toTree = some s.recorded ∧ load? s.toTree = some s.recorded ∧
      (s.recorded = s ↔ ∀ r, s.schema = some r → ¬r.root.HoldsNull) := by
  have ho := ofTree?_toTree fun r hr => (h r hr).proper
  exact ⟨ho, (load?_toTree s).trans ho, recorded_eq_self_iff⟩

def shelf (template : Tree) : Tree :=
  .obj [("$meta", .obj [("template", template)]), ("jar", .str "plum")]

theorem keysOnce_shelf {template : Tree} (h : template.KeysOnce) : (shelf template).KeysOnce := by
  refine .obj (by simp [Fields.keys]) (List.forall_mem_cons.mpr ⟨?_, ?_⟩)
  · exact .obj (by simp [Fields.keys]) (by simpa using h)
  · exact List.forall_mem_singleton.mpr (.leaf rfl)

def stocked (template : Tree) : State where
  stat := .obj [("jar", .str "plum")]
  schema := some { root := .infer none false (shelf template) }

theorem inferred_stocked {template : Tree} (h : template.KeysOnce) :
    ∀ r, (stocked template).schema = some r → r.root.Inferred := by
  rintro r ⟨⟩
  exact ⟨none, false, shelf template, by simp, keysOnce_shelf h, rfl⟩

theorem stocked_restores :
    (∀ r, (stocked (.str "empty")).schema = some r → r.root.Inferred) ∧
      load? (stocked (.str "empty")).toTree = some (stocked (.str "empty")) := by
  have h : ∀ r, (stocked (.str "empty")).schema = some r → r.root.Inferred :=
    inferred_stocked (.leaf rfl)
  obtain ⟨-, hl, hs⟩ := toTree_restores h
  refine ⟨h, hl.trans (congrArg some (hs.mpr ?_))⟩
  rintro r ⟨⟩
  exact Schema.recorded_eq_self_iff.mp rfl

theorem stocked_changes :
    (∀ r, (stocked .null).schema = some r → r.root.Inferred) ∧
      load? (stocked .null).toTree ≠ some (stocked .null) := by
  refine ⟨inferred_stocked (.leaf rfl), fun h => ?_⟩
  have ht := congrArg (fun s : Option State => (s.bind (·.schema)).bind (·.root.template?)) h
  exact absurd ht (by decide +kernel)

end State

end Storyworld
