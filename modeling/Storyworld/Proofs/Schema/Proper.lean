import Storyworld.Proofs.Schema.Stability
import Storyworld.Proofs.Tree.KeysOnce

/-!
Schemas that are well formed: properties are in order, and in every template a key stands once in its
map. A schema that is read off a tree with this, on the basis of such a schema, is one itself.
-/

namespace Storyworld

namespace Meta

variable {t : Tree} {fields : Fields} {items : List Tree}

theorem keysOnce_ofMap (h : (Tree.obj fields).KeysOnce) (ht : (ofMap fields).template = some t) :
    t.KeysOnce := by
  unfold ofMap at ht
  cases hc : (fields.get? key).bind Tree.asFields?
  case none => simp [hc] at ht
  case some carried =>
    obtain ⟨v, hv, hf⟩ := Option.bind_eq_some_iff.mp hc
    cases v <;> cases hf
    rw [hc] at ht
    exact (h.field? hv).field? ht

theorem keysOnce_ofList (h : ∀ x ∈ items, x.KeysOnce) (ht : (ofList items).template = some t) :
    t.KeysOnce := by
  unfold ofList at ht
  dsimp only at ht
  cases hc : ((items.filter isSentinel).filterMap fun x =>
    (x.field? key).bind Tree.asFields?).getLast?
  case none => simp [hc] at ht
  case some carried =>
    obtain ⟨x, hx, hf⟩ := List.mem_filterMap.mp (List.mem_of_getLast? hc)
    obtain ⟨v, hv, hf⟩ := Option.bind_eq_some_iff.mp hf
    cases v <;> cases hf
    rw [hc] at ht
    exact ((h x (List.mem_filter.mp hx).1).field? hv).field? ht

end Meta

namespace Schema

variable {old : Option Schema} {s : Schema} {inherited : Bool} {t : Tree} {fields : Fields}
  {items : List Tree} {properties : Properties} {p : Property Schema}

inductive Proper : Schema → Prop where
  | object {properties : Properties} {traits : Traits} (hs : properties.Sorted)
    (hp : ∀ p ∈ properties, Proper p.schema) (ht : ∀ t, traits.template = some t → t.KeysOnce) :
    Proper (object properties traits)
  | array {element : Schema} {traits : Traits} (he : Proper element)
    (ht : ∀ t, traits.template = some t → t.KeysOnce) : Proper (array element traits)
  | string : Proper string
  | number : Proper number
  | boolean : Proper boolean
  | any : Proper any

theorem Proper.template (h : s.Proper) (ht : s.template? = some t) : t.KeysOnce := by
  cases h
  case object h | array h => exact h t ht
  all_goals cases ht

theorem Proper.property {traits : Traits} (h : (Schema.object properties traits).Proper)
    (hp : p ∈ properties) : p.schema.Proper := by
  cases h with
  | object hs h => exact h p hp

theorem Proper.element {traits : Traits} (h : (Schema.array s traits).Proper) : s.Proper := by
  cases h with
  | array h => exact h

section

variable (ho : ∀ o, old = some o → o.Proper)

include ho

theorem proper_mapBasis : (object (mapBasis old).1 (mapBasis old).2).Proper := by
  unfold mapBasis
  split
  case h_1 => exact ho _ rfl
  case h_2 => exact .object .nil (by simp) (by simp)

theorem proper_listBasis : (array ((listBasis old).1.getD any) (listBasis old).2).Proper := by
  unfold listBasis
  split
  case h_1 => exact ho _ rfl
  case h_2 => exact .array .any (by simp)

theorem proper_of_find?_mapBasis {k : String} {o : Schema}
    (h : ((mapBasis old).1.find? k).map (·.schema) = some o) : o.Proper := by
  obtain ⟨p, hp, rfl⟩ := Option.map_eq_some_iff.mp h
  exact (proper_mapBasis ho).property (Properties.mem_of_find? hp)

theorem keysOnce_readMap (h : (Tree.obj fields).KeysOnce)
    (ht : (readMap old inherited fields).template = some t) : t.KeysOnce := by
  obtain ht | ⟨-, ht⟩ := Option.or_eq_some_iff.mp ht
  case inl => exact Meta.keysOnce_ofMap h ht
  case inr => exact (proper_mapBasis ho).template ht

theorem keysOnce_readList (h : ∀ x ∈ items, x.KeysOnce)
    (ht : (readList old inherited items).template = some t) : t.KeysOnce := by
  obtain ht | ⟨-, ht⟩ := Option.or_eq_some_iff.mp ht
  case inl => exact Meta.keysOnce_ofList h ht
  case inr => exact (proper_listBasis ho).template ht

end

theorem proper_of_mem_inferProperties {before : Properties} {required : List String} {traits : Traits}
    (hi : ∀ e ∈ fields, (infer ((before.find? e.1).map (·.schema)) inherited e.2).Proper)
    (hp : p ∈ inferProperties before required traits inherited fields) : p.schema.Proper := by
  induction fields
  case nil => cases hp
  case cons e fields ih =>
    obtain ⟨he, hi⟩ := List.forall_mem_cons.mp hi
    rw [inferProperties] at hp
    split at hp
    case isTrue  => exact ih hi hp
    case isFalse =>
      obtain rfl | hp := Properties.mem_insert hp
      case inl => exact he
      case inr => exact ih hi hp

-- What is read off a tree on the basis of an older schema is as well formed as the two of them.
theorem proper_infer (ho : ∀ o, old = some o → o.Proper) (ht : t.KeysOnce) :
    (infer old inherited t).Proper := by
  induction ht generalizing old inherited
  case leaf t h =>
    cases t <;> cases h <;> constructor
  case arr items h ih =>
    have hl := proper_listBasis ho
    rw [infer_arr, inferElement_eq]
    refine .array ?_ fun t => keysOnce_readList ho h
    split
    case h_1 x hx =>
      refine ih x (List.mem_of_find?_eq_some hx) fun o hs => ?_
      simpa [hs] using hl.element
    case h_2 => exact hl.element
  case obj fields hk h ih =>
    rw [infer_obj]
    refine .object sorted_inferProperties (fun p => ?_) fun t => keysOnce_readMap ho (.obj hk h)
    exact proper_of_mem_inferProperties fun e he => ih e he fun o => proper_of_find?_mapBasis ho

end Schema

end Storyworld
