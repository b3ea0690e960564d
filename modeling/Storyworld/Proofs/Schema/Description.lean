import Storyworld.Proofs.Meta.Origin
import Storyworld.Proofs.Schema.Stability
import Storyworld.Proofs.Tree.Write

/-!
A schema describes a tree if its node for each path is of the kind of the value there and has the keys
of each map. As all items of a list share one node, only the first item of a list is described. What
is read off a tree describes the tree without its metadata, whatever the older schema was.
-/

namespace Storyworld

namespace Tree

-- Lists are entered at their first items only.
def EntersFirst (t : Tree) (path : Path) : Prop :=
  ∀ p step rest items, path = p ++ step :: rest → t.get? p = some (.arr items) → step.index? = some 0

theorem EntersFirst.tail {t c : Tree} {step : Segment} {path : Path}
    (h : t.EntersFirst (step :: path)) (hc : t.child? step = some c) : c.EntersFirst path := by
  intro p st rest items hp hi
  exact h (step :: p) st rest items (by simp [hp]) (by simp [hc, hi])

end Tree

namespace Schema

inductive Fits : Schema → Tree → Prop where
  -- Each key of the map has its property, with a flag of its own, and nothing else has one.
  | object {properties : Properties} {traits : Traits} {fields : Fields} (sorted : properties.Sorted)
    (keys : ∀ k, (∃ p ∈ properties, p.key = k) ↔ k ∈ fields.keys)
    (flags : ∀ p ∈ properties, ∃ required, p.required = some required) :
    Fits (.object properties traits) (.obj fields)
  | array {element : Schema} {traits : Traits} {items : List Tree} :
    Fits (.array element traits) (.arr items)
  | string {s : String} : Fits .string (.str s)
  | number {n : Number} : Fits .number (.num n)
  | boolean {b : Bool} : Fits .boolean (.bool b)
  | any : Fits .any .null

def Describes (s : Schema) (t : Tree) : Prop :=
  ∀ path v, t.get? path = some v → t.EntersFirst path → ∃ node, s.get? path = some node ∧ node.Fits v

variable {old : Option Schema} {before : Properties} {required : List String} {traits : Traits}
  {inherited : Bool} {k : String} {t c v : Tree} {step : Segment} {path : Path} {fields : Fields}
  {items : List Tree}

theorem flag_of_mem_inferProperties {p : Property Schema}
    (h : p ∈ inferProperties before required traits inherited fields) :
    ∃ required, p.required = some required := by
  induction fields
  case nil => simp [inferProperties] at h
  case cons e fields ih =>
    rw [inferProperties] at h
    split at h
    case isTrue  => exact ih h
    case isFalse =>
      cases Properties.mem_insert h
      case inl h => exact ⟨_, congrArg Property.required h⟩
      case inr h => exact ih h

theorem mem_keys_inferProperties :
    (∃ p ∈ inferProperties before required traits inherited fields, p.key = k) ↔
      k ∈ Fields.keys (Meta.cleanFields fields) := by
  rw [← Properties.exists_find?_iff, Fields.mem_keys, ← Option.isSome_iff_exists,
    ← Option.isSome_iff_exists, find?_inferProperties, Meta.get?_cleanFields]
  split <;> simp

theorem infer_fits_clean : (infer old inherited t).Fits (Meta.clean t) := by
  cases t <;> simp only [infer, Meta.clean] <;> constructor
  case sorted => exact sorted_inferProperties
  case keys   => exact fun k => mem_keys_inferProperties
  case flags  => exact fun p => flag_of_mem_inferProperties

-- What the older schema knows of a child.
def childBasis (old : Option Schema) (t : Tree) (step : Segment) : Option Schema :=
  match t with
  | .arr _ => (listBasis old).1
  | _ => propertyBasis old step.name

-- Where a step leads, the nodes have been read off what stands there.
theorem child?_infer (old : Option Schema) (inherited : Bool)
    (h : (Meta.clean t).child? step = some c)
    (hs : ∀ items, Meta.clean t = .arr items → step.index? = some 0) :
    ∃ inherited' x, Meta.originChild? t step = some x ∧ c = Meta.clean x ∧
      (infer old inherited t).child? step = some (infer (childBasis old t step) inherited' x) := by
  rw [Meta.child?_clean_eq] at h
  obtain ⟨x, hx, rfl⟩ := Option.map_eq_some_iff.mp h
  cases t <;> try cases hx
  case arr items =>
    have hi := hs _ (by rw [Meta.clean])
    refine ⟨(readList old inherited items).recursive, x, hx, rfl, ?_⟩
    rw [Meta.originChild?_arr hi] at hx
    rw [infer_arr, inferElement_eq, hx]
    simp [child?, childBasis, hi]
  case obj fields =>
    refine ⟨passedOn old inherited fields, x, hx, rfl, ?_⟩
    obtain ⟨hk, hx⟩ : step.name ≠ Meta.key ∧ Fields.get? step.name fields = some x := by
      simpa [Meta.originChild?] using hx
    rw [infer_obj, child?, find?_inferProperties, if_neg hk, hx]
    rfl

theorem infer_describes_clean : (infer old inherited t).Describes (Meta.clean t) := by
  intro path v hv hf
  induction path generalizing old inherited t
  case nil =>
    obtain rfl := Tree.eq_of_get?_root hv
    exact ⟨_, by rw [get?], infer_fits_clean⟩
  case cons step rest ih =>
    have ⟨c, hc, hv⟩ := Option.bind_eq_some_iff.mp <| Tree.get?_cons.symm.trans hv
    have hs items (hi : Meta.clean t = .arr items) :=
      hf [] step rest items rfl (hi ▸ Tree.get?_root)
    obtain ⟨inherited', x, -, rfl, hx⟩ := child?_infer old inherited hc hs
    have ⟨node, hn, hf⟩ := @ih (childBasis old t step) inherited' x hv (hf.tail hc)
    exact ⟨node, by rw [get?, hx]; exact hn, hf⟩

end Schema

end Storyworld
