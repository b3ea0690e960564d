import Storyworld.Proofs.Insertion.Outcome
import Storyworld.Proofs.Schema.Renewal
import Storyworld.Proofs.Yields

/-!
What an insertion leaves of the schema: the node of its container, if there was one, is read off anew on
the basis of the old one, and grants what that one has granted.
-/

namespace Storyworld

namespace Schema

variable {s n c : Schema} {step : Segment} {p : Path} {ps : Properties} {key : String}
  {q : Property Schema} {f : Schema → Schema} {fields : Fields} {inherited : Bool} {traits : Traits}

theorem child?_replaceChild (h : s.child? step = some n) :
    (s.replaceChild step c).child? step = some c := by
  cases s <;> simp only [child?, reduceCtorEq] at h
  case object ps traits =>
    obtain ⟨q, hq, -⟩ := Option.map_eq_some_iff.mp h
    simp [replaceChild, child?, Properties.find?_replace_self hq]
  case array element traits =>
    obtain ⟨i, hi, -⟩ := Option.map_eq_some_iff.mp h
    simp [replaceChild, child?, hi]

-- A node that is there is changed in its place.
theorem exists_update? (h : s.get? p = some n) :
    ∃ s', s.update? p f = some s' ∧ s'.get? p = some (f n) := by
  induction p generalizing s
  case nil =>
    obtain rfl : s = n := by simpa [get?] using h
    exact ⟨f s, rfl, rfl⟩
  case cons step rest ih =>
    obtain ⟨c, hc, hn⟩ := Option.bind_eq_some_iff.mp (show (s.child? step).bind (·.get? rest) = _ from h)
    obtain ⟨c', hu, hg⟩ := ih hn
    exact ⟨s.replaceChild step c', by simp [update?, hc, hu], by simp [get?, child?_replaceChild hc, hg]⟩

-- What an open map did not have to keep, it does not have to keep when it is read again, unless its own
-- metadata says so.
theorem requires_infer (inherited : Bool) (he : traits.extensible) (hm : key ∉ (Meta.ofMap fields).required)
    (hr : requires ps traits key = false) :
    ∃ ps' traits', infer (some (object ps traits)) inherited (.obj fields) = object ps' traits' ∧
      requires ps' traits' key = false := by
  refine ⟨_, _, infer_obj, ?_⟩
  have ht : (readMap (some (object ps traits)) inherited fields).extensible :=
    continues_mapTraits.extensible he
  have hf : ((ps.find? key).bind (·.required)).getD false = false := by
    rw [requires, he] at hr
    cases hp : ps.find? key <;> simp_all
  rw [requires, find?_inferProperties]
  split
  case isTrue  => rfl
  case isFalse =>
    cases fields.get? key
    case none   => rfl
    case some v => simp [mapBasis, ht, hm, hf]

end Schema

namespace State

variable {s : State} {flags : Flags} {container path : Path} {items : List Tree} {index : Option Nat}
  {key : String} {v data : Tree} {node : Schema} {fields : Fields}

theorem schemaAt?_refreshSchema (flags : Flags) (hn : s.schemaAt? container = some node)
    (hd : s.stat.get? container = some data) :
    ∃ inherited, (s.refreshSchema container flags).schemaAt? container =
      some (.infer (some node) inherited data) := by
  obtain ⟨schema, hs, hn⟩ := Option.bind_eq_some_iff.mp hn
  obtain ⟨root, hu, hg⟩ :=
    Schema.exists_update? (f := fun node => .infer (some node) (schema.root.handsDown container) data) hn
  refine ⟨schema.root.handsDown container, ?_⟩
  simp only [refreshSchema, hs, hd, hu]
  exact hg

theorem schemaAt?_cleanAt : (s.cleanAt path).2.schemaAt? container = s.schemaAt? container := by
  unfold cleanAt
  split <;> rfl

theorem schemaAt?_insertItem (hn : s.schemaAt? container = some node) :
    Yields (fun r => ∃ inherited items', r.2.schemaAt? container =
      some (.infer (some node) inherited (.arr items'))) (s.insertItem flags container items index v) := by
  unfold insertItem
  split
  · exact yields_error
  · obtain ⟨inherited, hi⟩ :=
      schemaAt?_refreshSchema (s := { s with stat := s.stat.set container _ }) flags hn Tree.get?_set_self
    exact yields_ok ⟨inherited, _, schemaAt?_cleanAt.trans hi⟩

theorem schemaAt?_insertKey (hc : s.stat.get? container = some (.obj fields))
    (hn : s.schemaAt? container = some node) :
    Yields (fun r => ∃ inherited, r.2.schemaAt? container = some (.infer (some node) inherited
      (.obj (fields.put key (s.filled flags container v))))) (s.insertKey flags container key v) := by
  unfold insertKey
  split
  · exact yields_error
  · have hd : (s.stat.set (container.child (.key key)) (s.filled flags container v)).get? container =
        some (.obj (fields.put key (s.filled flags container v))) := by
      rw [Tree.set_child hc, Tree.set_obj, Tree.get?_set_self]
      simp [Fields.put]
    obtain ⟨inherited, hi⟩ := schemaAt?_refreshSchema
      (s := { s with stat := s.stat.set (container.child (.key key)) _ }) flags hn hd
    exact yields_ok ⟨inherited, schemaAt?_cleanAt.trans hi⟩

-- A list that was open is open for removals too.
theorem closedList_insertItem {element : Schema} {traits : Traits}
    (hn : s.schemaAt? container = some (.array element traits)) (he : traits.extensible) :
    Yields (·.2.closedList container = false) (s.insertItem flags container items index v) := by
  refine (schemaAt?_insertItem hn).mono fun r h => ?_
  obtain ⟨inherited, items', h⟩ := h
  rw [Schema.infer_arr] at h
  have ht : (Schema.readList (some (.array element traits)) inherited items').extensible :=
    Schema.continues_listTraits.extensible he
  simp [closedList, h, ht]

-- A key that an open map did not have to keep is not required once it is there.
theorem requires_insertKey {properties : Schema.Properties} {traits : Traits}
    (hc : s.stat.get? container = some (.obj fields))
    (hn : s.schemaAt? container = some (.object properties traits)) (he : traits.extensible)
    (hm : Meta.key ∉ fields.keys) (hk : key ≠ Meta.key)
    (hr : Schema.requires properties traits key = false) :
    Yields (·.2.requires container key = false) (s.insertKey flags container key v) := by
  refine (schemaAt?_insertKey hc hn).mono fun r h => ?_
  obtain ⟨inherited, h⟩ := h
  have hd : key ∉ (Meta.ofMap (fields.put key (s.filled flags container v))).required := by
    simp [Meta.ofMap, Fields.get?_put_of_ne hk.symm, Fields.get?_eq_none_iff.mpr hm]
  obtain ⟨ps', traits', hi, hr'⟩ := Schema.requires_infer inherited he hd hr
  simp only [requires, h, hi, hr']

end State

end Storyworld
