import Storyworld.Operation.Run
import Storyworld.Proofs.Meta.Clean
import Storyworld.Proofs.Tree.Overlay

/-!
What the insertions do to the live tree: when they are refused, and which container they write anew.
-/

namespace Storyworld

namespace Meta

variable {fields : Fields} {k key : String} {keys : List String} {v : Tree}

def cleanKey (fields : Fields) (key : String) : Fields :=
  match fields.get? key with
  | some v => fields.put key (clean v)
  | none => fields

-- A map with the entries of `keys` rid of their metadata.
def cleanKeys (keys : List String) (fields : Fields) : Fields :=
  keys.foldl cleanKey fields

theorem get?_cleanKey :
    (cleanKey fields key).get? k =
      if k = key then (fields.get? k).map clean else fields.get? k := by
  unfold cleanKey
  split
  case h_1 v hv => grind [Fields.put, Fields.get?_alter]
  case h_2 hv   => grind

theorem get?_cleanKeys :
    (cleanKeys keys fields).get? k =
      if k ∈ keys then (fields.get? k).map clean else fields.get? k := by
  induction keys generalizing fields
  case nil => simp [cleanKeys]
  case cons key keys ih =>
    have : cleanKeys (key :: keys) fields = cleanKeys keys (cleanKey fields key) := rfl
    rw [this, ih, get?_cleanKey]
    by_cases hk : k = key <;> by_cases hm : k ∈ keys <;>
      simp [hk, hm, Function.comp_def, clean_clean]

theorem mem_keys_cleanKeys : k ∈ (cleanKeys keys fields).keys ↔ k ∈ fields.keys := by
  simp only [Fields.mem_keys, get?_cleanKeys]
  split
  case isTrue  => cases fields.get? k <;> simp
  case isFalse => rfl

end Meta

namespace State

variable {s s' : State} {flags : Flags} {path container : Path} {key : String} {keys : List String}
  {v w : Tree} {items : List Tree} {fields : Fields} {index : Option Nat}
  {applied : Applied} {e : CommandError}

-- A refreshed schema is all that is new.
theorem exists_refreshSchema : ∃ schema, s.refreshSchema container flags = { s with schema } := by
  unfold refreshSchema
  split
  case h_1 => exact ⟨_, rfl⟩
  case h_2 =>
    split
    case h_1 => exact ⟨s.schema, rfl⟩
    case h_2 =>
      dsimp only
      split
      case h_1 => exact ⟨_, rfl⟩
      case h_2 =>
        split
        case h_1 =>
          generalize Schema.update? _ _ _ = root?
          cases root?
          case none => exact ⟨s.schema, rfl⟩
          case some => exact ⟨_, rfl⟩
        case h_2 => exact ⟨s.schema, rfl⟩

@[simp] theorem refreshSchema_stat : (s.refreshSchema container flags).stat = s.stat := by
  have ⟨_, h⟩ : ∃ schema, s.refreshSchema container flags = { s with schema } := exists_refreshSchema
  rw [h]

theorem cleanAt_eq (h : s.stat.get? path = some v) :
    s.cleanAt path = (Meta.clean v, { s with stat := s.stat.set path (Meta.clean v) }) := by
  simp [cleanAt, h]

theorem cleanAt_refreshSchema (h : s.stat.get? path = some v) :
    (s.refreshSchema container flags).cleanAt path =
      (Meta.clean v, { s.refreshSchema container flags with stat := s.stat.set path (Meta.clean v) }) := by
  rw [cleanAt_eq (by simpa using h), refreshSchema_stat]

theorem cleanAt_of_missing (h : s.stat.get? path = none) : s.cleanAt path = (.null, s) := by
  simp [cleanAt, h]

-- The entries are cleaned one after the other, and each write only changes the map at `container`.
theorem cleanEntries_stat (h : s.stat.get? container = some (.obj fields)) :
    (s.cleanEntries container keys).2.stat =
      s.stat.set container (.obj (Meta.cleanKeys keys fields)) := by
  induction keys generalizing s fields
  case nil => exact (Tree.set_of_get? h).symm
  case cons key keys ih =>
    have hc : s.stat.get? (container.child (.key key)) = fields.get? key := by
      simp [Tree.get?_child, h, Tree.child?]
    cases hv : fields.get? key
    case none =>
      have hm : Meta.cleanKey fields key = fields := by simp [Meta.cleanKey, hv]
      simp only [cleanEntries, cleanAt_of_missing (hc.trans hv), ih h]
      simp [Meta.cleanKeys, hm]
    case some v =>
      have hm : Meta.cleanKey fields key = fields.put key (Meta.clean v) := by
        simp [Meta.cleanKey, hv]
      have hs : s.stat.set (container.child (.key key)) (Meta.clean v) =
          s.stat.set container (.obj (Meta.cleanKey fields key)) := by
        rw [Tree.set_child h, Tree.set_obj, hm]
        simp [Fields.put]
      simp only [cleanEntries, cleanAt_eq (hc.trans hv), hs]
      rw [ih Tree.get?_set_self, Tree.set_set]
      simp [Meta.cleanKeys]

-- The item is written into the list first, and then cleaned where it stands.
theorem insertItem_of_open (s : State) (flags : Flags) (items : List Tree) (index : Option Nat)
    (v : Tree) (h : s.closedList container = false) :
    ∃ applied s', s.insertItem flags container items index v = .ok (applied, s') ∧
      s'.stat = s.stat.set container (.arr (items.insertIdx
        (index.elim items.length (min · items.length)) (Meta.clean (s.filled flags container v)))) := by
  simp only [insertItem, h, Bool.false_eq_true, if_false]
  generalize hi : index.elim items.length (min · items.length) = i
  have hle : i ≤ items.length := by cases index <;> simp at hi <;> omega
  have hx : (items.insertIdx i (s.filled flags container v))[i]? =
      some (s.filled flags container v) := by
    simp [List.getElem?_insertIdx_self, hle]
  have hget : (s.stat.set container (.arr (items.insertIdx i (s.filled flags container v)))).get?
      (container.child (.index i)) = some (s.filled flags container v) := by
    simp [Tree.get?_child, Tree.get?_set_self, Tree.child?, hx]
  rw [cleanAt_refreshSchema hget]
  refine ⟨_, _, rfl, ?_⟩
  simp [Tree.set_child Tree.get?_set_self, Tree.set_set, Tree.set_arr (Segment.index?_index i),
    Tree.alterItem_insertIdx hle]

theorem insertItem_of_closed (h : s.closedList container) :
    s.insertItem flags container items index v =
      .error (.schemaViolation container .closedList) := by
  simp only [insertItem, h, if_true]
  rfl

theorem of_insertItem_eq_ok (h : s.insertItem flags container items index v = .ok (applied, s')) :
    s.closedList container = false ∧ ∃ w,
      s'.stat = s.stat.set container
        (.arr (items.insertIdx (index.elim items.length (min · items.length)) w)) := by
  cases hc : s.closedList container
  case true  => cases h.symm.trans (insertItem_of_closed hc)
  case false =>
    have ⟨_, _, ho, hs⟩ := s.insertItem_of_open flags items index v hc
    cases h.symm.trans ho
    exact ⟨rfl, _, hs⟩

theorem insertKey_of_accepts (s : State) (flags : Flags) (v : Tree)
    (h : s.refuses container key = false) :
    ∃ applied s', s.insertKey flags container key v = .ok (applied, s') ∧
      s'.stat = s.stat.set (container.child (.key key))
        (Meta.clean (s.filled flags container v)) := by
  simp only [insertKey, h, Bool.false_eq_true, if_false]
  rw [cleanAt_refreshSchema Tree.get?_set_self]
  exact ⟨_, _, rfl, by simp [Tree.set_set]⟩

theorem of_insertKey_eq_ok (h : s.insertKey flags container key v = .ok (applied, s')) :
    s.refuses container key = false ∧ ∃ w, s'.stat = s.stat.set (container.child (.key key)) w := by
  cases hr : s.refuses container key
  case true =>
    simp only [insertKey, hr, if_true] at h
    cases h
  case false =>
    have ⟨_, _, ho, hs⟩ := s.insertKey_of_accepts flags v hr
    cases h.symm.trans ho
    exact ⟨rfl, _, hs⟩

theorem refuses_of_insertKey_eq_error (h : s.insertKey flags container key v = .error e) :
    s.refuses container key := by
  cases hr : s.refuses container key
  case true  => rfl
  case false =>
    have ⟨applied, s', ho, _⟩ := s.insertKey_of_accepts flags v hr
    cases h.symm.trans ho

-- Only a map can be laid over a map, and every key of it has to be accepted.
theorem of_mergeInto_eq_ok (hg : s.stat.get? container = some (.obj fields))
    (h : s.mergeInto flags container v = .ok (applied, s')) :
    ∃ source, v = .obj source ∧ (∀ k ∈ Fields.keys source, s.refuses container k = false) ∧
      s'.stat = s.stat.set container
        (.obj (Meta.cleanKeys (Fields.keys source) (Tree.mergeFields fields source))) := by
  unfold mergeInto at h
  cases v
  case obj source =>
    simp only [Tree.asFields?, valueAt, hg, Option.getD_some, Tree.merge] at h
    cases hk : (Fields.keys source).find? (s.refuses container)
    case some k => simp [hk, throw, throwThe, MonadExceptOf.throw, bind, Except.bind] at h
    case none   =>
      simp only [hk, pure, Except.pure, Except.ok.injEq, Prod.mk.injEq] at h
      refine ⟨source, rfl, by simpa using List.find?_eq_none.mp hk, ?_⟩
      have hm := Tree.get?_set_self (t := s.stat) (p := container)
        (v := .obj (Tree.mergeFields fields source))
      rw [← h.2, cleanEntries_stat (by rw [refreshSchema_stat]; exact hm)]
      simp [Tree.set_set]
  all_goals cases h

theorem makeMap_eq_ok :
    s.makeMap path = .ok s' ↔
      s.stat.has path.dropLast ∧
        (∀ last, path.getLast? = some last → s.refuses path.dropLast last.name = false) ∧
        s' = { s with stat := s.stat.set path .emptyMap } := by
  unfold makeMap
  simp only [bind, Except.bind, pure, Except.pure, throw, throwThe, MonadExceptOf.throw]
  cases hp : s.stat.has path.dropLast
  case false => simp
  case true  =>
    cases hl : path.getLast?
    case none => simp [@eq_comm _ s']
    case some last =>
      cases hr : s.refuses path.dropLast last.name <;> simp [hr, @eq_comm _ s']

end State

end Storyworld
