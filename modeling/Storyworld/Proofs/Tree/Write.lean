import Storyworld.Tree.Access

/-!
Writes at paths: what is read back after a write, writes one after the other, and writes below a
container that is there.
-/

namespace Storyworld

namespace Fields

variable {fields : Fields} {key other : String} {f g : Option Tree → Tree} {v : Tree}

theorem get?_alter :
    get? other (alter key f fields) =
      if other = key then some (f (get? key fields)) else get? other fields := by
  split
  case isTrue h  => exact h ▸ get?_alter_self
  case isFalse h => exact get?_alter_of_ne h

theorem alter_congr (h : f (get? key fields) = g (get? key fields)) :
    alter key f fields = alter key g fields := by
  fun_induction alter key f fields <;> simp_all [get?, alter]

@[simp] theorem alter_alter :
    alter key g (alter key f fields) = alter key (fun old => g (some (f old))) fields := by
  fun_induction alter key f fields <;> simp_all [alter]

-- Entries of other keys in front are passed over.
theorem alter_append {r : Fields} (h : key ∉ keys fields) :
    alter key f (fields ++ r) = fields ++ alter key f r := by
  induction fields
  case nil => rfl
  case cons e fields ih =>
    obtain ⟨hk, hf⟩ := notMem_keys_cons.mp h
    simp [alter, Ne.symm hk, ih hf]

theorem alter_of_notMem (h : key ∉ keys fields) : alter key f fields = fields ++ [(key, f none)] := by
  simpa [alter] using alter_append (r := []) h

theorem alter_eq_put (h : get? key fields = some v) :
    alter key f fields = put key (f (some v)) fields :=
  alter_congr (by rw [h])

theorem put_of_get? (h : get? key fields = some v) : put key v fields = fields := by
  unfold put
  fun_induction alter key (fun _ => v) fields <;> simp_all [get?]

theorem mem_keys : key ∈ keys fields ↔ ∃ v, get? key fields = some v := by
  rw [← Option.ne_none_iff_exists', ne_eq, get?_eq_none_iff, Decidable.not_not]

theorem keys_alter_of_mem (h : key ∈ keys fields) : keys (alter key f fields) = keys fields := by
  fun_induction alter key f fields
  case case1       => simp [keys] at h
  case case2       => simp [keys]
  case case3 hk ih =>
    have hm := (List.mem_cons.mp h).resolve_left (Ne.symm hk)
    exact congrArg (List.cons _) (ih hm)

theorem keys_alter :
    keys (alter key f fields) = if key ∈ keys fields then keys fields else keys fields ++ [key] := by
  split
  case isTrue h  => exact keys_alter_of_mem h
  case isFalse h => rw [alter_of_notMem h, keys, keys, List.map_append, List.map_singleton]

theorem mem_keys_alter : other ∈ keys (alter key f fields) ↔ other = key ∨ other ∈ keys fields := by
  simp only [mem_keys, get?_alter]
  split <;> simp_all

end Fields

namespace Tree

variable {t c v w : Tree} {step : Segment} {p q rest : Path} {items : List Tree} {i j : Nat}
  {f g : Option Tree → Tree}

/-! ## Items of a list -/

theorem getElem?_alterItem_self : (alterItem i f items)[i]? = some (f items[i]?) := by
  fun_induction alterItem i f items <;> simp_all

theorem getElem?_alterItem_of_ne (h : j ≠ i) (hj : j < items.length) :
    (alterItem i f items)[j]? = items[j]? := by
  induction items generalizing i j
  case nil => simp at hj
  case cons x xs ih =>
    cases i <;> cases j <;> simp_all [alterItem]

@[simp] theorem alterItem_alterItem :
    alterItem i g (alterItem i f items) = alterItem i (fun old => g (some (f old))) items := by
  induction items generalizing i
  case nil =>
    induction i
    case zero      => rfl
    case succ i ih => simpa [alterItem, List.replicate_succ] using ih
  case cons x xs ih => cases i <;> simp [alterItem, ih]

theorem alterItem_of_getElem? (h : items[i]? = some c) :
    alterItem i f items = items.set i (f (some c)) := by
  induction items generalizing i
  case nil          => simp at h
  case cons x xs ih => cases i <;> simp_all [alterItem]

theorem alterItem_insertIdx (h : i ≤ items.length) :
    alterItem i f (items.insertIdx i v) = items.insertIdx i (f (some v)) := by
  induction items generalizing i
  case nil          => simp_all [alterItem]
  case cons x xs ih => cases i <;> simp_all [alterItem]

theorem length_alterItem : (alterItem i f items).length = max items.length (i + 1) := by
  induction items generalizing i
  case nil          => simp [alterItem]
  case cons x xs ih => cases i <;> simp [alterItem, ih]

/-! ## Steps -/

-- The step in the tree's own terms: a name for a map, a position for a list. Nothing else can be
-- entered, and a list only by what counts as a position.
def enters? (t : Tree) (step : Segment) : Option Segment :=
  match t with
  | obj _ => some (.key step.name)
  | arr _ => step.index?.map .index
  | _ => none

@[simp] theorem enters?_obj {fields : Fields} : (obj fields).enters? step = some (.key step.name) := rfl

@[simp] theorem enters?_arr : (arr items).enters? step = step.index?.map .index := rfl

theorem enters?_cases (t : Tree) (step : Segment) :
    (∃ fields, t = obj fields) ∨ (∃ items i, t = arr items ∧ step.index? = some i) ∨
      t.enters? step = none := by
  cases t
  case obj fields => exact .inl ⟨fields, rfl⟩
  case arr items  =>
    cases hi : step.index?
    case none   => exact .inr <| .inr <| by simp [hi]
    case some i => exact .inr <| .inl ⟨items, i, rfl, rfl⟩
  all_goals exact .inr <| .inr rfl

theorem child?_of_enters?_none (h : t.enters? step = none) : t.child? step = none := by
  cases t <;> simp_all [child?]

theorem child?_arr : (arr items).child? step = some c ↔ ∃ i, step.index? = some i ∧ items[i]? = some c := by
  simp [child?, Option.bind_eq_some_iff]

-- The smallest container with a child under `step`.
def holding (step : Segment) (c : Tree) : Tree :=
  match step with
  | .index i => arr (List.replicate i null ++ [c])
  | .key k => obj [(k, c)]

@[simp] theorem child?_holding : (holding step c).child? step = some c := by
  cases step <;> simp [holding, child?, Fields.get?]

/-! ## Reading -/

theorem get?_append : t.get? (p ++ q) = (t.get? p).bind (·.get? q) := by
  induction p generalizing t
  case nil               => simp
  case cons step rest ih => cases h : t.child? step <;> simp [h, ih]

theorem get?_child : t.get? (p.child step) = (t.get? p).bind (·.child? step) := by
  rw [Path.child, get?_append]
  congr 1
  funext c
  cases h : c.child? step <;> simp [h]

/-! ## Writing -/

theorem set_obj {fields : Fields} :
    (obj fields).set (step :: rest) v =
      obj (fields.alter step.name fun old => (old.getD null).set rest v) := by
  rw [set]

theorem set_arr (h : step.index? = some i) :
    (arr items).set (step :: rest) v =
      arr (alterItem i (fun old => (old.getD null).set rest v) items) := by
  rw [set]
  exact h

-- What cannot be entered is replaced.
theorem set_of_enters?_none (h : t.enters? step = none) :
    t.set (step :: rest) v = holding step (null.set rest v) := by
  rw [set.eq_def]
  cases t <;> cases step <;> simp_all [holding]

-- What a write leaves at its first step: the child there, or null in place of a missing one, with the
-- rest of the write done to it.
theorem child?_set_cons :
    (t.set (step :: rest) v).child? step = some (((t.child? step).getD null).set rest v) := by
  obtain ⟨fields, rfl⟩ | ⟨items, i, rfl, hi⟩ | h := t.enters?_cases step
  · simp [set_obj, child?, Fields.get?_alter_self]
  · simp [set_arr hi, child?, hi, getElem?_alterItem_self]
  · simp [set_of_enters?_none h, child?_of_enters?_none h, child?_holding]

theorem set_holding : (holding step c).set (step :: rest) v = holding step (c.set rest v) := by
  cases step
  case key k   => simp [holding, set_obj, Fields.alter]
  case index i =>
    have hx : (List.replicate i null ++ [c])[i]? = some c := by simp
    rw [holding, set_arr rfl, alterItem_of_getElem? hx]
    simp [holding]

@[simp] theorem get?_set_self : (t.set p v).get? p = some v := by
  induction p generalizing t
  case nil               => simp
  case cons step rest ih => simp [child?_set_cons, ih]

@[simp] theorem set_set : (t.set p v).set p w = t.set p w := by
  induction p generalizing t
  case nil => simp
  case cons step rest ih =>
    obtain ⟨fields, rfl⟩ | ⟨items, i, rfl, hi⟩ | h := t.enters?_cases step
    · simp [set_obj, Fields.alter_alter, ih]
    · simp [set_arr hi, alterItem_alterItem, ih]
    · simp [set_of_enters?_none h, set_holding, ih]

-- Where the first step leads to a child, a write replaces this child and nothing else.
theorem set_cons_of_child (h : t.child? step = some c) :
    t.set (step :: rest) v = t.replaceChild step (c.set rest v) := by
  obtain ⟨fields, rfl⟩ | ⟨items, i, rfl, hi⟩ | hn := t.enters?_cases step
  · simp [set_obj, replaceChild, Fields.alter_eq_put h]
  · have hx : items[i]? = some c := by simpa [child?, hi] using h
    simp [set_arr hi, replaceChild, hi, alterItem_of_getElem? hx]
  · simp [child?_of_enters?_none hn] at h

theorem replaceChild_self (h : t.child? step = some c) : t.replaceChild step c = t := by
  obtain ⟨fields, rfl⟩ | ⟨items, i, rfl, hi⟩ | hn := t.enters?_cases step
  · exact congrArg obj <| Fields.put_of_get? h
  · have hx : items[i]? = some c := by simpa [child?, hi] using h
    have ⟨hlt, he⟩ := List.getElem?_eq_some_iff.mp hx
    simp [replaceChild, hi, ← he]
  · simp [child?_of_enters?_none hn] at h

-- A write of what stands there anyway.
theorem set_of_get? (h : t.get? p = some c) : t.set p c = t := by
  induction p generalizing t
  case nil => simp_all
  case cons step rest ih =>
    have ⟨x, hx, hc⟩ : ∃ x, t.child? step = some x ∧ x.get? rest = some c := by
      simpa [Option.bind_eq_some_iff] using h
    rw [set_cons_of_child hx, ih hc, replaceChild_self hx]

theorem set_append (h : t.get? p = some c) : t.set (p ++ q) v = t.set p (c.set q v) := by
  induction p generalizing t
  case nil => simp_all
  case cons step rest ih =>
    have ⟨x, hx, hc⟩ : ∃ x, t.child? step = some x ∧ x.get? rest = some c := by
      simpa [Option.bind_eq_some_iff] using h
    rw [List.cons_append, set_cons_of_child hx, set_cons_of_child hx, ih hc]

theorem set_child (h : t.get? p = some c) : t.set (p.child step) v = t.set p (c.set [step] v) :=
  set_append h

end Tree

end Storyworld
