import Storyworld.Proofs.Meta.Clean
import Storyworld.Proofs.Tree.Write

/-!
Trees in which every key stands once in its map. Such are the maps that are collected entry by entry, and
of the others `distinct` makes one.
-/

namespace Storyworld

namespace Fields

variable {entries fields : Fields} {key : String} {v : Tree} {e : String × Tree}

theorem put_of_notMem (h : key ∉ fields.keys) : fields.put key v = fields ++ [(key, v)] :=
  alter_of_notMem h

theorem foldl_put (h : (keys (fields ++ entries)).Nodup) :
    entries.foldl (fun fields e => fields.put e.1 e.2) fields = fields ++ entries := by
  induction entries generalizing fields
  case nil => simp
  case cons e entries ih =>
    have hk : e.1 ∉ fields.keys := by
      simp only [keys, List.map_append, List.nodup_append] at h
      exact fun hm => h.2.2 _ hm e.1 (by simp) rfl
    rw [List.foldl_cons, put_of_notMem hk, ih (by simpa using h)]
    simp

theorem ofList_eq_self (h : entries.keys.Nodup) : ofList entries = entries :=
  foldl_put h

theorem nodup_keys_put (h : fields.keys.Nodup) : (fields.put key v).keys.Nodup := by
  rw [put, keys_alter]
  split
  case isTrue    => exact h
  case isFalse hk => exact List.nodup_append.mpr ⟨h, by simp, by grind⟩

theorem mem_put (h : e ∈ fields.put key v) : e = (key, v) ∨ e ∈ fields := by
  unfold put at h
  fun_induction alter key (fun _ => v) fields <;> simp_all <;> grind

theorem nodup_keys_ofList : (ofList entries).keys.Nodup := by
  unfold ofList
  have ho : (keys []).Nodup := .nil
  generalize ([] : Fields) = fields at ho
  induction entries generalizing fields
  case nil               => exact ho
  case cons e entries ih => exact ih _ (nodup_keys_put ho)

theorem mem_of_mem_ofList (h : e ∈ ofList entries) : e ∈ entries := by
  -- What has been collected was there before or is an entry.
  suffices hf : ∀ fields : Fields, e ∈ entries.foldl (fun fields e => fields.put e.1 e.2) fields →
      e ∈ fields ∨ e ∈ entries by simpa using hf [] h
  clear h
  induction entries
  case nil => exact fun _ => .inl
  case cons d entries ih =>
    intro fields h
    obtain h | h := ih _ h
    · obtain rfl | h := mem_put h
      · exact .inr List.mem_cons_self
      · exact .inl h
    · exact .inr <| List.mem_cons_of_mem _ h

end Fields

namespace Tree

variable {t c : Tree} {a : Segment} {entries fields : Fields} {items : List Tree}
  {key : String} {v : Tree}

inductive KeysOnce : Tree → Prop where
  | leaf {t : Tree} (h : t.isComposite = false) : KeysOnce t
  | arr {items : List Tree} (h : ∀ x ∈ items, KeysOnce x) : KeysOnce (.arr items)
  | obj {fields : Fields} (hk : fields.keys.Nodup) (h : ∀ e ∈ fields, KeysOnce e.2) :
    KeysOnce (.obj fields)

namespace KeysOnce

theorem nodup_keys (h : (Tree.obj fields).KeysOnce) : fields.keys.Nodup := by
  cases h
  case leaf h   => cases h
  case obj hk _ => exact hk

theorem entry (h : (Tree.obj fields).KeysOnce) : ∀ e ∈ fields, e.2.KeysOnce := by
  cases h
  case leaf h  => cases h
  case obj _ h => exact h

theorem item (h : (Tree.arr items).KeysOnce) : ∀ x ∈ items, x.KeysOnce := by
  cases h
  case leaf h => cases h
  case arr h  => exact h

theorem child? (h : t.KeysOnce) (hc : t.child? a = some c) : c.KeysOnce := by
  cases h
  case leaf h   => cases t <;> simp_all [Tree.child?, isComposite]
  case obj hk h => exact h _ (Fields.mem_of_get? hc)
  case arr h    =>
    obtain ⟨i, _, hi⟩ := child?_arr.mp hc
    exact h c (List.mem_of_getElem? hi)

theorem get? {p : Path} (h : t.KeysOnce) (hc : t.get? p = some c) : c.KeysOnce := by
  induction p generalizing t
  case nil =>
    cases hc
    exact h
  case cons step p ih =>
    obtain ⟨x, hs, hc⟩ := Option.bind_eq_some_iff.mp (get?_cons ▸ hc)
    exact ih (h.child? hs) hc

theorem field? (h : t.KeysOnce) (hv : t.field? key = some v) : v.KeysOnce := by
  cases t <;> simp only [Tree.field?, reduceCtorEq] at hv
  exact h.entry _ (Fields.mem_of_get? hv)

end KeysOnce

-- A key that comes again only changes the value of the entry that is there.
theorem keysOnce_ofList (h : ∀ e ∈ entries, e.2.KeysOnce) : (obj (Fields.ofList entries)).KeysOnce :=
  .obj Fields.nodup_keys_ofList fun e he => h e (Fields.mem_of_mem_ofList he)

theorem distinctItems_eq : distinctItems items = items.map distinct := by
  induction items
  case nil          => rfl
  case cons x xs ih => simp [distinctItems, ih]

theorem distinctFields_eq : distinctFields fields = fields.map fun e => (e.1, e.2.distinct) := by
  induction fields
  case nil              => rfl
  case cons e fields ih => simp [distinctFields, ih]

theorem distinct_leaf (h : t.isComposite = false) : t.distinct = t := by
  cases t <;> first | rfl | cases h

theorem keysOnce_distinct : t.distinct.KeysOnce := by
  induction t using Tree.inductionOn
  case leaf h => exact (distinct_leaf h).symm ▸ .leaf h
  case arr items ih =>
    rw [distinct, distinctItems_eq]
    exact .arr <| by simpa using ih
  case obj fields ih =>
    rw [distinct, distinctFields_eq]
    refine keysOnce_ofList fun e he => ?_
    obtain ⟨x, hx, rfl⟩ := List.mem_map.mp he
    exact ih x hx

theorem KeysOnce.distinct (h : t.KeysOnce) : t.distinct = t := by
  induction h
  case leaf t h    => exact distinct_leaf h
  case arr h ih    => rw [Tree.distinct, distinctItems_eq, List.map_congr_left ih, List.map_id']
  case obj fields hk h ih =>
    have he : ∀ e ∈ fields, (e.1, e.2.distinct) = e := fun e he => by rw [ih e he]
    rw [Tree.distinct, distinctFields_eq, List.map_congr_left he, List.map_id', Fields.ofList_eq_self hk]

theorem keysOnce_iff_distinct : t.KeysOnce ↔ t.distinct = t :=
  ⟨KeysOnce.distinct, fun h => h ▸ keysOnce_distinct⟩

instance : DecidablePred KeysOnce := fun _ => decidable_of_iff _ keysOnce_iff_distinct.symm

end Tree

end Storyworld
