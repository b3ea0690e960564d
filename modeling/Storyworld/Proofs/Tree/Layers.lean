import Storyworld.Proofs.Tree.Overlay

/-!
Layers of trees. The upper one wins at its leaves, and the lower one stays wherever the upper one ends
before it does. Maps have the keys of both, the lower ones first, and lists are as long as the longer one.
A layer that is there already changes nothing, so neither does a second time, nor a tree laid over itself.
-/

namespace Storyworld.Tree

variable {t s x y : Tree} {step : Segment} {q : Path} {fields source : Fields} {items above : List Tree}

theorem SameKinds.cons (hk : t.kind = s.kind)
    (h : ∀ c v, t.child? step = some c → s.child? step = some v → SameKinds c v q) :
    SameKinds t s (step :: q) := by
  intro p hp x y hx hy
  rw [List.prefix_cons_iff] at hp
  obtain rfl | ⟨p, rfl, hp⟩ := hp
  · obtain rfl := eq_of_get?_root hx
    obtain rfl := eq_of_get?_root hy
    exact hk
  · obtain ⟨c, hc, hx⟩ := get?_cons_eq_some.mp hx
    obtain ⟨v, hv, hy⟩ := get?_cons_eq_some.mp hy
    exact h c v hc hv p hp x y hx hy

-- Where both trees have something, the one is laid over the other.
theorem get?_merge_both (hk : SameKinds t s q) (hs : s.KeysOnce) (hx : t.get? q = some x)
    (hy : s.get? q = some y) : (t.merge s).get? q = some (x.merge y) := by
  induction q generalizing t s
  case nil =>
    obtain rfl := eq_of_get?_root hx
    obtain rfl := eq_of_get?_root hy
    exact get?_root
  case cons step q ih =>
    obtain ⟨c, hc, hx⟩ := get?_cons_eq_some.mp hx
    obtain ⟨v, hv, hy⟩ := get?_cons_eq_some.mp hy
    have hr := hk [] List.nil_prefix t s get?_root get?_root
    refine get?_cons_eq_some.mpr ⟨c.merge v, by rw [child?_merge hr hs, hc, hv]; rfl, ?_⟩
    exact ih (hk.tail hc hv) (hs.child? hv) hx hy

-- A map that has all entries of another one, each with what it says, is not changed by it.
theorem mergeFields_of_held (hf : fields.keys.Nodup) (hs : source.keys.Nodup)
    (h : ∀ k y, source.get? k = some y → ∃ x : Tree, fields.get? k = some x ∧ x.merge y = x) :
    mergeFields fields source = fields := by
  have hk : source.keys.filter (· ∉ fields.keys) = [] := by
    refine List.filter_eq_nil_iff.mpr fun k hk => ?_
    obtain ⟨y, hy⟩ := Fields.mem_keys.mp hk
    obtain ⟨x, hx, -⟩ := h k y hy
    simpa using Fields.mem_keys.mpr ⟨x, hx⟩
  have he : (mergeFields fields source).keys = fields.keys := by
    rw [keys_mergeFields hs, hk, List.append_nil]
  refine Fields.ext_get? he (he ▸ hf) fun k => ?_
  rw [get?_mergeFields hs]
  cases hy : source.get? k
  case none   => rfl
  case some y =>
    obtain ⟨x, hx, hm⟩ := h k y hy
    simp [hx, hm]

theorem mergeItems_of_held
    (h : ∀ (i : Nat) y, above[i]? = some y → ∃ x : Tree, items[i]? = some x ∧ x.merge y = x) :
    mergeItems items above = items := by
  refine List.ext_getElem? fun i => ?_
  rw [getElem?_mergeItems]
  cases hy : above[i]?
  case none   => rfl
  case some y =>
    obtain ⟨x, hx, hm⟩ := h i y hy
    simp [hx, hm]

theorem KeysOnce.getD_null {x? : Option Tree} (h : ∀ x, x? = some x → x.KeysOnce) :
    (x?.getD null).KeysOnce := by
  cases x?
  case none   => exact .leaf rfl
  case some x => exact h x rfl

-- By induction on the upper tree, since what it is laid over grows with every entry.
theorem KeysOnce.merge_again (ht : t.KeysOnce) (hs : s.KeysOnce) :
    (t.merge s).merge s = t.merge s := by
  induction hs generalizing t
  case leaf h => rw [merge_leaf h, merge_leaf h]
  case arr above h ih =>
    by_cases hk : t.kind = (Tree.arr above).kind
    case neg => rw [merge_of_kind_ne hk, (KeysOnce.arr h).merge_self]
    case pos =>
      obtain ⟨items, rfl⟩ := exists_arr_of_kind hk
      rw [merge_arr, merge_arr]
      refine congrArg Tree.arr <| mergeItems_of_held fun i y hy => ?_
      refine ⟨(items[i]?.getD null).merge y, by rw [getElem?_mergeItems, hy]; rfl, ?_⟩
      exact ih y (List.mem_of_getElem? hy) <| getD_null fun x hx => ht.item x (List.mem_of_getElem? hx)
  case obj source hn h ih =>
    by_cases hk : t.kind = (Tree.obj source).kind
    case neg => rw [merge_of_kind_ne hk, (KeysOnce.obj hn h).merge_self]
    case pos =>
      obtain ⟨fields, rfl⟩ := exists_obj_of_kind hk
      rw [merge_obj, merge_obj]
      refine congrArg Tree.obj <| mergeFields_of_held (nodup_keys_mergeFields ht.nodup_keys hn) hn fun k y hy => ?_
      refine ⟨((Fields.get? k fields).getD null).merge y, by rw [get?_mergeFields hn, hy]; rfl, ?_⟩
      exact ih _ (Fields.mem_of_get? hy) <| getD_null fun x hx => ht.entry _ (Fields.mem_of_get? hx)

-- What the tree `r` is, which has come of `s` laid over `t`.
structure Overlays (t s r : Tree) : Prop where
  -- Every leaf of the upper tree is there.
  leaves : ∀ q x, s.get? q = some x → x.isComposite = false → r.get? q = some x
  -- What the lower tree has and the upper one does not stays, unless something on the way there is replaced.
  kept   : ∀ q x, t.get? q = some x → s.get? q = none → SameKinds t s q → r.get? q = some x
  -- Containers of one kind are joined wherever they stand.
  maps   : ∀ q fields source, SameKinds t s q → t.get? q = some (.obj fields) → s.get? q = some (.obj source) →
    ∃ joined, r.get? q = some (.obj joined) ∧
      Fields.keys joined = Fields.keys fields ++ (Fields.keys source).filter (· ∉ Fields.keys fields)
  lists  : ∀ q items above, SameKinds t s q → t.get? q = some (.arr items) → s.get? q = some (.arr above) →
    ∃ joined, r.get? q = some (.arr joined) ∧ joined.length = max items.length above.length
  again  : r.merge s = r

theorem merge_overlays (ht : t.KeysOnce) (hs : s.KeysOnce) :
    Overlays t s (t.merge s) ∧ t.merge t = t := by
  refine ⟨?_, ht.merge_self⟩
  exact {
    leaves := fun q x hx hl => get?_merge_leaf hs hx hl
    kept   := fun q x hx hn hk => get?_merge_kept hk hs hn hx
    maps   := fun q fields source hk hx hy =>
      ⟨_, (get?_merge_both hk hs hx hy).trans (congrArg some merge_obj),
        keys_mergeFields (hs.get? hy).nodup_keys⟩
    lists  := fun q items above hk hx hy =>
      ⟨_, (get?_merge_both hk hs hx hy).trans (congrArg some merge_arr), length_mergeItems⟩
    again  := ht.merge_again hs }

-- A camp that was left in haste, and what was found there later.
def camp : Tree :=
  .obj [("tent", .obj [("poles", .arr [.str "ash", .str "oak", .str "elm"]), ("torn", .bool false)]),
    ("fire", .str "lit")]

def remains : Tree :=
  .obj [("ashes", .bool true), ("fire", .obj [("warm", .bool true)]),
    ("tent", .obj [("torn", .bool true), ("poles", .arr [.null])])]

theorem camp_remains :
    camp.KeysOnce ∧ remains.KeysOnce ∧
      (camp.merge remains).get? [.key "fire", .key "warm"] = some (.bool true) ∧
      (camp.merge remains).get? [.key "tent", .key "poles", .index 0] = some .null ∧
      (camp.merge remains).get? [.key "tent", .key "poles", .index 2] = some (.str "elm") ∧
      (∃ joined, camp.merge remains = .obj joined ∧ Fields.keys joined = ["tent", "fire", "ashes"]) ∧
      (camp.merge remains).merge remains = camp.merge remains ∧ camp.merge camp = camp := by
  have ht : camp.KeysOnce := by decide
  have hs : remains.KeysOnce := by decide
  obtain ⟨h, hc⟩ := merge_overlays ht hs
  -- The fire is of another kind now, but neither of the two paths leads there.
  have hk : SameKinds camp remains [.key "tent", .key "poles", .index 2] := by
    refine .cons rfl fun c v hc hv => ?_
    cases hc
    cases hv
    refine .cons rfl fun c v hc hv => ?_
    cases hc
    cases hv
    exact .cons rfl fun c v hc hv => by cases hv
  have hr : SameKinds camp remains [] := fun p hp => hk p (hp.trans List.nil_prefix)
  obtain ⟨joined, hj, hkeys⟩ := h.maps [] _ _ hr get?_root get?_root
  exact ⟨ht, hs, h.leaves _ _ rfl rfl, h.leaves _ _ rfl rfl, h.kept _ _ rfl rfl hk,
    ⟨joined, Option.some.inj (get?_root.symm.trans hj), hkeys⟩, h.again, hc⟩

end Storyworld.Tree
