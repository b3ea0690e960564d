import Storyworld.Proofs.Tree.KeysOnce
import Storyworld.Proofs.Tree.Place

/-!
One tree laid over another. Where both are containers of one kind they are joined child by child, and
elsewhere the upper one stands alone. So nothing of the upper tree is lost, what it says nothing about
stays, and a tree laid over what it already covers changes nothing.
-/

namespace Storyworld

namespace Fields

variable {fields other : Fields} {key : String}

theorem get?_cons {e : String × Tree} :
    get? key (e :: fields) = if e.1 = key then some e.2 else get? key fields := rfl

-- A map is known by the order of its keys and by what is found under them.
theorem ext_get? (hk : keys fields = keys other) (hn : (keys fields).Nodup)
    (h : ∀ k, get? k fields = get? k other) : fields = other := by
  induction fields generalizing other
  case nil => exact (List.map_eq_nil_iff.mp hk.symm).symm
  case cons e fields ih =>
    cases other
    case nil => cases hk
    case cons e' other =>
      obtain ⟨he, hk⟩ : e.1 = e'.1 ∧ keys fields = keys other := List.cons.inj hk
      obtain ⟨hm, hn⟩ := List.nodup_cons.mp hn
      have hv : e = e' := Prod.ext he <| by simpa [get?_cons, he] using h e.1
      have ht : fields = other := ih hk hn fun k => by
        by_cases hek : e.1 = k
        case pos =>
          subst hek
          rw [get?_eq_none_iff.mpr hm, get?_eq_none_iff.mpr (hk ▸ hm)]
        case neg => simpa [get?_cons, hek, hv ▸ hek] using h k
      rw [hv, ht]

end Fields

namespace Tree

variable {t s c v x : Tree} {a : Segment} {q : Path} {fields source : Fields} {items above : List Tree}
  {k : String} {i : Nat}

/-! ## Child by child -/

theorem merge_leaf (h : s.isComposite = false) : t.merge s = s := by
  cases s <;> simp_all [merge, isComposite]

theorem merge_of_kind_ne (h : t.kind ≠ s.kind) : t.merge s = s := by
  cases s <;> cases t <;> simp_all [merge, kind]

@[simp] theorem null_merge : null.merge s = s := by
  cases s <;> simp [merge]

theorem mergeFields_cons {e : String × Tree} :
    mergeFields fields (e :: source) =
      mergeFields (fields.alter e.1 fun old? => (old?.getD null).merge e.2) source := by
  rw [mergeFields]
  congr 2
  funext old?
  cases old? <;> simp

theorem get?_mergeFields_of_not_mem (h : k ∉ source.keys) :
    (mergeFields fields source).get? k = fields.get? k := by
  induction source generalizing fields
  case nil => rw [mergeFields]
  case cons e source ih =>
    have ⟨hk, hs⟩ := Fields.notMem_keys_cons.mp h
    rw [mergeFields_cons, ih hs, Fields.get?_alter_of_ne hk]

theorem mem_keys_mergeFields :
    k ∈ (mergeFields fields source).keys ↔ k ∈ fields.keys ∨ k ∈ source.keys := by
  induction source generalizing fields
  case nil => simp [mergeFields, Fields.keys]
  case cons e source ih =>
    rw [mergeFields_cons, ih, Fields.mem_keys_alter]
    simp [Fields.keys, or_assoc, or_left_comm]

theorem get?_mergeFields (h : source.keys.Nodup) :
    (mergeFields fields source).get? k =
      (source.get? k).elim (fields.get? k) fun v => some (((fields.get? k).getD null).merge v) := by
  induction source generalizing fields
  case nil => rw [mergeFields]; rfl
  case cons e source ih =>
    obtain ⟨hn, h⟩ := List.nodup_cons.mp h
    rw [mergeFields_cons, Fields.get?_cons]
    split
    case isTrue he =>
      subst he
      rw [get?_mergeFields_of_not_mem hn, Fields.get?_alter_self]
      rfl
    case isFalse he => rw [ih h, Fields.get?_alter_of_ne (Ne.symm he)]

-- New keys come last, in their own order.
theorem keys_mergeFields (h : source.keys.Nodup) :
    (mergeFields fields source).keys = fields.keys ++ source.keys.filter (· ∉ fields.keys) := by
  induction source generalizing fields
  case nil => simp [mergeFields, Fields.keys]
  case cons e source ih =>
    obtain ⟨hn, h⟩ := List.nodup_cons.mp h
    have hs : Fields.keys (e :: source) = e.1 :: Fields.keys source := rfl
    rw [mergeFields_cons, ih h, Fields.keys_alter, hs]
    by_cases he : e.1 ∈ fields.keys
    case pos => simp [he]
    case neg =>
      have hf : (Fields.keys source).filter (· ∉ fields.keys ++ [e.1]) =
          (Fields.keys source).filter (· ∉ fields.keys) :=
        List.filter_congr fun k hk => by
          have hne : k ≠ e.1 := fun h => hn (h ▸ hk)
          simp [hne]
      rw [if_neg he, hf, List.filter_cons_of_pos (by simpa using he), List.append_assoc]
      rfl

theorem getElem?_mergeItems :
    (mergeItems items above)[i]? =
      above[i]?.elim items[i]? fun v => some ((items[i]?.getD null).merge v) := by
  induction above generalizing items i
  case nil => rw [mergeItems]; simp
  case cons v above ih =>
    cases items
    case nil =>
      rw [mergeItems]
      cases h : (v :: above)[i]? <;> simp
    case cons old items =>
      rw [mergeItems]
      cases i
      case zero   => simp
      case succ i => simpa using ih

theorem length_mergeItems : (mergeItems items above).length = max items.length above.length := by
  induction above generalizing items
  case nil             => rw [mergeItems]; simp
  case cons v above ih => cases items <;> simp [mergeItems, ih]

theorem merge_obj : (obj fields).merge (obj source) = obj (mergeFields fields source) := by
  rw [merge]

theorem merge_arr : (arr items).merge (arr above) = arr (mergeItems items above) := by
  rw [merge]

theorem exists_obj_of_kind (h : t.kind = (obj source).kind) : ∃ fields, t = obj fields := by
  cases t <;> simp_all [kind]

theorem exists_arr_of_kind (h : t.kind = (arr above).kind) : ∃ items, t = arr items := by
  cases t <;> simp_all [kind]

theorem child?_merge (hk : t.kind = s.kind) (hs : s.KeysOnce) :
    (t.merge s).child? a =
      (s.child? a).elim (t.child? a) fun v => some (((t.child? a).getD null).merge v) := by
  cases hs
  case leaf h =>
    rw [merge_leaf h]
    cases t <;> cases s <;> simp_all [kind, child?, isComposite]
  case obj hn _ =>
    obtain ⟨fields, rfl⟩ := exists_obj_of_kind hk
    rw [merge_obj]
    exact get?_mergeFields hn
  case arr =>
    obtain ⟨items, rfl⟩ := exists_arr_of_kind hk
    rw [merge_arr]
    cases hi : a.index? <;> simp [child?, hi, getElem?_mergeItems]

/-! ## What is found in an overlay -/

-- As far as both trees have values on the way to the path, these are of the same kinds.
def SameKinds (t s : Tree) (q : Path) : Prop :=
  ∀ p, p <+: q → ∀ x y, t.get? p = some x → s.get? p = some y → x.kind = y.kind

theorem SameKinds.tail (h : SameKinds t s (a :: q)) (ht : t.child? a = some c) (hs : s.child? a = some v) :
    SameKinds c v q := by
  intro p hp x y hx hy
  exact h (a :: p) (List.cons_prefix_cons.mpr ⟨rfl, hp⟩) x y (by simp [ht, hx]) (by simp [hs, hy])

theorem get?_merge_leaf (hs : s.KeysOnce) (hx : s.get? q = some x) (hl : x.isComposite = false) :
    (t.merge s).get? q = some x := by
  induction q generalizing t s
  case nil =>
    obtain rfl := eq_of_get?_root hx
    rw [merge_leaf hl, get?_root]
  case cons a q ih =>
    by_cases hk : t.kind = s.kind
    case neg => rwa [merge_of_kind_ne hk]
    case pos =>
      obtain ⟨c, hc, hx⟩ := get?_cons_eq_some.mp hx
      refine get?_cons_eq_some.mpr ⟨_, by rw [child?_merge hk hs, hc]; rfl, ?_⟩
      exact ih (hs.child? hc) hx

theorem get?_merge_kept (hk : SameKinds t s q) (hs : s.KeysOnce) (hn : s.get? q = none)
    (hx : t.get? q = some x) : (t.merge s).get? q = some x := by
  induction q generalizing t s
  case nil => simp at hn
  case cons a q ih =>
    obtain ⟨c, hc, hx⟩ := get?_cons_eq_some.mp hx
    have hr := hk [] List.nil_prefix t s get?_root get?_root
    rw [get?_cons, child?_merge hr hs, hc]
    cases hv : s.child? a
    case none   => exact hx
    case some v => exact ih (hk.tail hc hv) (hs.child? hv) (by simpa [hv] using hn) hx

/-! ## Covers -/

-- Where a map has the entries of another one first and covers each of them, nothing shines through.
theorem mergeFields_of_covers {more : List String} (hn : source.keys.Nodup)
    (hk : source.keys = fields.keys ++ more)
    (h : ∀ k (x y : Tree), fields.get? k = some x → source.get? k = some y → x.merge y = y) :
    mergeFields fields source = source := by
  have hf : source.keys.filter (· ∉ fields.keys) = more := by
    rw [hk, List.nodup_append] at hn
    rw [hk, List.filter_append, List.filter_eq_nil_iff.mpr (by simp), List.nil_append, List.filter_eq_self]
    exact fun k hm => by simpa using fun hm' => hn.2.2 k hm' k hm rfl
  have hs : (mergeFields fields source).keys = source.keys := by rw [keys_mergeFields hn, hf, hk]
  refine Fields.ext_get? hs (hs ▸ hn) fun k => ?_
  rw [get?_mergeFields hn]
  cases hy : source.get? k
  case none =>
    rw [Fields.get?_eq_none_iff, hk, List.mem_append, not_or] at hy
    exact Fields.get?_eq_none_iff.mpr hy.1
  case some y =>
    cases hx : fields.get? k
    case none   => simp
    case some x => exact congrArg some (h k x y hx hy)

theorem mergeItems_of_covers (hl : items.length ≤ above.length)
    (h : ∀ (i : Nat) (x y : Tree), items[i]? = some x → above[i]? = some y → x.merge y = y) :
    mergeItems items above = above := by
  refine List.ext_getElem? fun i => ?_
  rw [getElem?_mergeItems]
  cases hy : above[i]?
  case none =>
    rw [List.getElem?_eq_none_iff] at hy
    exact List.getElem?_eq_none (Nat.le_trans hl hy)
  case some y =>
    cases hx : items[i]?
    case none   => simp
    case some x => exact congrArg some (h i x y hx hy)

theorem KeysOnce.merge_self (h : t.KeysOnce) : t.merge t = t := by
  induction h
  case leaf h => exact merge_leaf h
  case arr items h ih =>
    refine merge_arr.trans <| congrArg Tree.arr <| mergeItems_of_covers (Nat.le_refl _) fun i x y hx hy => ?_
    obtain rfl := Option.some.inj <| hx.symm.trans hy
    exact ih x (List.mem_of_getElem? hx)
  case obj fields hn h ih =>
    refine merge_obj.trans <| congrArg Tree.obj <|
      mergeFields_of_covers hn (List.append_nil _).symm fun k x y hx hy => ?_
    obtain rfl := Option.some.inj <| hx.symm.trans hy
    exact ih _ (Fields.mem_of_get? hx)

theorem nodup_keys_mergeFields (hf : fields.keys.Nodup) (hs : source.keys.Nodup) :
    (mergeFields fields source).keys.Nodup := by
  rw [keys_mergeFields hs, List.nodup_append]
  exact ⟨hf, hs.filter _, fun k hk l hl he => by simp_all⟩

-- A child covers what it has been laid over, or is what has stayed.
theorem KeysOnce.merge_eq_of_overlaid {v? : Option Tree} (hx : x.KeysOnce)
    (h : ∀ v, v? = some v → x.merge (x.merge v) = x.merge v)
    (hc : v?.elim (some x) (fun v => some (x.merge v)) = some c) : x.merge c = c := by
  cases v?
  case none =>
    obtain rfl := Option.some.inj hc
    exact hx.merge_self
  case some v =>
    obtain rfl := Option.some.inj hc
    exact h v rfl

-- What has been laid over a tree covers it.
theorem KeysOnce.merge_merge (ht : t.KeysOnce) (hs : s.KeysOnce) : t.merge (t.merge s) = t.merge s := by
  induction hs generalizing t
  case leaf h => rw [merge_leaf h, merge_leaf h]
  case arr above h ih =>
    by_cases hk : t.kind = (Tree.arr above).kind
    case neg => rw [merge_of_kind_ne hk, merge_of_kind_ne hk]
    case pos =>
      obtain ⟨items, rfl⟩ := exists_arr_of_kind hk
      rw [merge_arr, merge_arr]
      have hl : items.length ≤ (mergeItems items above).length := length_mergeItems ▸ Nat.le_max_left ..
      refine congrArg Tree.arr <| mergeItems_of_covers hl fun i x y hx hy => ?_
      have hx' : x.KeysOnce := ht.child? (a := .index i) hx
      rw [getElem?_mergeItems, hx] at hy
      exact hx'.merge_eq_of_overlaid (fun v hv => ih v (List.mem_of_getElem? hv) hx') hy
  case obj source hn h ih =>
    by_cases hk : t.kind = (Tree.obj source).kind
    case neg => rw [merge_of_kind_ne hk, merge_of_kind_ne hk]
    case pos =>
      obtain ⟨fields, rfl⟩ := exists_obj_of_kind hk
      rw [merge_obj, merge_obj]
      refine congrArg Tree.obj <| mergeFields_of_covers (nodup_keys_mergeFields ht.nodup_keys hn)
        (keys_mergeFields hn) fun k x y hx hy => ?_
      have hx' : x.KeysOnce := ht.child? (a := .key k) hx
      rw [get?_mergeFields hn, hx] at hy
      exact hx'.merge_eq_of_overlaid (fun v hv => ih _ (Fields.mem_of_get? hv) hx') hy

end Tree

end Storyworld
