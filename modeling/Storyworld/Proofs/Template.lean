import Storyworld.Proofs.Tree.Overlay
import Storyworld.Template

/-!
What a template does to a value. The value keeps all it says, the template adds what the value leaves
open, and a value that has been filled in is left alone by the same template, unless this one puts its
items behind those of a list each time.
-/

namespace Storyworld.Template

variable {strict concat : Bool} {t v r x : Tree} {q : Path} {defaults items : List Tree} {d f : Fields}

-- A single value that a list template takes for a list of one.
def Wraps (strict : Bool) (t v : Tree) : Prop :=
  strict = false ∧ v.isComposite = false ∧ ∃ defaults, t = .arr defaults

structure Completes (strict concat : Bool) (t v r : Tree) : Prop where
  -- In a list that is made for it the value comes first.
  wins  : ∀ q x, v.get? q = some x → x.isComposite = false →
    (¬Wraps strict t v → r.get? q = some x) ∧ (Wraps strict t v → r.get? (.index 0 :: q) = some x)
  maps  : ∀ d f, t = .obj d → v = .obj f → ∃ filled, r = .obj filled ∧
    Fields.keys filled = Fields.keys d ++ (Fields.keys f).filter (· ∉ Fields.keys d) ∧
    ∀ q x, t.get? q = some x → v.get? q = none → t.SameKinds v q → r.get? q = some x
  lists : ∀ defaults items, t = .arr defaults → v = .arr items ∨ Wraps strict t v ∧ items = [v] →
    r = .arr (items ++ if concat then defaults else defaults.drop items.length)
  other : ¬(t.isComposite ∧ t.kind = v.kind) → ¬Wraps strict t v → r = v
  again : apply strict concat (some t) r = r ↔
    ¬(concat ∧ (∃ items, r = .arr items) ∧ ∃ defaults, t = .arr defaults ∧ defaults ≠ [])

theorem apply_maps : apply strict concat (some (.obj d)) (.obj f) = (Tree.obj d).merge (.obj f) := rfl

theorem apply_lists :
    apply strict concat (some (.arr defaults)) (.arr items) = .arr (fill concat items defaults) := rfl

theorem apply_wrapped (h : Wraps strict (.arr defaults) v) :
    apply strict concat (some (.arr defaults)) v = .arr (fill concat [v] defaults) := by
  obtain ⟨rfl, hv, -⟩ := h
  cases v <;> first | rfl | cases hv

theorem apply_other (hk : ¬(t.isComposite ∧ t.kind = v.kind)) (hw : ¬Wraps strict t v) :
    apply strict concat (some t) v = v := by
  cases t <;> cases v <;> simp_all [apply, Wraps, Tree.kind, Tree.isComposite]

-- Whatever is done to it, a value is taken in one of these ways.
theorem pairing (strict : Bool) (t v : Tree) :
    (∃ d f, t = .obj d ∧ v = .obj f) ∨ (∃ defaults items, t = .arr defaults ∧ v = .arr items) ∨
      Wraps strict t v ∨ ¬(t.isComposite ∧ t.kind = v.kind) ∧ ¬Wraps strict t v := by
  by_cases hw : Wraps strict t v
  case pos => exact .inr <| .inr <| .inl hw
  case neg => cases t <;> cases v <;> simp_all [Tree.kind, Tree.isComposite]

theorem not_wraps (h : v.isComposite) : ¬Wraps strict t v := by
  simp [Wraps, h]

theorem fill_eq :
    fill concat items defaults = items ++ if concat then defaults else defaults.drop items.length := by
  unfold fill
  split <;> rfl

theorem get?_fill (h : (Tree.arr items).get? q = some x) (hx : x.isComposite = false) :
    (Tree.arr (fill concat items defaults)).get? q = some x := by
  cases q
  case nil =>
    obtain rfl := Tree.eq_of_get?_root h
    cases hx
  case cons a q =>
    obtain ⟨c, hc, h⟩ := Tree.get?_cons_eq_some.mp h
    obtain ⟨i, hi, hc⟩ := Tree.child?_arr.mp hc
    refine Tree.get?_cons_eq_some.mpr ⟨c, Tree.child?_arr.mpr ⟨i, hi, ?_⟩, h⟩
    rw [fill_eq, List.getElem?_append_left (List.getElem?_eq_some_iff.mp hc).1, hc]

theorem get?_wrapped (h : Wraps strict t v) (hq : v.get? q = some x) :
    (apply strict concat (some t) v).get? (.index 0 :: q) = some x := by
  obtain ⟨_, _, defaults, rfl⟩ := id h
  refine Tree.get?_cons_eq_some.mpr ⟨v, ?_, hq⟩
  rw [apply_wrapped h, fill_eq]
  rfl

theorem get?_apply (hv : v.KeysOnce) (hw : ¬Wraps strict t v) (hq : v.get? q = some x)
    (hx : x.isComposite = false) : (apply strict concat (some t) v).get? q = some x := by
  obtain ⟨d, f, rfl, rfl⟩ | ⟨defaults, items, rfl, rfl⟩ | h | ⟨hk, -⟩ := pairing strict t v
  · exact Tree.get?_merge_leaf hv hq hx
  · exact get?_fill hq hx
  · exact absurd h hw
  · rwa [apply_other hk hw]

theorem fill_again :
    fill concat (fill concat items defaults) defaults = fill concat items defaults ↔
      ¬(concat ∧ defaults ≠ []) := by
  cases concat
  case true  => simp [fill_eq]
  case false => simp [fill_eq]; omega

theorem apply_again (ht : t.KeysOnce) (hv : v.KeysOnce) (hr : apply strict concat (some t) v = r) :
    apply strict concat (some t) r = r ↔
      ¬(concat ∧ (∃ items, r = .arr items) ∧ ∃ defaults, t = .arr defaults ∧ defaults ≠ []) := by
  subst hr
  obtain ⟨d, f, rfl, rfl⟩ | ⟨defaults, items, rfl, rfl⟩ | h | ⟨hk, hw⟩ := pairing strict t v
  · have hm : (Tree.obj d).merge (.obj f) = .obj (Tree.mergeFields d f) := Tree.merge_obj
    rw [apply_maps, hm, apply_maps, ← hm, ht.merge_merge hv]
    simp
  · rw [apply_lists, apply_lists, Tree.arr.injEq, fill_again]
    simp
  · obtain ⟨_, _, defaults, rfl⟩ := id h
    rw [apply_wrapped h, apply_lists, Tree.arr.injEq, fill_again]
    simp
  · rw [apply_other hk hw, apply_other hk hw]
    refine iff_of_true rfl ?_
    rintro ⟨-, ⟨items, rfl⟩, defaults, rfl, -⟩
    exact hk ⟨rfl, rfl⟩

theorem apply_completes (strict concat : Bool) (ht : t.KeysOnce) (hv : v.KeysOnce) :
    Completes strict concat t v (apply strict concat (some t) v) where
  wins q x hq hx := ⟨fun hw => get?_apply hv hw hq hx, fun hw => get?_wrapped hw hq⟩
  maps d f ht hf := by
    subst ht hf
    refine ⟨_, Tree.merge_obj, Tree.keys_mergeFields hv.nodup_keys, fun q x hx hn hk => ?_⟩
    exact Tree.get?_merge_kept hk hv hn hx
  lists defaults items hd hi := by
    subst hd
    obtain rfl | ⟨hw, rfl⟩ := hi
    · rw [apply_lists, fill_eq]
    · rw [apply_wrapped hw, fill_eq]
  other hk hw := apply_other hk hw
  again := apply_again ht hv rfl

def lamp : Tree :=
  .obj [("lit", .bool false), ("fuel", .obj [("kind", .str "oil"), ("full", .bool true)]),
    ("marks", .arr [.str "scratch", .str "dent"])]

def lantern : Tree :=
  .obj [("owner", .str "Ada"), ("marks", .arr [.str "rust"]), ("fuel", .obj [("kind", .str "tallow")])]

-- The lantern burns tallow and has its own mark first, and all else is as in any lamp.
theorem lantern_completes :
    lamp.KeysOnce ∧ lantern.KeysOnce ∧
      ∃ filled, apply false true (some lamp) lantern = .obj filled ∧
        Fields.keys filled = ["lit", "fuel", "marks", "owner"] ∧
        (Tree.obj filled).get? [.key "fuel", .key "kind"] = some (.str "tallow") ∧
        (Tree.obj filled).get? [.key "marks", .index 1] = some (.str "dent") ∧
        apply false true (some lamp) (.obj filled) = .obj filled := by
  have hl : lamp.KeysOnce := by decide
  have hv : lantern.KeysOnce := by decide
  have hs : lamp.SameKinds lantern [.key "marks", .index 1] := by
    intro q hq x y hx hy
    obtain rfl | ⟨q₁, rfl, hq₁⟩ := List.prefix_cons_iff.mp hq
    · cases hx
      cases hy
      rfl
    obtain rfl | ⟨q₂, rfl, hq₂⟩ := List.prefix_cons_iff.mp hq₁
    · cases hx
      cases hy
      rfl
    obtain rfl := List.prefix_nil.mp hq₂
    cases hy
  have h := apply_completes false true hl hv
  obtain ⟨filled, hr, hk, hd⟩ := h.maps _ _ rfl rfl
  have hf := (h.wins [.key "fuel", .key "kind"] _ rfl rfl).1 (not_wraps rfl)
  rw [hr] at h hf hd
  exact ⟨hl, hv, filled, hr, hk.trans (by decide), hf, hd _ _ rfl rfl hs, h.again.mpr (by simp)⟩

end Storyworld.Template
