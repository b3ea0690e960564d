import Storyworld.Proofs.Tree.Place

/-!
One value of a tree replaced by another one. All else is the same, item by item and entry by entry, and
in the same order.
-/

namespace Storyworld

namespace Fields

variable {fields before after : Fields} {key : String} {f : Option Tree → Tree} {v : Tree}

theorem exists_split (h : fields.get? key = some v) :
    ∃ before after, fields = before ++ (key, v) :: after ∧ key ∉ keys before := by
  induction fields
  case nil => simp at h
  case cons e fields ih =>
    by_cases hk : e.1 = key
    case pos =>
      obtain rfl : e.2 = v := by simpa [get?, hk] using h
      exact ⟨[], fields, by simp [← hk], by simp [keys]⟩
    case neg =>
      obtain ⟨before, after, rfl, hb⟩ := ih (by simpa [get?, hk] using h)
      exact ⟨e :: before, after, rfl, notMem_keys_cons.mpr ⟨Ne.symm hk, hb⟩⟩

theorem alter_split (h : key ∉ keys before) :
    alter key f (before ++ (key, v) :: after) = before ++ (key, f (some v)) :: after := by
  rw [alter_append h, alter, if_pos rfl]

end Fields

namespace Tree

variable {t v w : Tree} {p : Path}

inductive Replaced (v w : Tree) : Path → Tree → Tree → Prop where
  | here : Replaced v w [] v w
  | item {x x' : Tree} {step : Segment} {rest : Path} {before after : List Tree}
    (hi : step.index? = some before.length) (h : Replaced v w rest x x') :
    Replaced v w (step :: rest) (.arr (before ++ x :: after)) (.arr (before ++ x' :: after))
  | entry {x x' : Tree} {step : Segment} {rest : Path} {before after : Fields}
    (hk : step.name ∉ before.keys) (h : Replaced v w rest x x') :
    Replaced v w (step :: rest) (.obj (before ++ (step.name, x) :: after))
      (.obj (before ++ (step.name, x') :: after))

-- A write where something stands makes no container, fills no list up and puts nothing out of order.
theorem replaced_set (h : t.get? p = some v) : Replaced v w p t (t.set p w) := by
  induction p generalizing t
  case nil =>
    obtain rfl := eq_of_get?_root h
    exact set_root ▸ .here
  case cons step rest ih =>
    obtain ⟨c, hc, hv⟩ := get?_cons_eq_some.mp h
    obtain ⟨fields, rfl⟩ | ⟨items, i, rfl, hi⟩ | hn := t.enters?_cases step
    · obtain ⟨before, after, rfl, hk⟩ := Fields.exists_split hc
      rw [set_obj, Fields.alter_split hk]
      exact .entry hk (ih hv)
    · have hx : items[i]? = some c := by simpa [child?, hi] using hc
      obtain ⟨hlt, he⟩ := List.getElem?_eq_some_iff.mp hx
      obtain ⟨before, after, hs, rfl, hs'⟩ := @List.exists_of_set _ i (c.set rest w) _ hlt
      rw [set_arr hi, alterItem_of_getElem? hx, Option.getD_some, hs', hs, he]
      exact .item hi (ih hv)
    · simp [child?_of_enters?_none hn] at hc

end Tree

end Storyworld
