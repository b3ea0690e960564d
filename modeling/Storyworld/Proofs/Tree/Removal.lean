import Storyworld.Proofs.Tree.Replacement

/-!
One item or entry taken out of its container. The others keep their values and their order, and so does
all that lies outside the container.
-/

namespace Storyworld

namespace Fields

variable {before after : Fields} {key : String} {v : Tree}

theorem erase_split (h : key ∉ keys before) :
    erase key (before ++ (key, v) :: after) = before ++ after := by
  induction before
  case nil => simp [erase]
  case cons e before ih =>
    obtain ⟨hk, hb⟩ := notMem_keys_cons.mp h
    simp [erase, Ne.symm hk, ih hb]

end Fields

namespace Tree

variable {t c d x : Tree} {p : Path} {step st : Segment} {items : List Tree} {fields : Fields} {i : Nat}
  {key : String}

-- The container loses the child that a step in its own terms leads to.
inductive Loses (x : Tree) : Segment → Tree → Tree → Prop where
  | item {before after : List Tree} :
    Loses x (.index before.length) (.arr (before ++ x :: after)) (.arr (before ++ after))
  | entry {key : String} {before after : Fields} (hk : key ∉ before.keys) :
    Loses x (.key key) (.obj (before ++ (key, x) :: after)) (.obj (before ++ after))

theorem loses_eraseIdx (h : items[i]? = some x) :
    Loses x (.index i) (.arr items) (.arr (items.eraseIdx i)) := by
  obtain ⟨hl, he⟩ := List.getElem?_eq_some_iff.mp h
  obtain ⟨before, after, hs, rfl, -⟩ := @List.exists_of_set _ i null _ hl
  rw [he] at hs
  rw [hs, List.eraseIdx_append_of_length_le (Nat.le_refl _), Nat.sub_self, List.eraseIdx_cons_zero]
  exact .item

theorem loses_erase (h : fields.get? key = some x) :
    Loses x (.key key) (.obj fields) (.obj (fields.erase key)) := by
  obtain ⟨before, after, rfl, hk⟩ := Fields.exists_split h
  rw [Fields.erase_split hk]
  exact .entry hk

theorem exists_detach? (h : c.child? step = some x) (hs : c.enters? step = some st) :
    ∃ d, c.detach? step = some (x, d) ∧ Loses x st c d := by
  cases c <;> simp only [child?, reduceCtorEq] at h
  case obj fields =>
    obtain rfl := Option.some.inj <| enters?_obj.symm.trans hs
    exact ⟨_, by simp [detach?, h], loses_erase h⟩
  case arr items =>
    obtain ⟨i, hi, hx⟩ := Option.bind_eq_some_iff.mp h
    obtain rfl : .index i = st := by simpa [hi] using hs
    exact ⟨_, by simp [detach?, hi, hx], loses_eraseIdx hx⟩

theorem unset?_cons (h : t.child? step = some c) (hp : p ≠ []) :
    t.unset? (step :: p) = (c.unset? p).map fun r => (r.1, t.replaceChild step r.2) := by
  cases p
  case nil => exact absurd rfl hp
  case cons next rest =>
    rw [unset?, h]
    cases hu : c.unset? (next :: rest) <;> simp [hu]
    simp

-- What is taken out at a path is taken out of the container above.
theorem unset?_child (h : t.get? p = some c) :
    t.unset? (p.child step) = (c.detach? step).map fun r => (r.1, t.set p r.2) := by
  induction p generalizing t
  case nil =>
    obtain rfl := eq_of_get?_root h
    simp [Path.child, unset?]
  case cons first rest ih =>
    obtain ⟨child, hc, hv⟩ := get?_cons_eq_some.mp h
    calc t.unset? (Path.child (first :: rest) step)
      _ = (child.unset? (Path.child rest step)).map fun r => (r.1, t.replaceChild first r.2) :=
        unset?_cons hc (by simp)
      _ = (c.detach? step).map fun r => (r.1, t.set (first :: rest) r.2) := by
        simp only [ih hv, Option.map_map, Function.comp_def, set_cons_of_child hc]

theorem exists_unset? (h : t.get? (p.child step) = some x) :
    ∃ c d st, t.get? p = some c ∧ c.enters? step = some st ∧ Loses x st c d ∧
      t.unset? (p.child step) = some (x, t.set p d) := by
  rw [get?_child] at h
  obtain ⟨c, hc, hx⟩ := Option.bind_eq_some_iff.mp h
  obtain ⟨st, hs⟩ := exists_enters? hx
  obtain ⟨d, hd, hl⟩ := exists_detach? hx hs
  exact ⟨c, d, st, hc, hs, hl, by simp [unset?_child hc, hd]⟩

end Tree

end Storyworld
