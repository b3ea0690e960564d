import Storyworld.Proofs.Tree.Place

/-!
What writes leave of the rest of a tree, also where they make or replace containers. A path keeps its
value unless a write leads through its place, or needs another container on the way to it than the one
that is there.
-/

namespace Storyworld

-- Two steps that lead to one child in some container: by the same name, or to the same position.
def Segment.Alike (a b : Segment) : Prop :=
  a.name = b.name ∨ ∃ i, a.index? = some i ∧ b.index? = some i

instance {a b : Segment} : Decidable (a.Alike b) :=
  decidable_of_iff (a.name = b.name ∨ ∃ i ∈ a.index?, b.index? = some i) Iff.rfl

-- Neither of two paths leads through the other, whatever tree they are followed in.
inductive Path.Apart : Path → Path → Prop where
  | here {a b : Segment} {p q : Path} (h : ¬a.Alike b) : Apart (a :: p) (b :: q)
  | deeper {a b : Segment} {p q : Path} (h : Apart p q) : Apart (a :: p) (b :: q)

namespace Path

theorem apart_cons {a b : Segment} {p q : Path} :
    Apart (a :: p) (b :: q) ↔ ¬a.Alike b ∨ p.Apart q := by
  constructor
  case mp =>
    intro h
    cases h with
    | here h   => exact .inl h
    | deeper h => exact .inr h
  case mpr => exact fun h => h.elim .here .deeper

instance decidableApart : (p q : Path) → Decidable (p.Apart q)
  | [], _ => isFalse nofun
  | _ :: _, [] => isFalse nofun
  | a :: p, b :: q =>
    have := decidableApart p q
    decidable_of_iff (¬a.Alike b ∨ Apart p q) apart_cons.symm

end Path

namespace Tree

variable {t t' u c c' v x : Tree} {a b st : Segment} {q w w' : Path}

-- One of the paths leads through the place of the other.
inductive Crosses : Tree → Path → Path → Prop where
  | above {t : Tree} {q : Path} : Crosses t [] q
  | into {t : Tree} {w : Path} : Crosses t w []
  | deeper {t c : Tree} {a b : Segment} {w q : Path} (hs : t.enters? a = t.enters? b)
    (hc : t.child? b = some c) (h : Crosses c w q) : Crosses t (a :: w) (b :: q)

-- A write at the first path finds a container on the way of the second that it cannot enter, which is
-- a list where it has a name to go on with, and puts another one in its place.
inductive Overturns : Tree → Path → Path → Prop where
  | here {t : Tree} {a b : Segment} {w q : Path} (h : t.enters? a = none) :
    Overturns t (a :: w) (b :: q)
  | deeper {t c : Tree} {a b : Segment} {w q : Path} (hs : t.enters? a = t.enters? b)
    (hc : t.child? b = some c) (h : Overturns c w q) : Overturns t (a :: w) (b :: q)

-- The containers that the path leads through are of the same kinds, and what it leads to is the same.
inductive SameWay : Tree → Tree → Path → Prop where
  | root {t : Tree} : SameWay t t []
  | step {t t' c c' : Tree} {b : Segment} {q : Path} (hs : ∀ a, t'.enters? a = t.enters? a)
    (hc : t.child? b = some c) (hc' : t'.child? b = some c') (h : SameWay c c' q) :
    SameWay t t' (b :: q)

/-! ## Steps -/

theorem alike_of_enters? (h : t.enters? a = t.enters? b) (hc : t.child? b = some c) : a.Alike b := by
  cases t
  case obj => exact .inl <| by simpa using h
  case arr =>
    cases hb : b.index?
    case none   => simp [child?, hb] at hc
    case some i => exact .inr ⟨i, by simpa [hb] using h, hb⟩
  all_goals simp [child?] at hc

theorem crosses_cons (hc : t.child? b = some c) :
    t.Crosses (a :: w) (b :: q) ↔ t.enters? a = t.enters? b ∧ c.Crosses w q := by
  constructor
  case mp =>
    intro h
    cases h with
    | deeper hs hc' h => exact ⟨hs, Option.some.inj (hc'.symm.trans hc) ▸ h⟩
  case mpr => exact fun ⟨hs, h⟩ => .deeper hs hc h

theorem overturns_cons (hc : t.child? b = some c) :
    t.Overturns (a :: w) (b :: q) ↔
      t.enters? a = none ∨ t.enters? a = t.enters? b ∧ c.Overturns w q := by
  constructor
  case mp =>
    intro h
    cases h with
    | here h         => exact .inl h
    | deeper hs hc' h => exact .inr ⟨hs, Option.some.inj (hc'.symm.trans hc) ▸ h⟩
  case mpr => exact fun h => h.elim .here fun ⟨hs, h⟩ => .deeper hs hc h

theorem not_crosses_of_child?_none (hc : t.child? b = none) : ¬t.Crosses (a :: w) (b :: q) := by
  intro h
  cases h with
  | deeper _ hc' _ => cases hc.symm.trans hc'

theorem overturns_of_child?_none (hc : t.child? b = none) :
    t.Overturns (a :: w) (b :: q) ↔ t.enters? a = none := by
  constructor
  case mp =>
    intro h
    cases h with
    | here h         => exact h
    | deeper _ hc' _ => cases hc.symm.trans hc'
  case mpr => exact .here

instance decidableCrosses : (t : Tree) → (w q : Path) → Decidable (t.Crosses w q)
  | _, [], _ => isTrue .above
  | _, _ :: _, [] => isTrue .into
  | t, a :: w, b :: q =>
    match hc : t.child? b with
    | none => isFalse (not_crosses_of_child?_none hc)
    | some c =>
      have := decidableCrosses c w q
      decidable_of_iff (t.enters? a = t.enters? b ∧ c.Crosses w q) (crosses_cons hc).symm

instance decidableOverturns : (t : Tree) → (w q : Path) → Decidable (t.Overturns w q)
  | _, [], _ => isFalse nofun
  | _, _ :: _, [] => isFalse nofun
  | t, a :: w, b :: q =>
    match hc : t.child? b with
    | none => decidable_of_iff (t.enters? a = none) (overturns_of_child?_none hc).symm
    | some c =>
      have := decidableOverturns c w q
      decidable_of_iff (t.enters? a = none ∨ t.enters? a = t.enters? b ∧ c.Overturns w q)
        (overturns_cons hc).symm

theorem enters?_set (h : t.enters? a = some st) (b : Segment) :
    (t.set (a :: w) x).enters? b = t.enters? b := by
  obtain ⟨fields, rfl⟩ | ⟨items, i, rfl, hi⟩ | hn := t.enters?_cases a
  · simp [set_obj]
  · simp [set_arr hi]
  · simp [hn] at h

theorem child?_set (h : t.enters? a = some st) (hb : t.child? b = some c) :
    (t.set (a :: w) x).child? b = some (if t.enters? b = t.enters? a then c.set w x else c) := by
  obtain ⟨fields, rfl⟩ | ⟨items, i, rfl, hi⟩ | hn := t.enters?_cases a
  · have hb : Fields.get? b.name fields = some c := hb
    simp only [set_obj, child?, Fields.get?_alter, enters?_obj, Option.some.injEq, Segment.key.injEq]
    split <;> simp_all
  · obtain ⟨j, hj, hc⟩ := child?_arr.mp hb
    have hlt := (List.getElem?_eq_some_iff.mp hc).1
    simp only [set_arr hi, child?, hj, hi, enters?_arr, Option.map_some, Option.some.injEq,
      Segment.index.injEq, Option.bind_eq_bind, Option.bind_some]
    split
    case isTrue hji  => subst hji; simp [getElem?_alterItem_self, hc]
    case isFalse hji => simp [getElem?_alterItem_of_ne hji hlt, hc]
  · simp [hn] at h

/-! ## Ways that stay -/

namespace SameWay

theorem get? (h : SameWay t t' q) : t'.get? q = t.get? q := by
  induction h with
  | root               => rfl
  | step _ hc hc' _ ih => simpa [hc, hc'] using ih

theorem crosses_iff (h : SameWay t t' q) : t'.Crosses w q ↔ t.Crosses w q := by
  induction h generalizing w with
  | root => rfl
  | step hs hc hc' _ ih =>
    cases w
    case nil  => exact ⟨fun _ => .above, fun _ => .above⟩
    case cons => simp only [crosses_cons hc, crosses_cons hc', hs, ih]

theorem overturns_iff (h : SameWay t t' q) : t'.Overturns w q ↔ t.Overturns w q := by
  induction h generalizing w with
  | root => rfl
  | step hs hc hc' _ ih =>
    cases w
    case nil  => exact ⟨nofun, nofun⟩
    case cons => simp only [overturns_cons hc, overturns_cons hc', hs, ih]

theorem refl (h : t.get? q = some v) : SameWay t t q := by
  induction q generalizing t
  case nil => exact .root
  case cons b q ih =>
    have ⟨c, hc, hv⟩ := get?_cons_eq_some.mp h
    exact .step (fun _ => rfl) hc hc (ih hv)

theorem trans (h : SameWay t t' q) (h' : SameWay t' u q) : SameWay t u q := by
  induction h generalizing u with
  | root => exact h'
  | step hs hc hc' _ ih =>
    cases h' with
    | step hs' hd hd' h' =>
      obtain rfl := Option.some.inj (hc'.symm.trans hd)
      exact .step (fun a => (hs' a).trans (hs a)) hc hd' (ih h')

end SameWay

theorem sameWay_set (hq : t.get? q = some v) (hc : ¬t.Crosses w q) (ho : ¬t.Overturns w q) :
    SameWay t (t.set w x) q := by
  induction w generalizing t q
  case nil => exact absurd .above hc
  case cons a w ih =>
    cases q
    case nil => exact absurd .into hc
    case cons b q =>
      have ⟨c, hb, hv⟩ := get?_cons_eq_some.mp hq
      rw [crosses_cons hb, not_and] at hc
      simp only [overturns_cons hb, not_or, not_and] at ho
      have ⟨ha, ho⟩ := ho
      have ⟨st, hs⟩ := Option.ne_none_iff_exists'.mp ha
      refine .step (enters?_set hs) hb (child?_set hs hb) ?_
      split
      case isTrue he => exact ih hv (hc he.symm) (ho he.symm)
      case isFalse   => exact SameWay.refl hv

/-! ## Values that are lost -/

-- Nothing is left at the path, or only the null that fills a list up.
def Gone (t : Tree) (q : Path) : Prop :=
  t.get? q = none ∨ t.get? q = some null

theorem not_crosses_of_apart (h : w.Apart q) : ¬t.Crosses w q := by
  intro hc
  induction hc with
  | above => cases h
  | into  => cases h
  | deeper hs hc _ ih =>
    cases h with
    | here h  => exact h (alike_of_enters? hs hc)
    | deeper h => exact ih h

theorem gone_of_child?_none (h : t.child? b = none) : t.Gone (b :: q) :=
  .inl <| by simp [h]

theorem gone_of_child?_null (h : t.child? b = some null) : t.Gone (b :: q) := by
  cases q
  case nil  => exact .inr <| by simp [h]
  case cons => exact .inl <| by rw [get?_cons, h, Option.bind_some, get?_cons]; rfl

theorem gone_cons (h : t.child? b = some c) : t.Gone (b :: q) ↔ c.Gone q := by
  simp [Gone, h]

theorem gone_null (h : w.Apart q) : null.Gone q := by
  cases h <;> exact .inl (by simp [child?])

-- Apart from the item that it is about, a write to a list adds nothing but nulls.
theorem getElem?_alterItem_cases (items : List Tree) (f : Option Tree → Tree) {i j : Nat} (h : j ≠ i) :
    (alterItem i f items)[j]? = items[j]? ∨ (alterItem i f items)[j]? = none ∨
      (alterItem i f items)[j]? = some null := by
  induction items generalizing i j
  case nil =>
    obtain h | h := Nat.lt_or_gt_of_ne h
    · exact .inr <| .inr <| by simp [alterItem, List.getElem?_append, h]
    · exact .inl <| by simp [alterItem]; omega
  case cons y items ih =>
    cases j
    case zero =>
      cases i
      case zero   => exact absurd rfl h
      case succ i => exact .inl rfl
    case succ j =>
      cases i
      case zero   => exact .inl rfl
      case succ i => simpa [alterItem] using ih (by simpa using h)

theorem holding_index {i : Nat} : holding (.index i) c = arr (alterItem i (fun _ => c) []) := by
  rw [holding, alterItem]

-- In a container made for a single child there is nothing else but nulls.
theorem child?_holding_cases :
    (holding a c).child? b = none ∨ (holding a c).child? b = some null ∨
      (a.Alike b ∧ (holding a c).child? b = some c) := by
  cases a
  case key k =>
    by_cases hk : k = b.name
    case pos => exact .inr <| .inr ⟨.inl hk, by simp [holding, child?, Fields.get?, hk]⟩
    case neg => exact .inl <| by simp [holding, child?, Fields.get?, hk]
  case index i =>
    cases hb : b.index?
    case none => exact .inl <| by simp [holding, child?, hb]
    case some j =>
      by_cases hj : j = i
      case pos => exact .inr <| .inr ⟨.inr ⟨j, hj ▸ rfl, hb⟩, by simp [holding, child?, hb, hj]⟩
      case neg =>
        rw [holding_index, child?, hb]
        exact (getElem?_alterItem_cases [] _ hj).elim (fun h => .inl <| h.trans rfl)
          (·.imp_right .inl)

-- A child behind a write: the old one, a filling null or none, or else the write went on in it.
theorem child?_set_cases :
    (t.set (a :: w) x).child? b = t.child? b ∨ (t.set (a :: w) x).child? b = none ∨
      (t.set (a :: w) x).child? b = some null ∨
      (a.Alike b ∧ ∃ d, (d = null ∨ t.child? b = some d) ∧
        (t.set (a :: w) x).child? b = some (d.set w x)) := by
  obtain ⟨fields, rfl⟩ | ⟨items, i, rfl, hi⟩ | hn := t.enters?_cases a
  · by_cases hk : b.name = a.name
    case pos =>
      refine .inr <| .inr <| .inr ⟨.inl hk.symm, _, ?_, by
        rw [set_obj, child?, Fields.get?_alter, if_pos hk]⟩
      cases hb : Fields.get? a.name fields <;> simp [child?, hk, hb]
    case neg => exact .inl <| by simp [set_obj, child?, Fields.get?_alter, hk]
  · cases hb : b.index?
    case none => exact .inl <| by simp [set_arr hi, child?, hb]
    case some j =>
      by_cases hj : j = i
      case pos =>
        subst hj
        refine .inr <| .inr <| .inr ⟨.inr ⟨j, hi, hb⟩, items[j]?.getD null, ?_, by
          simp [set_arr hi, child?, hb, getElem?_alterItem_self]⟩
        cases hx : items[j]? <;> simp [child?, hb, hx]
      case neg =>
        simp only [set_arr hi, child?, hb, Option.bind_eq_bind, Option.bind_some]
        exact (getElem?_alterItem_cases items _ hj).imp_right (·.imp_right .inl)
  · rw [set_of_enters?_none hn]
    obtain h | h | ⟨ha, h⟩ := child?_holding_cases (a := a) (b := b) (c := null.set w x)
    · exact .inr <| .inl h
    · exact .inr <| .inr <| .inl h
    · exact .inr <| .inr <| .inr ⟨ha, null, .inl rfl, h⟩

theorem Gone.set (h : t.Gone q) (hw : w.Apart q) : (t.set w x).Gone q := by
  induction hw generalizing t with
  | @here a b w q hab =>
    obtain hc | hc | hc | ⟨ha, _⟩ := child?_set_cases (t := t) (a := a) (b := b) (w := w) (x := x)
    · simpa [Gone, hc] using h
    · exact gone_of_child?_none hc
    · exact gone_of_child?_null hc
    · exact absurd ha hab
  | @deeper a b w q hw ih =>
    obtain hc | hc | hc | ⟨_, d, hd, hc⟩ := child?_set_cases (t := t) (a := a) (b := b) (w := w) (x := x)
    · simpa [Gone, hc] using h
    · exact gone_of_child?_none hc
    · exact gone_of_child?_null hc
    · rw [gone_cons hc]
      obtain rfl | hd := hd
      · exact ih (gone_null hw)
      · exact ih ((gone_cons hd).mp h)

theorem Overturns.gone (h : t.Overturns w q) (hw : w.Apart q) : (t.set w x).Gone q := by
  induction h with
  | @here t a b w q hn =>
    rw [set_of_enters?_none hn]
    obtain hc | hc | ⟨ha, hc⟩ := child?_holding_cases (a := a) (b := b) (c := null.set w x)
    · exact gone_of_child?_none hc
    · exact gone_of_child?_null hc
    · cases hw with
      | here hw  => exact absurd ha hw
      | deeper hw => exact (gone_cons hc).mpr ((gone_null hw).set hw)
  | @deeper t c a b w q hs hc _ ih =>
    cases hw with
    | here hw  => exact absurd (alike_of_enters? hs hc) hw
    | deeper hw =>
      have ⟨st, hb⟩ := exists_enters? hc
      rw [gone_cons (child?_set (hs.trans hb) hc), if_pos hs.symm]
      exact ih hw

end Tree

end Storyworld
