import Storyworld.Proofs.Tree.Survival

/-!
Trees that hold nothing but accounts, each at a path at which it has been reported. A list may be
filled up with nulls, and no container is empty.
-/

namespace Storyworld

theorem Fields.alter_ne_nil {fields : Fields} {key : String} {f : Option Tree → Tree} :
    alter key f fields ≠ [] := by
  cases fields
  case nil  => simp [alter]
  case cons => rw [alter]; split <;> simp

namespace Tree

variable {reported reported' : Path → String → Prop} {t x v : Tree} {step : Segment} {w path : Path}
  {account : String} {fields : Fields} {items : List Tree} {k : String} {i : Nat}

theorem alterItem_ne_nil {f : Option Tree → Tree} : alterItem i f items ≠ [] := by
  rw [← List.length_pos_iff, length_alterItem]
  omega

-- What is reported below a child, by any of the steps that lead to it.
def Onward (reported : Path → String → Prop) (leads : Segment → Prop) : Path → String → Prop :=
  fun rest account => ∃ step, leads step ∧ reported (step :: rest) account

abbrev BelowKey (reported : Path → String → Prop) (k : String) : Path → String → Prop :=
  Onward reported (·.name = k)

abbrev BelowIndex (reported : Path → String → Prop) (i : Nat) : Path → String → Prop :=
  Onward reported (·.index? = some i)

inductive Tells : (Path → String → Prop) → Tree → Prop where
  | account {reported : Path → String → Prop} {account : String} (h : reported [] account) :
    Tells reported (.str account)
  | arr {reported : Path → String → Prop} {items : List Tree} (hne : items ≠ [])
    (h : ∀ i x, items[i]? = some x → x ≠ null → Tells (BelowIndex reported i) x) :
    Tells reported (.arr items)
  | obj {reported : Path → String → Prop} {fields : Fields} (hne : fields ≠ [])
    (h : ∀ k x, fields.get? k = some x → Tells (BelowKey reported k) x) : Tells reported (.obj fields)

theorem Onward.mono {leads : Segment → Prop} (hr : ∀ p a, reported p a → reported' p a) :
    ∀ p a, Onward reported leads p a → Onward reported' leads p a :=
  fun _ _ ⟨step, hs, h⟩ => ⟨step, hs, hr _ _ h⟩

theorem Onward.widen {leads leads' : Segment → Prop} (hl : ∀ step, leads step → leads' step) :
    ∀ p a, Onward reported leads p a → Onward reported leads' p a :=
  fun _ _ ⟨step, hs, h⟩ => ⟨step, hl step hs, h⟩

namespace Tells

theorem mono (h : Tells reported t) (hr : ∀ p a, reported p a → reported' p a) : Tells reported' t := by
  induction h generalizing reported' with
  | account h    => exact .account (hr _ _ h)
  | arr hne _ ih => exact .arr hne fun i x hx hn => ih i x hx hn (Onward.mono hr)
  | obj hne _ ih => exact .obj hne fun k x hx => ih k x hx (Onward.mono hr)

theorem of_item (h : items = [] ∨ Tells reported (.arr items)) (hx : items[i]? = some x) :
    x = null ∨ Tells (BelowIndex reported i) x := by
  obtain rfl | h := h
  · simp at hx
  · cases h with
    | arr _ h => exact (Classical.em (x = null)).imp_right (h i x hx)

theorem of_field (h : fields = [] ∨ Tells reported (.obj fields)) (hx : fields.get? k = some x) :
    Tells (BelowKey reported k) x := by
  obtain rfl | h := h
  · simp at hx
  · cases h with
    | obj _ h => exact h k x hx

section

variable {f : Option Tree → Tree} (hr : ∀ p a, reported p a → reported' p a)

include hr

theorem alter_item (h : items = [] ∨ Tells reported (.arr items))
    (hf : Tells (BelowIndex reported' i) (f items[i]?)) : Tells reported' (.arr (alterItem i f items)) := by
  refine .arr alterItem_ne_nil fun j x hx hn => ?_
  by_cases hj : j = i
  case pos =>
    rw [hj, getElem?_alterItem_self] at hx
    exact hj ▸ Option.some.inj hx ▸ hf
  case neg =>
    have ho : items[j]? = some x := by
      obtain h | h | h := getElem?_alterItem_cases items f hj <;> simp_all
    exact ((of_item h ho).resolve_left hn).mono (Onward.mono hr)

theorem alter_field (h : fields = [] ∨ Tells reported (.obj fields))
    (hf : Tells (BelowKey reported' k) (f (fields.get? k))) : Tells reported' (.obj (fields.alter k f)) := by
  refine .obj Fields.alter_ne_nil fun k' x hx => ?_
  rw [Fields.get?_alter] at hx
  split at hx
  case isTrue hk => exact hk ▸ Option.some.inj hx ▸ hf
  case isFalse   => exact (of_field h hx).mono (Onward.mono hr)

end

theorem holding (h : Tells (Onward reported (· = step)) x) : Tells reported (holding step x) := by
  cases step
  case key k =>
    refine alter_field (k := k) (f := fun _ => x) (fun _ _ => id) (.inl rfl) (h.mono ?_)
    exact Onward.widen fun step hs => hs ▸ rfl
  case index i =>
    rw [holding_index]
    refine alter_item (fun _ _ => id) (.inl rfl) (h.mono ?_)
    exact Onward.widen fun step hs => hs ▸ rfl

-- An account written anywhere: what was missing is made for it, and the rest is as it was.
theorem set (ht : t = null ∨ t = emptyMap ∨ Tells reported t) (hr : ∀ p a, reported p a → reported' p a)
    (hw : reported' w account) : Tells reported' (t.set w (.str account)) := by
  induction w generalizing t reported reported'
  case nil => exact set_root ▸ .account hw
  case cons a w ih =>
    obtain ⟨fields, rfl⟩ | ⟨items, i, rfl, hi⟩ | hn := t.enters?_cases a
    · have hf : fields = [] ∨ Tells reported (.obj fields) := by
        simpa [emptyMap] using ht
      rw [set_obj]
      refine alter_field hr hf (ih ?_ (Onward.mono hr) ⟨a, rfl, hw⟩)
      cases ho : Fields.get? a.name fields
      case none   => exact .inl rfl
      case some c => exact .inr <| .inr <| of_field hf ho
    · have hf : Tells reported (.arr items) := by simpa [emptyMap] using ht
      rw [set_arr hi]
      refine alter_item hr (.inr hf) (ih ?_ (Onward.mono hr) ⟨a, hi, hw⟩)
      cases ho : items[i]?
      case none   => exact .inl rfl
      case some c => exact (of_item (.inr hf) ho).imp_right .inr
    · rw [set_of_enters?_none hn]
      have ht : null = null ∨ null = emptyMap ∨ Tells (fun _ _ => False) null := .inl rfl
      exact holding <| ih ht nofun ⟨a, rfl, hw⟩

end Tells

-- The path leads to an item of a list.
def HoldsItem (t : Tree) (path : Path) : Prop :=
  ∃ list step items, path = Path.child list step ∧ t.get? list = some (.arr items)

-- What is reported below the path has been reported in this place of the whole tree.
def Relays (reported reported' : Path → String → Prop) (t : Tree) (path : Path) : Prop :=
  ∀ rest account, reported' rest account →
    ∃ p, reported (p ++ rest) account ∧ t.place? p = t.place? path

theorem HoldsItem.cons {c : Tree} {a : Segment} (h : c.HoldsItem path) (hc : t.child? a = some c) :
    t.HoldsItem (a :: path) := by
  obtain ⟨list, step, items, rfl, hi⟩ := h
  exact ⟨a :: list, step, items, rfl, by simpa [hc] using hi⟩

theorem place?_congr {a b : Segment} {p q : Path} {c : Tree} (hs : t.enters? a = t.enters? b)
    (hc : t.child? b = some c) (h : c.place? p = c.place? q) : t.place? (a :: p) = t.place? (b :: q) := by
  rw [place?.eq_def, place?.eq_def t]
  simp only [child?_congr hs, hs, hc, Option.bind_eq_bind, Option.bind_some, h]

theorem Relays.cons {leads : Segment → Prop} {c : Tree} {a : Segment}
    (h : Relays (Onward reported leads) reported' c path)
    (hl : ∀ b, leads b → t.enters? b = t.enters? a) (hc : t.child? a = some c) :
    Relays reported reported' t (a :: path) := by
  intro rest account hr
  have ⟨p, ⟨b, hb, hr⟩, hp⟩ := h rest account hr
  exact ⟨b :: p, hr, place?_congr (hl b hb) hc hp⟩

namespace Tells

-- At each path there is a null that fills a list up, or else a tree that tells in its turn, and what
-- it tells has been reported there.
theorem get? (h : Tells reported t) (hv : t.get? path = some v) :
    (v = null ∧ t.HoldsItem path) ∨
      ∃ reported', Tells reported' v ∧ Relays reported reported' t path := by
  induction path generalizing t reported
  case nil =>
    obtain rfl := eq_of_get?_root hv
    exact .inr ⟨reported, h, fun rest account hr => ⟨[], hr, rfl⟩⟩
  case cons a path ih =>
    have ⟨c, hc, hcv⟩ := get?_cons_eq_some.mp hv
    cases h with
    | account => simp [child?] at hc
    | obj _ h =>
      obtain hn | ⟨reported', ht, hr⟩ := ih (h _ _ hc) hcv
      · exact .inl (hn.imp_right (·.cons hc))
      · exact .inr ⟨reported', ht, hr.cons (fun b hb => by simp [hb]) hc⟩
    | @arr _ items hne h =>
      obtain ⟨i, hi, hx⟩ := child?_arr.mp hc
      obtain rfl | ht := of_item (.inr (.arr hne h)) hx
      · -- Nothing can be found below a null.
        cases path
        case nil  => exact .inl ⟨(Option.some.inj hcv).symm, [], a, items, rfl, get?_root⟩
        case cons => rw [get?_cons] at hcv; cases hcv
      · obtain hn | ⟨reported', ht, hr⟩ := ih ht hcv
        · exact .inl (hn.imp_right (·.cons hc))
        · exact .inr ⟨reported', ht, hr.cons (fun b hb => by simp [hb, hi]) hc⟩

end Tells

end Tree

end Storyworld
