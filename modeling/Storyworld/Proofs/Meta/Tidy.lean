import Storyworld.Proofs.Meta.Origin
import Storyworld.Proofs.Tree.Survival

/-!
Cleaning a tree whose lists hold no metadata: no item moves, and what a path leads to is cleaned in its
place. Accounts written into such a tree leave it so.
-/

namespace Storyworld

-- A step that counts as a position is written in digits.
theorem Segment.isDigit_name {step : Segment} {i : Nat} (h : step.index? = some i) :
    ∀ c ∈ step.name.toList, c.isDigit := by
  cases step
  case key k =>
    simp only [index?] at h
    split at h
    case isTrue     => cases h
    case isFalse hk => simp_all
  case index n =>
    intro c hc
    rw [name, String.toList_ofList] at hc
    exact Nat.isDigit_of_mem_toDigits (by decide) (by decide) hc

namespace Tree

variable {t v : Tree} {a : Segment} {w : Path}

theorem isComposite_set_cons : (t.set (a :: w) v).isComposite := by
  obtain ⟨fields, rfl⟩ | ⟨items, i, rfl, hi⟩ | h := t.enters?_cases a
  · simp [set_obj, isComposite]
  · simp [set_arr hi, isComposite]
  · cases a <;> simp [set_of_enters?_none h, holding, isComposite]

theorem asBool?_of_isComposite (h : t.isComposite) : t.asBool? = none := by
  cases t <;> simp_all [isComposite, asBool?]

-- No write makes a flag of what it does not write.
theorem asBool?_set (h : v.asBool? = none) : (t.set w v).asBool? = none := by
  cases w
  case nil      => rwa [set_root]
  case cons a w => exact asBool?_of_isComposite isComposite_set_cons

end Tree

namespace Meta

variable {t v x : Tree} {a : Segment} {q w : Path} {account : String} {items : List Tree}
  {fields : Fields}

theorem Bare.child? (h : Bare t) (hv : t.child? a = some v) : Bare v ∧ a.name ≠ key := by
  cases h with
  | leaf h => cases t <;> simp_all [Tree.child?, Tree.isComposite]
  | obj own h =>
    have hm := Fields.mem_of_get? hv
    exact ⟨h _ hm, own _ hm⟩
  | @arr items own h =>
    obtain ⟨i, hi, hx⟩ := Tree.child?_arr.mp hv
    refine ⟨h _ (List.mem_of_getElem? hx), fun hk => ?_⟩
    have hd := Segment.isDigit_name hi '$' (by rw [hk]; decide)
    cases hd

theorem Bare.get? (h : Bare t) (hv : t.get? q = some v) : Bare v ∧ ∀ a ∈ q, a.name ≠ key := by
  induction q generalizing t
  case nil => exact ⟨Tree.eq_of_get?_root hv ▸ h, nofun⟩
  case cons a q ih =>
    have ⟨c, hc, hv⟩ := Tree.get?_cons_eq_some.mp hv
    have ⟨hb, ha⟩ := h.child? hc
    have ⟨hv, hq⟩ := ih hb hv
    exact ⟨hv, List.forall_mem_cons.mpr ⟨ha, hq⟩⟩

-- No item of a list is about the list; maps may have metadata.
inductive Tidy : Tree → Prop where
  | intro {t : Tree} (own : ∀ items x, t = .arr items → x ∈ items → isArtifact x = false)
    (h : ∀ a c, t.child? a = some c → Tidy c) : Tidy t

theorem Tidy.child? (h : Tidy t) (hv : t.child? a = some v) : Tidy v := by
  cases h with
  | intro _ h => exact h _ _ hv

theorem tidy_of_leaf (h : t.isComposite = false) : Tidy t := by
  refine .intro (fun items x ht => ?_) fun a c hc => ?_
  · simp [ht, Tree.isComposite] at h
  · cases t <;> simp_all [Tree.child?, Tree.isComposite]

theorem Bare.tidy (h : Bare t) : Tidy t := by
  induction h with
  | leaf h => exact tidy_of_leaf h
  | arr own h ih =>
    refine .intro (fun _ x ht hx => ?_) fun a c hc => ?_
    · cases ht
      exact (Bare.arr own h).own x hx
    · obtain ⟨i, _, hx⟩ := Tree.child?_arr.mp hc
      exact ih c (List.mem_of_getElem? hx)
  | obj _ _ ih => exact .intro (by simp) fun a c hc => ih _ (Fields.mem_of_get? hc)

-- No item of a tidy tree moves, and away from metadata a path has its own value for its origin.
theorem Tidy.originChild? (h : Tidy t) (ha : a.name ≠ key) : originChild? t a = t.child? a := by
  cases t
  case obj => exact if_neg ha
  case arr items =>
    obtain ⟨own, _⟩ := h
    rw [Meta.originChild?, filter_own fun x hx => own items x rfl hx]
    rfl
  all_goals rfl

theorem Tidy.origin? (h : Tidy t) (hq : ∀ a ∈ q, a.name ≠ key) : origin? t q = t.get? q := by
  induction q generalizing t
  case nil => exact Tree.get?_root.symm
  case cons a q ih =>
    have ⟨ha, hq⟩ := List.forall_mem_cons.mp hq
    rw [Tree.get?_cons, Meta.origin?, h.originChild? ha]
    cases hc : t.child? a
    case none   => rfl
    case some c => exact ih (h.child? hc) hq

theorem get?_clean (h : Tidy t) (hq : ∀ a ∈ q, a.name ≠ key) :
    (clean t).get? q = (t.get? q).map clean := by
  rw [get?_clean_eq, h.origin? hq]

-- What is neither a flag nor about its list makes nothing so that holds it.
theorem isArtifact_set (h : isArtifact t = false) (hv : isArtifact v = false) (hb : v.asBool? = none) :
    isArtifact (t.set w v) = false := by
  cases w
  case nil => rwa [Tree.set_root]
  case cons a w =>
    obtain ⟨fields, rfl⟩ | ⟨items, i, rfl, hi⟩ | hn := t.enters?_cases a
    · have h : (((Fields.get? sentinelKey fields).bind Tree.asBool?) == some true) = false := by
        simpa [isArtifact, isMarker, isSentinel, Tree.field?] using h
      simp only [Tree.set_obj, isArtifact, isMarker, isSentinel, Tree.field?, Fields.get?_alter,
        Bool.false_or]
      split
      case isTrue  => simp [Tree.asBool?_set hb]
      case isFalse => exact h
    · simp [Tree.set_arr hi, isArtifact, isMarker, isSentinel, Tree.field?]
    · rw [Tree.set_of_enters?_none hn]
      cases a
      case key k =>
        simp only [Tree.holding, isArtifact, isMarker, isSentinel, Tree.field?, Fields.get?, Bool.false_or]
        split <;> simp [Tree.asBool?_set hb]
      case index i => simp [Tree.holding, isArtifact, isMarker, isSentinel, Tree.field?]

theorem isArtifact_of_mem_alterItem (items : List Tree) {i : Nat} {f : Option Tree → Tree}
    (h : ∀ y ∈ items, isArtifact y = false) (hf : isArtifact (f items[i]?) = false)
    (hx : x ∈ Tree.alterItem i f items) : isArtifact x = false := by
  have ⟨j, hj⟩ := List.mem_iff_getElem?.mp hx
  by_cases hji : j = i
  case pos =>
    rw [hji, Tree.getElem?_alterItem_self] at hj
    exact Option.some.inj hj ▸ hf
  case neg =>
    obtain ho | ho | ho := Tree.getElem?_alterItem_cases items f hji
    · exact h x (List.mem_of_getElem? (ho.symm.trans hj))
    · cases ho.symm.trans hj
    · cases ho.symm.trans hj
      rfl

theorem isArtifact_str : isArtifact (.str account) = false ↔ account ≠ marker := by
  simp [isArtifact, isMarker, isSentinel, Tree.field?]

theorem Tidy.set (h : Tidy t) (ha : account ≠ marker) : Tidy (t.set w (.str account)) := by
  induction w generalizing t
  case nil => exact Tree.set_root ▸ tidy_of_leaf rfl
  case cons a w ih =>
    refine .intro (fun items x ht hx => ?_) fun b c hc => ?_
    · obtain ⟨fields, rfl⟩ | ⟨items, i, rfl, hi⟩ | hn := t.enters?_cases a
      · simp [Tree.set_obj] at ht
      · rw [Tree.set_arr hi] at ht
        cases ht
        obtain ⟨own, _⟩ := h
        refine isArtifact_of_mem_alterItem items (fun y hy => own _ y rfl hy) (isArtifact_set ?_ (isArtifact_str.mpr ha) rfl) hx
        cases hy : items[i]?
        case none   => rfl
        case some y => exact own _ y rfl (List.mem_of_getElem? hy)
      · rw [Tree.set_of_enters?_none hn] at ht
        cases a
        case key => simp [Tree.holding] at ht
        case index i =>
          rw [Tree.holding_index] at ht
          cases ht
          exact isArtifact_of_mem_alterItem [] (by simp) (isArtifact_set rfl (isArtifact_str.mpr ha) rfl) hx
    · have tidy_null : Tidy .null := tidy_of_leaf rfl
      obtain ho | ho | ho | ⟨_, d, hd, ho⟩ := Tree.child?_set_cases (t := t) (a := a) (b := b) (w := w)
        (x := .str account)
      · exact h.child? (ho.symm.trans hc)
      · cases ho.symm.trans hc
      · cases ho.symm.trans hc
        exact tidy_null
      · cases ho.symm.trans hc
        exact ih (hd.elim (· ▸ tidy_null) h.child?)

end Meta

end Storyworld
