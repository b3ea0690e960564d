import Storyworld.Proofs.Tree.Induction
import Storyworld.Schema.Meta

/-!
Trees without metadata: what cleaning takes from a list and from a map, that it leaves none behind,
and that a second cleaning finds nothing.
-/

namespace Storyworld

theorem Fields.mem_of_get? {fields : Fields} {k : String} {v : Tree} (h : get? k fields = some v) :
    (k, v) ∈ fields := by
  fun_induction get? k fields <;> simp_all

namespace Meta

variable {t : Tree} {k : String} {fields : Fields} {items : List Tree}

theorem cleanItems_eq : cleanItems items = (items.filter (!isArtifact ·)).map clean := by
  induction items
  case nil          => rfl
  case cons x xs ih => cases hx : isArtifact x <;> simp [cleanItems, hx, ih]

theorem cleanFields_eq :
    cleanFields fields = (fields.filter (·.1 ≠ key)).map fun e => (e.1, clean e.2) := by
  induction fields
  case nil          => rfl
  case cons e es ih => by_cases hk : e.1 = key <;> simp [cleanFields, hk, ih]

theorem get?_cleanFields :
    Fields.get? k (cleanFields fields) = if k = key then none else (Fields.get? k fields).map clean := by
  induction fields
  case nil          => simp [cleanFields]
  case cons e es ih => grind [cleanFields, Fields.get?]

theorem clean_leaf (h : t.isComposite = false) : clean t = t := by
  cases t <;> simp_all [clean, Tree.isComposite]

@[simp] theorem asBool?_clean : (clean t).asBool? = t.asBool? := by
  cases t <;> simp [clean, Tree.asBool?]

@[simp] theorem isMarker_clean : isMarker (clean t) = isMarker t := by
  cases t <;> simp [clean, isMarker]

@[simp] theorem isSentinel_clean : isSentinel (clean t) = isSentinel t := by
  cases t <;> simp [clean, isSentinel, Tree.field?, get?_cleanFields]
  case obj fields =>
    rw [if_neg (by decide)]
    cases Fields.get? sentinelKey fields <;> simp

-- What is about its list stays so, and nothing else becomes so.
@[simp] theorem isArtifact_clean : isArtifact (clean t) = isArtifact t := by
  simp [isArtifact]

theorem isArtifact_of_mem_cleanItems (h : t ∈ cleanItems items) : isArtifact t = false := by
  rw [cleanItems_eq] at h
  have ⟨x, hx, ht⟩ := List.mem_map.mp h
  rw [← ht, isArtifact_clean]
  simpa using (List.mem_filter.mp hx).2

-- Nowhere in the tree is there anything about it.
inductive Bare : Tree → Prop where
  | leaf {t : Tree} (h : t.isComposite = false) : Bare t
  | arr {items : List Tree} (own : ∀ x ∈ items, isMarker x = false ∧ isSentinel x = false)
    (h : ∀ x ∈ items, Bare x) : Bare (.arr items)
  | obj {fields : Fields} (own : ∀ e ∈ fields, e.1 ≠ key) (h : ∀ e ∈ fields, Bare e.2) :
    Bare (.obj fields)

theorem bare_clean (t : Tree) : Bare (clean t) := by
  induction t using Tree.inductionOn
  case leaf t h =>
    rw [clean_leaf h]
    exact .leaf h
  case arr items ih =>
    rw [clean]
    refine .arr (fun x hx => ?_) fun x hx => ?_
    · simpa [isArtifact] using isArtifact_of_mem_cleanItems hx
    · rw [cleanItems_eq] at hx
      obtain ⟨y, hy, rfl⟩ := List.mem_map.mp hx
      exact ih y (List.mem_filter.mp hy).1
  case obj fields ih =>
    rw [clean, cleanFields_eq]
    refine .obj (fun e he => ?_) fun e he => ?_
    all_goals
      obtain ⟨y, hy, rfl⟩ := List.mem_map.mp he
      have ⟨hm, hk⟩ := List.mem_filter.mp hy
    · simpa using hk
    · exact ih y hm

theorem filter_own (own : ∀ x ∈ items, isArtifact x = false) : items.filter (!isArtifact ·) = items :=
  List.filter_eq_self.mpr fun x hx => by simp [own x hx]

theorem Bare.own (h : Bare (.arr items)) : ∀ x ∈ items, isArtifact x = false := by
  cases h with
  | leaf h => cases h
  | arr own => exact fun x hx => by simp [isArtifact, own x hx]

theorem Bare.key_notMem (h : Bare (.obj fields)) : key ∉ fields.keys := by
  cases h with
  | leaf h => cases h
  | obj own =>
    intro hk
    obtain ⟨e, he, hn⟩ := List.mem_map.mp hk
    exact own e he hn

theorem Bare.clean (h : Bare t) : Meta.clean t = t := by
  induction h with
  | leaf h => exact clean_leaf h
  | arr own h ih =>
    rw [Meta.clean, cleanItems_eq, filter_own (Bare.arr own h).own, List.map_congr_left ih, List.map_id']
  | @obj fields own _ ih =>
    have ho : fields.filter (·.1 ≠ key) = fields := List.filter_eq_self.mpr (by simpa using own)
    have he : ∀ e ∈ fields, (e.1, Meta.clean e.2) = e := fun e he => by rw [ih e he]
    rw [Meta.clean, cleanFields_eq, ho, List.map_congr_left he, List.map_id']

theorem bare_iff_clean : Bare t ↔ Meta.clean t = t :=
  ⟨Bare.clean, fun h => h ▸ bare_clean t⟩

instance : DecidablePred Bare := fun _ => decidable_of_iff _ bare_iff_clean.symm

theorem clean_clean : clean (clean t) = clean t :=
  (bare_clean t).clean

end Meta

end Storyworld
