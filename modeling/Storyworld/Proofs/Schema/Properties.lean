import Storyworld.Schema.Basic

/-!
Properties of a map node: a list sorted by key, which is known by what is found in it.
-/

namespace Storyworld.Schema.Properties

variable {p q : Property Schema} {ps qs : Properties} {k key : String} {c : Schema}

def Sorted (ps : Properties) : Prop :=
  ps.Pairwise (·.key < ·.key)

theorem key_of_find? (h : find? k ps = some p) : p.key = k := by
  fun_induction find? k ps <;> simp_all

theorem mem_of_find? (h : find? k ps = some p) : p ∈ ps := by
  fun_induction find? k ps <;> simp_all

theorem exists_find?_iff : (∃ p, find? k ps = some p) ↔ ∃ p ∈ ps, p.key = k := by
  fun_induction find? k ps <;> simp_all

theorem find?_cons : find? k (p :: ps) = if p.key = k then some p else find? k ps := rfl

theorem find?_insert : find? k (insert p ps) = if p.key = k then some p else find? k ps := by
  fun_induction insert p ps <;> grind [find?]

theorem mem_insert (h : q ∈ insert p ps) : q = p ∨ q ∈ ps := by
  fun_induction insert p ps <;> grind

theorem sorted_insert (h : Sorted ps) : Sorted (insert p ps) := by
  unfold Sorted at h ⊢
  fun_induction insert p ps
  case case1 => simp
  case case2 q qs he =>
    have ⟨hq, hs⟩ := List.pairwise_cons.mp h
    exact List.pairwise_cons.mpr ⟨fun r hr => he ▸ hq r hr, hs⟩
  case case3 q qs _ hlt =>
    have ⟨hq, hs⟩ := List.pairwise_cons.mp h
    refine List.pairwise_cons.mpr ⟨fun r hr => ?_, h⟩
    cases List.mem_cons.mp hr
    case inl hr => exact hr ▸ hlt
    case inr hr => exact String.lt_trans hlt (hq r hr)
  case case4 q qs hne hlt ih =>
    have ⟨hq, hs⟩ := List.pairwise_cons.mp h
    refine List.pairwise_cons.mpr ⟨fun r hr => ?_, ih hs⟩
    cases mem_insert hr
    case inl hr =>
      subst hr
      exact String.not_le.mp fun hle => hne <| String.le_antisymm hle (String.not_lt.mp hlt)
    case inr hr => exact hq r hr

theorem find?_replace_self (h : find? k ps = some p) :
    find? k (replace k c ps) = some { p with schema := c } := by
  fun_induction replace k c ps <;> simp_all [find?]

theorem find?_replace_of_ne (h : key ≠ k) : find? key (replace k c ps) = find? key ps := by
  fun_induction replace k c ps <;> simp_all [find?, Ne.symm h]

theorem keys_replace : (replace k c ps).map (·.key) = ps.map (·.key) := by
  fun_induction replace k c ps <;> simp_all

theorem sorted_iff_keys : Sorted ps ↔ (ps.map (·.key)).Pairwise (· < ·) :=
  List.pairwise_map.symm

theorem sorted_replace (h : Sorted ps) : Sorted (replace k c ps) := by
  rw [sorted_iff_keys, keys_replace]
  exact sorted_iff_keys.mp h

-- Behind the first property there is none of its key.
theorem find?_of_head_lt (h : ∀ q ∈ ps, k < q.key) : find? k ps = none := by
  cases hf : find? k ps
  case none   => rfl
  case some q =>
    have := h q <| mem_of_find? hf
    exact absurd (key_of_find? hf ▸ this) (String.lt_irrefl _)

theorem Sorted.ext (hp : Sorted ps) (hq : Sorted qs) (h : ∀ k, find? k ps = find? k qs) :
    ps = qs := by
  induction ps generalizing qs
  case nil =>
    cases qs
    case nil       => rfl
    case cons q qs => simpa [find?] using h q.key
  case cons p ps ih =>
    cases qs
    case nil       => simpa [find?] using h p.key
    case cons q qs =>
      have ⟨hp, hps⟩ := List.pairwise_cons.mp hp
      have ⟨hq, hqs⟩ := List.pairwise_cons.mp hq
      have hpq : p = q := by
        have h₁ := h p.key
        have h₂ := h q.key
        simp only [find?_cons, if_pos] at h₁ h₂
        by_cases he : q.key = p.key
        case pos => simpa [he] using h₁
        case neg =>
          -- Either first key would be found behind the other one.
          have hm₁ := mem_of_find? (by simpa [he] using h₁.symm)
          have hm₂ := mem_of_find? (by simpa [Ne.symm he] using h₂)
          exact absurd (String.lt_trans (hp q hm₂) (hq p hm₁)) (String.lt_irrefl _)
      subst hpq
      refine congrArg _ <| ih hps hqs fun k => ?_
      have := h k
      simp only [find?_cons] at this
      split at this
      case isTrue hk  => rw [find?_of_head_lt (hk ▸ hp), find?_of_head_lt (hk ▸ hq)]
      case isFalse hk => exact this

end Storyworld.Schema.Properties
