import Storyworld.Proofs.Formula.Simplified
import Storyworld.Proofs.Formula.Written

/-!
The simplest forms of formulas. What simplification leaves has no needless part and nothing to fold, but
for products that start with a constant: such a product may have to be simplified once more.
-/

namespace Storyworld.Formula

variable {op : Op} {v x y : Float} {room room' : Nat} {a a' b b' e : Formula} {es : List Formula}
  {p : Formula → Prop} {f opposite opposite' : Formula → Formula}

/-! ## Sizes -/

-- All that combining does: a part is dropped, or the operation stays as it is, or the constant of a
-- product goes to the front.
theorem combine_cases (op : Op) (a b : Formula) (ho : ∀ e, (opposite e).size ≤ e.size + 1) :
    (combine opposite op a b).size ≤ a.size + b.size ∨ combine opposite op a b = binary op a b ∨
      (op = .mul ∧ (∃ y, b = number y) ∧ combine opposite op a b = binary .mul b a) := by
  have ha := a.size_pos
  have hb := b.size_pos
  have hoa := ho a
  have hob := ho b
  unfold combine
  split
  case h_1 => exact .inl (by simp only [size]; omega)
  case h_2 =>
    cases op <;> simp only [reduce]
    case mod => exact .inr (.inl trivial)
    case mul =>
      split_ifs
      case neg =>
        unfold gather
        split
        case h_1 => exact .inl (by simp only [size]; omega)
        case h_2 => exact .inr (.inr ⟨trivial, ⟨_, rfl⟩, rfl⟩)
        case h_3 => exact .inr (.inl rfl)
      all_goals exact .inl (by first | omega | simp only [size]; omega)
    all_goals
      split_ifs
      all_goals first
        | exact .inr (.inl rfl)
        | exact .inl (by first | omega | simp only [size]; omega)

theorem size_combine (ho : ∀ e, (opposite e).size ≤ e.size + 1) :
    (combine opposite op a b).size ≤ a.size + b.size + 1 := by
  obtain h | h | ⟨-, -, h⟩ := combine_cases op a b ho
  · omega
  · rw [h, size]
  · rw [h, size]
    omega

theorem size_negated : (negated e).size ≤ e.size + 1 := by
  unfold negated
  split <;> simp only [size] <;> omega

theorem sizeOfAll_map (h : ∀ e ∈ es, (f e).size ≤ e.size) : sizeOfAll (es.map f) ≤ sizeOfAll es := by
  induction es with
  | nil => exact Nat.le_refl 0
  | cons e es ih =>
    have he := h e List.mem_cons_self
    have hs := ih fun e he => h e (List.mem_cons_of_mem _ he)
    simp only [List.map_cons, sizeOfAll]
    omega

theorem size_simplifyWithin : (simplifyWithin room e).size ≤ e.size := by
  induction room generalizing e with
  | zero => exact Nat.le_refl _
  | succ room ih =>
    cases e with
    | number | text | symbol => exact Nat.le_refl _
    | neg e => exact size_negated.trans (Nat.succ_le_succ ih)
    | binary op a b =>
      refine (size_combine fun e => ih (e := neg e)).trans ?_
      have ha := ih (e := a)
      have hb := ih (e := b)
      simp only [size]
      omega
    | factorial e => exact Nat.succ_le_succ ih
    | call _ es | matrix es => exact Nat.succ_le_succ (sizeOfAll_map fun e _ => ih)

theorem size_simplify : e.simplify.size ≤ e.size :=
  size_simplifyWithin

/-! ## Room -/

theorem combine_congr (ha : opposite a = opposite' a) (hb : opposite b = opposite' b) :
    combine opposite op a b = combine opposite' op a b := by
  unfold combine reduce
  rw [ha, hb]

theorem size_le_of_mem (h : e ∈ es) : e.size ≤ sizeOfAll es := by
  induction h with
  | head => exact Nat.le_add_right ..
  | tail _ _ ih => exact ih.trans (Nat.le_add_left ..)

-- Room beyond the size of a formula makes no difference.
theorem simplifyWithin_congr (h : e.size ≤ room) (h' : e.size ≤ room') :
    simplifyWithin room e = simplifyWithin room' e := by
  induction room generalizing e room' with
  | zero => exact absurd e.size_pos (by omega)
  | succ room ih =>
    cases room' with
    | zero => exact absurd e.size_pos (by omega)
    | succ room' =>
      cases e with
      | number | text | symbol => rfl
      | neg e | factorial e =>
        simp only [size, Nat.add_le_add_iff_right] at h h'
        rw [simplifyWithin, simplifyWithin, ih h h']
      | binary op a b =>
        simp only [size, Nat.add_le_add_iff_right] at h h'
        have ha := a.size_pos
        have hb := b.size_pos
        have hna : (simplifyWithin room a).size ≤ a.size := size_simplifyWithin
        have hnb : (simplifyWithin room b).size ≤ b.size := size_simplifyWithin
        have hsa : simplifyWithin room a = simplifyWithin room' a := ih (by omega) (by omega)
        have hsb : simplifyWithin room b = simplifyWithin room' b := ih (by omega) (by omega)
        rw [simplifyWithin, simplifyWithin, ← hsa, ← hsb]
        exact combine_congr (ih (by simp only [size]; omega) (by simp only [size]; omega))
          (ih (by simp only [size]; omega) (by simp only [size]; omega))
      | call _ es | matrix es =>
        simp only [size, Nat.add_le_add_iff_right] at h h'
        simp only [simplifyWithin]
        congr 1
        exact List.map_congr_left fun e he =>
          ih ((size_le_of_mem he).trans h) ((size_le_of_mem he).trans h')

theorem simplifyWithin_eq (h : e.size ≤ room) : simplifyWithin room e = e.simplify :=
  simplifyWithin_congr h (Nat.le_refl _)

theorem simplify_neg : (neg e).simplify = negated e.simplify :=
  rfl

theorem simplify_factorial : (factorial e).simplify = factorial e.simplify :=
  rfl

theorem simplify_binary :
    (binary op a b).simplify = combine (fun e => (neg e).simplify) op a.simplify b.simplify := by
  have ha := a.size_pos
  have hb := b.size_pos
  have hna := size_simplify (e := a)
  have hnb := size_simplify (e := b)
  rw [simplify, size, simplifyWithin, simplifyWithin_eq (e := a) (by omega),
    simplifyWithin_eq (e := b) (by omega)]
  exact combine_congr (simplifyWithin_eq (by simp only [size]; omega))
    (simplifyWithin_eq (by simp only [size]; omega))

theorem map_simplifyWithin : es.map (simplifyWithin (sizeOfAll es)) = es.map simplify :=
  List.map_congr_left fun _ he => simplifyWithin_eq (size_le_of_mem he)

theorem simplify_call {name : String} : (call name es).simplify = call name (es.map simplify) := by
  rw [simplify, size, simplifyWithin, map_simplifyWithin]

theorem simplify_matrix : (matrix es).simplify = matrix (es.map simplify) := by
  rw [simplify, size, simplifyWithin, map_simplifyWithin]

/-! ## What simplification leaves -/

-- Two constants that an operation does not make a finite number of.
def Unfoldable (op : Op) (a b : Formula) : Prop :=
  ∀ x y, a = number x → b = number y → fold? op x y = none

-- Nothing is left to fold or to drop. Of a product this says only where its constants are.
def Reduced : Formula → Prop
  | neg (number _) | neg (neg _) => False
  | binary op a b => match op with
    | .add | .sub => Unfoldable op a b ∧ ¬a.is 0 ∧ ¬b.is 0
    | .mul => (∃ y, b = number y) → ∃ x, a = number x
    | .div => Unfoldable op a b ∧ ¬a.is 0 ∧ ¬b.is 1
    | .pow => Unfoldable op a b ∧ ¬b.is 0 ∧ ¬b.is 1
    | .mod => True
  | _ => True

-- A product that starts with a constant is done: nothing is dropped for it, and it is gathered with no
-- other one. Of two constants whose product is too large, each goes to the front of the other.
def Gathered : Formula → Prop
  | binary .mul (number x) b =>
    ¬x == 0 ∧ ¬x == 1 ∧ (∀ y c, b ≠ binary .mul (number y) c) ∧
      ∀ y, b = number y → x = y ∧ ¬(x * y).isFinite
  | _ => True

theorem everyOf_map (h : ∀ e ∈ es, (f e).Every p) : EveryOf p (es.map f) := by
  induction es with
  | nil => trivial
  | cons e es ih =>
    exact ⟨h e List.mem_cons_self, ih fun e he => h e (List.mem_cons_of_mem _ he)⟩

theorem unfoldable (h : ((constants? a b).bind fun r => fold? op r.1 r.2) = none) : Unfoldable op a b := by
  rintro x y rfl rfl
  exact h

theorem every_reduced_negated (h : e.Every Reduced) : (negated e).Every Reduced := by
  unfold negated
  split
  case h_1 => trivial
  case h_2 => exact h.2
  case h_3 hx hn =>
    refine ⟨?_, h⟩
    cases e
    case number => exact hx _ rfl
    case neg    => exact hn _ rfl
    all_goals trivial

theorem every_reduced_gather (ha : a.Every Reduced) (hb : b.Every Reduced) :
    (gather a b).Every Reduced := by
  unfold gather
  split
  case h_1        => exact ⟨fun _ => ⟨_, rfl⟩, trivial, hb.2.2⟩
  case h_2        => exact ⟨fun _ => ⟨_, rfl⟩, trivial, ha⟩
  case h_3 hy _   => exact ⟨fun ⟨y, h⟩ => absurd h (hy y), ha, hb⟩

theorem every_reduced_combine (ha : a.Every Reduced) (hb : b.Every Reduced)
    (hoa : (opposite a).Every Reduced) (hob : (opposite b).Every Reduced) :
    (combine opposite op a b).Every Reduced := by
  unfold combine
  split
  case h_1 => trivial
  case h_2 hz =>
    have hu := unfoldable hz
    cases op <;> simp only [reduce]
    case mod => exact ⟨trivial, ha, hb⟩
    all_goals split_ifs
    all_goals first
      | exact ⟨⟨hu, ‹_›, ‹_›⟩, ha, hb⟩
      | exact every_reduced_gather ha hb
      | assumption
      | trivial

theorem every_reduced_simplify : e.simplify.Every Reduced := by
  induction hs : e.size using Nat.strong_induction_on generalizing e with
  | _ n ih =>
    subst hs
    cases e with
    | number | text | symbol => trivial
    | neg e => exact every_reduced_negated (ih _ (Nat.lt_succ_self _) rfl)
    | binary op a b =>
      have ha := a.size_pos
      have hb := b.size_pos
      have hna := size_simplify (e := a)
      have hnb := size_simplify (e := b)
      rw [simplify_binary]
      refine every_reduced_combine (ih _ ?_ rfl) (ih _ ?_ rfl) (ih _ ?_ rfl) (ih _ ?_ rfl)
      all_goals
        simp only [size]
        omega
    | factorial e => exact ⟨trivial, ih _ (Nat.lt_succ_self _) rfl⟩
    | call name es =>
      rw [simplify_call]
      exact ⟨trivial, everyOf_map fun e he => ih _ (Nat.lt_succ_of_le (size_le_of_mem he)) rfl⟩
    | matrix es =>
      rw [simplify_matrix]
      exact ⟨trivial, everyOf_map fun e he => ih _ (Nat.lt_succ_of_le (size_le_of_mem he)) rfl⟩

/-! ## What simplification keeps -/

theorem is_eq_false (h : ∀ x, a ≠ number x) : a.is v = false := by
  cases a
  case number x => exact absurd rfl (h x)
  all_goals rfl

-- A constant that is too large to be squared is not minus one.
theorem not_neg_one (h : ¬(x * x).isFinite) : ¬x == -1 := by
  intro hx
  obtain ⟨-, -, rfl | ⟨rfl, -⟩ | ⟨rfl, -⟩⟩ := Float.beq_iff_ne_nan_and_eq.mp hx
  all_goals exact h (by decide +kernel)

theorem fold?_mul : fold? .mul x y = none ↔ ¬(x * y).isFinite := by
  simp [fold?]

theorem combine_of_constants (h : fold? op x y = none) :
    combine opposite op (number x) (number y) = reduce opposite op (number x) (number y) := by
  simp [combine, constants?, h]

theorem combine_of_none (h : constants? a b = none) : combine opposite op a b = reduce opposite op a b := by
  simp [combine, h]

theorem combine_of_unfoldable (h : Unfoldable op a b) : combine opposite op a b = reduce opposite op a b := by
  cases hc : constants? a b with
  | none => exact combine_of_none hc
  | some r =>
    obtain ⟨rfl, rfl⟩ := constants?_eq_some hc
    exact combine_of_constants (h _ _ rfl rfl)

theorem gather_eq_self (h : Gathered (binary .mul a b)) (hr : Reduced (binary .mul a b)) :
    gather a b = binary .mul a b := by
  unfold gather
  split
  case h_1 y c => exact absurd rfl (h.2.2.1 y c)
  case h_2 y =>
    obtain ⟨x, rfl⟩ := hr ⟨y, rfl⟩
    rw [(h.2.2.2 y rfl).1]
  case h_3 => rfl

theorem unfoldable_of_gathered (h : Gathered (binary .mul a b)) : Unfoldable .mul a b := by
  rintro x y rfl rfl
  exact fold?_mul.mpr (h.2.2.2 y rfl).2

theorem is_left_of_gathered (h : Gathered (binary .mul a b)) : a.is 0 = false ∧ a.is 1 = false := by
  cases a
  case number x => exact ⟨Bool.eq_false_iff.mpr h.1, Bool.eq_false_iff.mpr h.2.1⟩
  all_goals exact ⟨rfl, rfl⟩

theorem is_right_of_gathered (h : Gathered (binary .mul a b)) (hr : Reduced (binary .mul a b)) :
    b.is 0 = false ∧ b.is 1 = false ∧ b.is (-1) = false := by
  by_cases hb : ∃ y, b = number y
  case pos =>
    obtain ⟨y, rfl⟩ := hb
    obtain ⟨x, rfl⟩ := hr ⟨y, rfl⟩
    obtain ⟨h₀, h₁, -, hs⟩ := h
    obtain ⟨rfl, hf⟩ := hs y rfl
    exact ⟨Bool.eq_false_iff.mpr h₀, Bool.eq_false_iff.mpr h₁, Bool.eq_false_iff.mpr (not_neg_one hf)⟩
  case neg =>
    have hb := not_exists.mp hb
    exact ⟨is_eq_false hb, is_eq_false hb, is_eq_false hb⟩

theorem combine_eq_self (hr : Reduced (binary op a b)) (hg : Gathered (binary op a b)) :
    combine opposite op a b = binary op a b := by
  cases op
  case mul =>
    obtain ⟨ha₀, ha₁⟩ := is_left_of_gathered hg
    obtain ⟨hb₀, hb₁, hbn⟩ := is_right_of_gathered hg hr
    rw [combine_of_unfoldable (unfoldable_of_gathered hg)]
    simp [reduce, ha₀, ha₁, hb₀, hb₁, hbn, gather_eq_self hg hr]
  case mod => exact combine_of_unfoldable fun _ _ _ _ => rfl
  all_goals
    rw [combine_of_unfoldable hr.1]
    simp [reduce, hr.2.1, hr.2.2]

theorem negated_eq_self (h : Reduced (neg e)) : negated e = neg e := by
  cases e
  case number | neg => exact h.elim
  all_goals rfl

theorem simplify_eq_self (hr : e.Every Reduced) (hg : e.Every Gathered) : e.simplify = e := by
  induction e using Formula.rec (motive_2 := fun es => EveryOf Reduced es → EveryOf Gathered es →
    es.map simplify = es) with
  | number | text | symbol => rfl
  | neg e ih => rw [simplify_neg, ih hr.2 hg.2, negated_eq_self hr.1]
  | binary op a b iha ihb =>
    rw [simplify_binary, iha hr.2.1 hg.2.1, ihb hr.2.2 hg.2.2, combine_eq_self hr.1 hg.1]
  | factorial e ih => rw [simplify_factorial, ih hr.2 hg.2]
  | call name es ih => rw [simplify_call, ih hr.2 hg.2]
  | matrix es ih => rw [simplify_matrix, ih hr.2 hg.2]
  | nil => rfl
  | cons e es ih ihs =>
    rename_i hr hg
    rw [List.map_cons, ih hr.1 hg.1, ihs hr.2 hg.2]

-- A part of a formula is smaller than the formula.
theorem ne_of_size_lt (h : a.size < b.size) : a ≠ b := by
  rintro rfl
  exact Nat.lt_irrefl _ h

theorem gathered_of_gather (h : gather (number x) b = binary .mul (number x) b) :
    (∀ y c, b ≠ binary .mul (number y) c) ∧ ∀ y, b = number y → x = y := by
  constructor
  · rintro y c rfl
    simp only [gather, binary.injEq, true_and] at h
    exact ne_of_size_lt (by simp only [size]; omega) h.2
  · rintro y rfl
    simp only [gather, binary.injEq, number.injEq, true_and] at h
    exact h.2

theorem gathered_of_combine (ho : (opposite (number x)).size ≤ 2)
    (h : combine opposite .mul (number x) b = binary .mul (number x) b) :
    Gathered (binary .mul (number x) b) := by
  have hb := b.size_pos
  unfold combine at h
  split at h
  case h_1 => cases h
  case h_2 hz =>
    simp only [reduce] at h
    split_ifs at h with h₀ h₁ _ _
    · exact absurd h (ne_of_size_lt (by simp only [size]; omega))
    · exact absurd h (ne_of_size_lt (by simp only [size]; omega))
    · obtain ⟨hc, hy⟩ := gathered_of_gather h
      refine ⟨fun hx => h₀ (by simp [is, hx]), h₁, hc, fun y hb => ⟨hy y hb, ?_⟩⟩
      exact fold?_mul.mp (unfoldable hz x y rfl hb)

theorem operands_of_combine (ho : ∀ e, (opposite e).size ≤ e.size + 1) (ha : a'.size ≤ a.size)
    (hb : b'.size ≤ b.size) (h : combine opposite op a' b' = binary op a b) :
    (a' = a ∧ b' = b) ∨ ∃ y, a = number y ∧ b' = number y ∧ a' = b := by
  obtain hc | hc | ⟨rfl, ⟨y, rfl⟩, hc⟩ := combine_cases op a' b' ho
  · rw [h, size] at hc
    omega
  · rw [hc, binary.injEq] at h
    exact .inl h.2
  · rw [hc, binary.injEq] at h
    exact .inr ⟨y, h.2.1.symm, rfl, h.2.2⟩

theorem simplify_operands (h : (binary op a b).simplify = binary op a b) : a.simplify = a ∧ b.simplify = b := by
  rw [simplify_binary] at h
  obtain h | ⟨y, rfl, hb, ha⟩ := operands_of_combine (fun e => size_simplify) size_simplify size_simplify h
  · exact h
  · obtain rfl : number y = b := ha
    exact ⟨rfl, rfl⟩

theorem negated_eq_neg (ha : a.size ≤ e.size) (h : negated a = neg e) : a = e := by
  unfold negated at h
  split at h
  case h_1 => cases h
  case h_2 =>
    subst h
    simp only [size] at ha
    omega
  case h_3 => exact neg.inj h

theorem gathered_of_simplify_eq_self (h : e.simplify = e) : e.Every Gathered := by
  induction e using Formula.rec (motive_2 := fun es => es.map simplify = es → EveryOf Gathered es) with
  | number | text | symbol => trivial
  | neg e ih => exact ⟨trivial, ih (negated_eq_neg size_simplify h)⟩
  | binary op a b iha ihb =>
    have ⟨ha, hb⟩ := simplify_operands h
    refine ⟨?_, iha ha, ihb hb⟩
    rw [simplify_binary, ha, hb] at h
    cases op
    case mul =>
      cases a
      case number x => exact gathered_of_combine size_simplify h
      all_goals trivial
    all_goals trivial
  | factorial e ih => exact ⟨trivial, ih (factorial.inj h)⟩
  | call name es ih =>
    rw [simplify_call, call.injEq] at h
    exact ⟨trivial, ih h.2⟩
  | matrix es ih =>
    rw [simplify_matrix, matrix.injEq] at h
    exact ⟨trivial, ih h⟩
  | nil => trivial
  | cons e es ih ihs =>
    rename_i h
    rw [List.map_cons, List.cons.injEq] at h
    exact ⟨ih h.1, ihs h.2⟩

/-! ## Formulas that come to rest at once -/

-- A constant, or a product that starts with one.
def StartsConstant : Formula → Prop
  | number _ | binary .mul (number _) _ => True
  | _ => False

-- No product has two operands that come down to constants or to products that start with one, but for two
-- constants that can be multiplied.
def Spread : Formula → Prop
  | binary .mul a b => a.simplify.StartsConstant → b.simplify.StartsConstant →
    ∃ x y, a.simplify = number x ∧ b.simplify = number y ∧ (x * y).isFinite
  | _ => True

theorem every_gathered_negated (h : e.Every Gathered) : (negated e).Every Gathered := by
  unfold negated
  split
  case h_1 => trivial
  case h_2 => exact h.2
  case h_3 => exact ⟨trivial, h⟩

theorem every_gathered_gather (ha : a.Every Gathered) (hb : b.Every Gathered) (ha₀ : ¬a.is 0) (ha₁ : ¬a.is 1)
    (hb₀ : ¬b.is 0) (hb₁ : ¬b.is 1) (hs : a.StartsConstant → b.StartsConstant → False) :
    (gather a b).Every Gathered := by
  unfold gather
  split
  case h_1 => exact (hs trivial trivial).elim
  case h_2 y =>
    refine ⟨⟨hb₀, hb₁, ?_, ?_⟩, trivial, ha⟩
    · rintro z c rfl
      exact hs trivial trivial
    · rintro z rfl
      exact (hs trivial trivial).elim
  case h_3 hy hc =>
    refine ⟨?_, ha, hb⟩
    cases a
    case number x => exact ⟨ha₀, ha₁, fun z c hz => hc x z c rfl hz, fun z hz => (hy z hz).elim⟩
    all_goals trivial

theorem every_gathered_combine (ha : a.Every Gathered) (hb : b.Every Gathered)
    (hoa : (opposite a).Every Gathered) (hob : (opposite b).Every Gathered)
    (hs : op = .mul → a.StartsConstant → b.StartsConstant →
      ∃ x y, a = number x ∧ b = number y ∧ (x * y).isFinite) :
    (combine opposite op a b).Every Gathered := by
  unfold combine
  split
  case h_1 => trivial
  case h_2 hz =>
    cases op <;> simp only [reduce]
    case mod => exact ⟨trivial, ha, hb⟩
    case mul =>
      split_ifs with h₀ ha₁ hb₁ hbn
      case neg =>
        obtain ⟨ha₀, hb₀⟩ : ¬a.is 0 ∧ ¬b.is 0 := by simpa using h₀
        refine every_gathered_gather ha hb ha₀ ha₁ hb₀ hb₁ fun hsa hsb => ?_
        obtain ⟨x, y, rfl, rfl, hf⟩ := hs rfl hsa hsb
        exact fold?_mul.mp (unfoldable hz x y rfl rfl) hf
      all_goals first | assumption | trivial
    all_goals
      split_ifs
      all_goals first | exact ⟨trivial, ha, hb⟩ | assumption | trivial

theorem simplify_simplify_of_gathered (h : e.simplify.Every Gathered) : e.simplify.simplify = e.simplify :=
  simplify_eq_self every_reduced_simplify h

theorem every_gathered_simplify (h : e.Every Spread) : e.simplify.Every Gathered := by
  induction e using Formula.rec (motive_2 := fun es => EveryOf Spread es → EveryOf Gathered (es.map simplify)) with
  | number | text | symbol => trivial
  | neg e ih => exact every_gathered_negated (ih h.2)
  | binary op a b iha ihb =>
    have ha := iha h.2.1
    have hb := ihb h.2.2
    rw [simplify_binary]
    refine every_gathered_combine ha hb ?_ ?_ ?_
    · rw [simplify_neg, simplify_simplify_of_gathered ha]
      exact every_gathered_negated ha
    · rw [simplify_neg, simplify_simplify_of_gathered hb]
      exact every_gathered_negated hb
    · rintro rfl
      exact h.1
  | factorial e ih => exact ⟨trivial, ih h.2⟩
  | call name es ih =>
    rw [simplify_call]
    exact ⟨trivial, ih h.2⟩
  | matrix es ih =>
    rw [simplify_matrix]
    exact ⟨trivial, ih h.2⟩
  | nil => trivial
  | cons e es ih ihs =>
    rename_i h
    exact ⟨ih h.1, ihs h.2⟩

theorem simplify_simplify_iff (e : Formula) :
    e.simplify.Every Reduced ∧ (e.simplify.simplify = e.simplify ↔ e.simplify.Every Gathered) ∧
      (e.Every Spread → e.simplify.simplify = e.simplify) :=
  ⟨every_reduced_simplify, ⟨gathered_of_simplify_eq_self, simplify_simplify_of_gathered⟩,
    fun h => simplify_simplify_of_gathered (every_gathered_simplify h)⟩

-- `2 * x * --y + 0`
def share : Formula :=
  binary .add (binary .mul (binary .mul (number 2) (symbol "x")) (neg (neg (symbol "y")))) (number 0)

theorem share_settled : share.Every Spread ∧ share.simplify.simplify = share.simplify := by
  have h : share.Every Spread :=
    ⟨trivial, ⟨fun _ hy => hy.elim, ⟨fun _ hx => hx.elim, trivial, trivial⟩, trivial, trivial, trivial⟩, trivial⟩
  exact ⟨h, (simplify_simplify_iff share).2.2 h⟩

-- `3 * x * 2`
def tithe : Formula :=
  binary .mul (binary .mul (number 3) (symbol "x")) (number 2)

theorem tithe_unsettled : tithe.simplify = binary .mul (number 2) (binary .mul (number 3) (symbol "x")) ∧
    tithe.simplify.simplify ≠ tithe.simplify :=
  ⟨rfl, fun h => (gathered_of_simplify_eq_self h).1.2.2.1 3 (symbol "x") rfl⟩

end Storyworld.Formula
