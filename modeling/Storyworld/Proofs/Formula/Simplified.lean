import Storyworld.Proofs.Formula.Scalar
import Storyworld.Formula.Simplify

/-!
Simplification keeps the value of a formula, where the constants that it folds are exact, and it brings
in no symbol.
-/

namespace Storyworld

-- A constant that stands for an operation on two others.
structure Fold where
  op : Op
  lhs : Float
  rhs : Float
  result : Float
deriving DecidableEq

namespace Formula

/-! ## Folds -/

-- What is folded, rule by rule: each function below goes with the one of simplification that takes the same
-- decisions.
def gatheredFolds : Formula → Formula → List Fold
  | number x, binary .mul (number y) _ => [⟨.mul, x, y, x * y⟩]
  | _, _ => []

def reducedFolds (opposite : Formula → List Fold) (op : Op) (a b : Formula) : List Fold :=
  match op with
  | .sub => if !b.is 0 && a.is 0 then opposite b else []
  | .mul =>
    if a.is 0 || b.is 0 || a.is 1 || b.is 1 then []
    else if b.is (-1) then opposite a
    else gatheredFolds a b
  | _ => []

def combinedFolds (opposite : Formula → List Fold) (op : Op) (a b : Formula) : List Fold :=
  match (constants? a b).bind fun (x, y) => (fold? op x y).map (Fold.mk op x y) with
  | some f => [f]
  | none => reducedFolds opposite op a b

def foldsWithin : (room : Nat) → Formula → List Fold
  | 0, _ => []
  | room + 1, e => match e with
    | neg e | factorial e => foldsWithin room e
    | binary op a b =>
      foldsWithin room a ++ foldsWithin room b ++
        combinedFolds (fun e => foldsWithin room (neg e)) op
          (simplifyWithin room a) (simplifyWithin room b)
    | call _ es | matrix es => es.flatMap (foldsWithin room)
    | _ => []

-- The constants that the simplification of a formula folds, in the order in which it does.
def folds (e : Formula) : List Fold :=
  foldsWithin e.size e

end Formula

variable {K : Type*} [Field K] {i : Scalars K} {all : Prop} {f : Operator K}

-- The arithmetic of floats errs nowhere.
def Fold.IsExact (i : Scalars K) (fold : Fold) : Prop :=
  ∃ z, (Formula.binary fold.op (.number fold.lhs) (.number fold.rhs)).scalar i = some z ∧
    (Formula.number fold.result).scalar i = some z

-- Under every operator the constants mean the same.
theorem Fold.IsExact.operate {op : Op} {x y z : Float} (h : Fold.IsExact i ⟨op, x, y, z⟩) : ∃ s t r,
    (Formula.number x).scalarBy i f = some s ∧ (Formula.number y).scalarBy i f = some t ∧
      (Formula.number z).scalarBy i f = some r ∧ i.operate op s t = some r := by
  obtain ⟨r, hr, hz⟩ := h
  simp only [Formula.scalar, Formula.scalarBy, Scalars.strict, Option.bind_eq_bind,
    Option.bind_eq_some_iff] at hr hz
  obtain ⟨s, hs, t, ht, hr⟩ := hr
  exact ⟨s, t, r, hs, ht, hz, hr⟩

-- What the rules of simplification ask of an operator.
structure Scalars.Admits (i : Scalars K) (all : Prop) (f : Operator K) : Prop where
  congr {op : Op} {x x' y y' : Option K} : Stays all x x' → Stays all y y' → Stays all (f op x y) (f op x' y')
  of_operate {op : Op} {x y z : K} : i.operate op x y = some z → f op (some x) (some y) = some z
  zero_add (x : Option K) : f .add (some 0) x = x
  add_zero (x : Option K) : f .add x (some 0) = x
  zero_sub (x : Option K) : f .sub (some 0) x = x.map (- ·)
  sub_zero (x : Option K) : f .sub x (some 0) = x
  zero_mul (x : Option K) : Stays all (f .mul (some 0) x) (some 0)
  one_mul (x : Option K) : f .mul (some 1) x = x
  mul_neg_one (x : Option K) : f .mul x (some (-1)) = x.map (- ·)
  mul_comm (x y : Option K) : f .mul x y = f .mul y x
  mul_mul (x y : K) (z : Option K) : f .mul (some x) (f .mul (some y) z) = f .mul (some (x * y)) z
  zero_div (x : Option K) : Stays all (f .div (some 0) x) (some 0)
  div_one (x : Option K) : f .div x (some 1) = x
  pow_zero (x : Option K) : Stays all (f .pow x (some 0)) (some 1)
  pow_one (x : Option K) : f .pow x (some 1) = x

namespace Formula

variable {op : Op} {v x y z : Float} {q : ℚ} {room : Nat} {a b e : Formula} {es : List Formula} {name : String}
  {opposite : Formula → Formula} {oppositeFolds : Formula → List Fold} {s t : K}

theorem scalarBy_binary : (binary op a b).scalarBy i f = f op (a.scalarBy i f) (b.scalarBy i f) :=
  rfl

theorem scalarBy_neg : (neg e).scalarBy i f = (e.scalarBy i f).map (- ·) :=
  rfl

/-! ## Rules -/

theorem scalarBy_zero : (number 0).scalarBy i f = some 0 := by
  simp [scalarBy, Binary.toRat?_zero]

theorem scalarBy_one : (number 1).scalarBy i f = some 1 := by
  simp [scalarBy, Binary.toRat?_one]

theorem constants?_eq_some (h : constants? a b = some (x, y)) : a = number x ∧ b = number y := by
  unfold constants? at h
  split at h <;> simp_all

theorem scalarBy_of_is (h : a.is v) (hv : Binary.toRat? v = some q) : a.scalarBy i f = some (q : K) := by
  cases a
  case number x =>
    have hx : x == v := h
    simp only [scalarBy, Binary.toRat?_of_beq hx, hv, Option.map_some]
  all_goals cases h

theorem scalarBy_of_is_zero (h : a.is 0) : a.scalarBy i f = some 0 := by
  simpa using scalarBy_of_is h Binary.toRat?_zero

theorem scalarBy_of_is_one (h : a.is 1) : a.scalarBy i f = some 1 := by
  simpa using scalarBy_of_is h Binary.toRat?_one

theorem scalarBy_of_is_neg_one (h : a.is (-1)) : a.scalarBy i f = some (-1) := by
  have hv : Binary.toRat? (-1) = some (-1) := by simp [Binary.toRat?_neg, Binary.toRat?_one]
  simpa using scalarBy_of_is h hv

theorem scalarBy_negated : (negated a).scalarBy i f = (a.scalarBy i f).map (- ·) := by
  unfold negated
  split <;> simp [scalarBy, Binary.toRat?_neg, Function.comp_def]

-- Folding a constant keeps what an operation comes to.
theorem scalarBy_fold (hi : i.Admits all f) (h : Fold.IsExact i ⟨op, x, y, z⟩) :
    (number z).scalarBy i f = f op ((number x).scalarBy i f) ((number y).scalarBy i f) := by
  obtain ⟨s, t, r, hs, ht, hr, hm⟩ := h.operate (f := f)
  rw [hs, ht, hr, hi.of_operate hm]

theorem scalarBy_gather (hi : i.Admits all f) (h : ∀ fold ∈ gatheredFolds a b, fold.IsExact i) :
    (gather a b).scalarBy i f = f .mul (a.scalarBy i f) (b.scalarBy i f) := by
  unfold gather
  split
  case h_1 x y e =>
    obtain ⟨s, t, r, hs, ht, hr, hm⟩ := (h ⟨.mul, x, y, x * y⟩ (by simp [gatheredFolds])).operate (f := f)
    obtain rfl : s * t = r := by simpa [Scalars.operate] using hm
    rw [scalarBy_binary, scalarBy_binary, hs, ht, hr, hi.mul_mul]
  case h_2 => exact hi.mul_comm ..
  case h_3 => rfl

theorem stays_reduce (hi : i.Admits all f) (h : ∀ fold ∈ reducedFolds oppositeFolds op a b, fold.IsExact i)
    (ho : ∀ e, (∀ fold ∈ oppositeFolds e, fold.IsExact i) →
      Stays all ((neg e).scalarBy i f) ((opposite e).scalarBy i f)) :
    Stays all (f op (a.scalarBy i f) (b.scalarBy i f)) ((reduce opposite op a b).scalarBy i f) := by
  cases op <;> simp only [reduce, reducedFolds] at h ⊢
  case add =>
    split_ifs with ha hb
    · rw [scalarBy_of_is_zero ha, hi.zero_add]
    · rw [scalarBy_of_is_zero hb, hi.add_zero]
    · rfl
  case sub =>
    split_ifs with hb ha
    · rw [scalarBy_of_is_zero hb, hi.sub_zero]
    · rw [scalarBy_of_is_zero ha, hi.zero_sub]
      exact ho b (by simpa [ha, hb] using h)
    · rfl
  case mul =>
    split_ifs with h₀ ha hb hn
    · rw [scalarBy_zero]
      obtain ha | hb := Bool.or_eq_true_iff.mp h₀
      · rw [scalarBy_of_is_zero ha]
        exact hi.zero_mul _
      · rw [scalarBy_of_is_zero hb, hi.mul_comm]
        exact hi.zero_mul _
    · rw [scalarBy_of_is_one ha, hi.one_mul]
    · rw [scalarBy_of_is_one hb, hi.mul_comm, hi.one_mul]
    · rw [scalarBy_of_is_neg_one hn, hi.mul_neg_one]
      exact ho a (by simpa [h₀, ha, hb, hn] using h)
    · rw [scalarBy_gather hi (by simpa [h₀, ha, hb, hn] using h)]
  case div =>
    split_ifs with hb ha
    · rw [scalarBy_of_is_one hb, hi.div_one]
    · rw [scalarBy_of_is_zero ha, scalarBy_zero]
      exact hi.zero_div _
    · rfl
  case mod => rfl
  case pow =>
    split_ifs with hb hb
    · rw [scalarBy_of_is_one hb, hi.pow_one]
    · rw [scalarBy_of_is_zero hb, scalarBy_one]
      exact hi.pow_zero _
    · rfl

theorem stays_combine (hi : i.Admits all f)
    (h : ∀ fold ∈ combinedFolds oppositeFolds op a b, fold.IsExact i)
    (ho : ∀ e, (∀ fold ∈ oppositeFolds e, fold.IsExact i) →
      Stays all ((neg e).scalarBy i f) ((opposite e).scalarBy i f)) :
    Stays all (f op (a.scalarBy i f) (b.scalarBy i f)) ((combine opposite op a b).scalarBy i f) := by
  unfold combine
  split
  case h_1 z hz =>
    obtain ⟨⟨x, y⟩, hc, hf⟩ := Option.bind_eq_some_iff.mp hz
    dsimp only at hf
    obtain ⟨rfl, rfl⟩ := constants?_eq_some hc
    rw [scalarBy_fold hi (h ⟨op, x, y, z⟩ (by simp [combinedFolds, constants?, hf]))]
  case h_2 hz =>
    refine stays_reduce hi (fun fold hf => h fold ?_) ho
    have hn : ((constants? a b).bind fun r => (fold? op r.1 r.2).map (Fold.mk op r.1 r.2)) = none := by
      simpa [Option.bind_eq_none_iff] using hz
    rwa [combinedFolds, hn]

/-! ## Whole formulas -/

theorem stays_scalarsBy {g : Formula → Formula} (h : ∀ e ∈ es, Stays all (e.scalarBy i f) ((g e).scalarBy i f)) :
    Stays all (scalarsBy i f es) (scalarsBy i f (es.map g)) := by
  induction es with
  | nil => rfl
  | cons e es ih =>
    refine (h e List.mem_cons_self).bind fun x => ?_
    exact (ih fun e he => h e (List.mem_cons_of_mem _ he)).bind fun xs => .refl

theorem stays_simplifyWithin (hi : i.Admits all f) (h : ∀ fold ∈ foldsWithin room e, fold.IsExact i) :
    Stays all (e.scalarBy i f) ((simplifyWithin room e).scalarBy i f) := by
  induction room generalizing e with
  | zero => rfl
  | succ room ih =>
    cases e with
    | number | text | symbol | matrix => rfl
    | neg e =>
      rw [simplifyWithin, scalarBy_negated]
      exact (ih h).map
    | binary op a b =>
      simp only [foldsWithin, List.mem_append, or_imp, forall_and] at h
      obtain ⟨⟨ha, hb⟩, hc⟩ := h
      rw [simplifyWithin]
      exact (hi.congr (ih ha) (ih hb)).trans (stays_combine hi hc fun e he => ih he)
    | factorial e => exact (ih h).bind fun x => .refl
    | call name es =>
      refine (stays_scalarsBy fun e he => ih fun fold hf => h fold ?_).bind fun xs => .refl
      exact List.mem_flatMap.mpr ⟨e, he, hf⟩

/-! ## Symbols -/

theorem mentions_negated : (negated a).mentions name = a.mentions name := by
  unfold negated
  split <;> rfl

theorem mentions_gather (h : (gather a b).mentions name) : a.mentions name ∨ b.mentions name := by
  unfold gather at h
  split at h <;> simp_all [mentions, or_comm]

theorem mentions_reduce (ho : ∀ e, (opposite e).mentions name → e.mentions name)
    (h : (reduce opposite op a b).mentions name) : a.mentions name ∨ b.mentions name := by
  have hb : (binary op a b).mentions name → a.mentions name ∨ b.mentions name := by simp [mentions]
  cases op <;> simp only [reduce] at h
  case mod => exact hb h
  all_goals split_ifs at h
  all_goals first
    | exact hb h
    | exact .inl h
    | exact .inr h
    | exact .inl (ho a h)
    | exact .inr (ho b h)
    | exact mentions_gather h
    | simp [mentions] at h

theorem mentions_combine (ho : ∀ e, (opposite e).mentions name → e.mentions name)
    (h : (combine opposite op a b).mentions name) : a.mentions name ∨ b.mentions name := by
  unfold combine at h
  split at h
  case h_1 => simp [mentions] at h
  case h_2 => exact mentions_reduce ho h

theorem mentions_simplifyWithin (h : (simplifyWithin room e).mentions name) : e.mentions name := by
  induction room generalizing e with
  | zero => exact h
  | succ room ih =>
    have hs (es : List Formula) (h : anyMentions name (es.map (simplifyWithin room))) :
        anyMentions name es := by
      simp only [anyMentions_eq, List.any_map, List.any_eq_true] at h ⊢
      obtain ⟨e, he, h⟩ := h
      exact ⟨e, he, ih h⟩
    cases e with
    | number | text | symbol => exact h
    | neg e =>
      rw [simplifyWithin, mentions_negated] at h
      exact ih (e := e) h
    | binary op a b =>
      have h := mentions_combine (fun e he => ih (e := neg e) he) h
      simpa [mentions] using h.imp ih ih
    | factorial e => exact ih (e := e) h
    | call _ es | matrix es => exact hs es h

/-! ## The value -/

theorem admits_strict : i.Admits False i.strict where
  congr hx hy := hx.bind fun _ => hy.bind fun _ => .refl
  of_operate h := by simpa [Scalars.strict] using h
  zero_add x := by cases x <;> simp [Scalars.strict, Scalars.operate]
  add_zero x := by cases x <;> simp [Scalars.strict, Scalars.operate]
  zero_sub x := by cases x <;> simp [Scalars.strict, Scalars.operate]
  sub_zero x := by cases x <;> simp [Scalars.strict, Scalars.operate]
  zero_mul x := by cases x <;> simp [Scalars.strict, Scalars.operate, Stays]
  one_mul x := by cases x <;> simp [Scalars.strict, Scalars.operate]
  mul_neg_one x := by cases x <;> simp [Scalars.strict, Scalars.operate]
  mul_comm x y := by cases x <;> cases y <;> simp [Scalars.strict, Scalars.operate, mul_comm]
  mul_mul x y z := by cases z <;> simp [Scalars.strict, Scalars.operate, mul_assoc]
  zero_div x := by cases x <;> simp [Scalars.strict, Scalars.operate, Stays]
  div_one x := by cases x <;> simp [Scalars.strict, Scalars.operate]
  pow_zero x := by cases x <;> simp [Scalars.strict, Scalars.operate, Stays, i.power_zero]
  pow_one x := by cases x <;> simp [Scalars.strict, Scalars.operate, i.power_one]

open Classical in
theorem admits_lenient : i.Admits True i.lenient where
  congr hx hy := by rw [hx (.inl trivial), hy (.inl trivial)]
  of_operate := Scalars.lenient_of_operate
  zero_add := admits_strict.zero_add
  add_zero := admits_strict.add_zero
  zero_sub := admits_strict.zero_sub
  sub_zero := admits_strict.sub_zero
  zero_mul x := by simp [Scalars.lenient, Stays]
  one_mul x := by simp +contextual [Scalars.lenient, admits_strict.one_mul, eq_comm]
  mul_neg_one x := by simp +contextual [Scalars.lenient, admits_strict.mul_neg_one]
  mul_comm x y := by simp only [Scalars.lenient, @or_comm (x = some 0), admits_strict.mul_comm x y]
  mul_mul x y z := by
    by_cases hn : x = 0 ∨ y = 0 ∨ z = some 0
    case pos => obtain rfl | rfl | rfl := hn <;> simp [Scalars.lenient]
    case neg =>
      simp only [not_or] at hn
      cases z <;> simp_all [Scalars.lenient, Scalars.strict, Scalars.operate, mul_assoc]
  zero_div x := by simp [Scalars.lenient, Stays]
  div_one x := by simp +contextual [Scalars.lenient, admits_strict.div_one, eq_comm]
  pow_zero x := by simp [Scalars.lenient, Stays]
  pow_one x := by simp [Scalars.lenient, admits_strict.pow_one]

theorem scalar_simplify (i : Scalars K) (e : Formula) :
    (∀ v, (∀ fold ∈ e.folds, fold.IsExact i) → e.scalar i = some v → e.simplify.scalar i = some v) ∧
      ∀ name, e.simplify.mentions name → e.mentions name := by
  refine ⟨fun v h hv => ?_, fun name => mentions_simplifyWithin⟩
  have hs : e.scalar i = e.simplify.scalar i :=
    stays_simplifyWithin admits_strict h (.inr (Option.isSome_of_eq_some hv))
  rw [← hs, hv]

-- Every symbol is seven, and of the powers there are only the first two.
noncomputable def sevens : Scalars ℚ where
  symbol _ := 7
  call _ _ := none
  factorial _ := none
  modulo _ _ := none
  power x y := if y = 0 then some 1 else if y = 1 then some x else none
  power_zero := by simp
  power_one := by simp

-- `0 - (2 * (-1 * x) - 0)`
def debt : Formula :=
  binary .sub (number 0)
    (binary .sub (binary .mul (number 2) (binary .mul (neg (number 1)) (symbol "x"))) (number 0))

theorem folds_debt : debt.folds = [⟨.mul, 2, -1, -2⟩] := by
  decide +kernel

theorem debt_simplified : debt.scalar sevens = some 14 ∧ debt.simplify.scalar sevens = some 14 ∧
    (debt.simplify.mentions "x" → debt.mentions "x") := by
  have hv : debt.scalar sevens = some 14 := by
    norm_num [debt, scalar, scalarBy, Scalars.strict, Scalars.operate, sevens, Binary.toRat?_zero,
      Binary.toRat?_one, Binary.toRat?_two]
  have hf : ∀ fold ∈ debt.folds, fold.IsExact sevens := by
    simp [folds_debt, Fold.IsExact, scalar, scalarBy, Scalars.strict, Scalars.operate,
      Binary.toRat?_neg, Binary.toRat?_one, Binary.toRat?_two]
  exact ⟨hv, (scalar_simplify sevens debt).1 14 hf hv, (scalar_simplify sevens debt).2 "x"⟩

end Formula

end Storyworld
