import Storyworld.Proofs.Formula.Differential

/-!
The derivative of a formula: there is one for all that the rules cover, and with exact constants its value
is the derivative of the value, which the simplification at the end does not change.
-/

namespace Storyworld.Formula

variable {K R : Type*} [Field K] [CommRing R] [Algebra R K] {op : Op} {name var : String}
  {a b e e' : Formula} {da : Except FormulaError Formula}

/-! ## What has a derivative -/

inductive IsElementary : Formula → Prop
  | number (x : Float) : IsElementary (number x)
  | symbol (name : String) : IsElementary (symbol name)
  | neg {e : Formula} : IsElementary e → IsElementary (neg e)
  | binary {op : Op} {a b : Formula} : op ≠ .mod → IsElementary a → IsElementary b →
    IsElementary (binary op a b)
  | apply {name : String} {e : Formula} : name ∈ functions → IsElementary e → IsElementary (apply name e)

theorem exists_outerDerivative (h : name ∈ functions) : ∃ d, outerDerivative? name e = some d := by
  simp only [functions, List.mem_cons, List.not_mem_nil, or_false] at h
  obtain rfl | rfl | rfl | rfl | rfl | rfl | rfl | rfl | rfl | rfl | rfl := h
  all_goals exact ⟨_, rfl⟩

theorem exists_binaryDerivative (ho : op ≠ .mod) :
    ∃ d, binaryDerivative var op a b (.ok e) (.ok e') = .ok d := by
  cases op <;> simp only [binaryDerivative]
  case mod => exact absurd rfl ho
  case pow => split_ifs <;> exact ⟨_, rfl⟩
  all_goals exact ⟨_, rfl⟩

theorem exists_callDerivative (hn : name ∈ functions) :
    ∃ d, callDerivative name [a] [.ok e] = .ok d := by
  obtain ⟨o, ho⟩ := exists_outerDerivative (e := a) hn
  exact ⟨binary .mul o e, by simp [callDerivative, ho]⟩

theorem exists_rule (h : e.IsElementary) (hd : ∃ d, da = .ok d) :
    ∃ d, (if e.mentions var then da else constantDerivative e) = .ok d := by
  split
  case isTrue  => exact hd
  case isFalse => cases h <;> exact ⟨_, rfl⟩

theorem exists_differentiate (h : e.IsElementary) : ∃ d, differentiate var e = .ok d := by
  induction h with
  | number x => exact ⟨number 0, rfl⟩
  | symbol name =>
    unfold differentiate
    exact exists_rule (.symbol name) ⟨_, rfl⟩
  | neg h ih =>
    obtain ⟨d, hd⟩ := ih
    rw [differentiate, hd]
    exact exists_rule h.neg ⟨_, rfl⟩
  | binary ho ha hb iha ihb =>
    obtain ⟨da, hda⟩ := iha
    obtain ⟨db, hdb⟩ := ihb
    rw [differentiate, hda, hdb]
    exact exists_rule (ha.binary ho hb) (exists_binaryDerivative ho)
  | apply hn h ih =>
    obtain ⟨d, hd⟩ := ih
    rw [apply, differentiate, differentiateAll, differentiateAll, hd]
    exact exists_rule (h.apply hn) (exists_callDerivative hn)

-- The constants that are folded once the rules have been applied.
def derivativeFolds (var : String) (e : Formula) : List Fold :=
  match differentiate var e with
  | .ok d => d.folds
  | .error _ => []

theorem scalar_derivative (i : Scalars K) (D : Derivation R K K) (var : String) (e : Formula) :
    (∀ d v w, i.Differential D var → (∀ fold ∈ derivativeFolds var e, fold.IsExact i) →
      derivative var e = .ok d → e.scalar i = some v → d.scalar i = some w → w = D v) ∧
    (e.IsElementary → ∃ d, derivative var e = .ok d) := by
  constructor
  · intro d v w hi hf hd hv hw
    unfold derivative at hd
    unfold derivativeFolds at hf
    cases hc : differentiate var e with
    | error => rw [hc] at hd; cases hd
    | ok c =>
      rw [hc] at hd hf
      obtain rfl : c.simplify = d := Except.ok.inj hd
      have hs : c.scalarBy i i.lenient = c.simplify.scalarBy i i.lenient :=
        stays_simplifyWithin admits_lenient hf (.inl trivial)
      exact yields_differentiate hi hv c hc w (hs.trans (lenient_of_scalar hw))
  · intro h
    obtain ⟨d, hd⟩ : ∃ d, differentiate var e = .ok d := exists_differentiate h
    rw [derivative, hd]
    exact ⟨_, rfl⟩

end Storyworld.Formula

namespace Storyworld

/-! ## Roots of squares -/

-- Rational functions of `x`, with one root for every square and with powers up to the square. They follow
-- the rules under the derivation by `x`.
open Classical in
noncomputable def roots : Scalars (RatFunc ℚ) where
  symbol name := if name = "x" then RatFunc.X else 0
  call name us := match us with
    | [u] => if h : name = "sqrt" ∧ ∃ r, r * r = u then some h.2.choose else none
    | _ => none
  factorial _ := none
  modulo _ _ := none
  power u v := if v = 0 then some 1 else if v = 1 then some u else if v = 2 then some (u * u) else none
  power_zero := by simp
  power_one := by simp

open KaehlerDifferential Polynomial TensorProduct in
theorem exists_derivation : ∃ D : Derivation ℚ (RatFunc ℚ) (RatFunc ℚ), D RatFunc.X = 1 := by
  have : Algebra.FormallyEtale ℚ[X] (RatFunc ℚ) := .of_isLocalization (nonZeroDivisors ℚ[X])
  let e := tensorKaehlerEquivOfFormallyEtale ℚ ℚ[X] (RatFunc ℚ)
  let d : Derivation ℚ ℚ[X] (RatFunc ℚ) := (Algebra.linearMap ℚ[X] (RatFunc ℚ)).compDer derivative'
  let l := d.liftKaehlerDifferential.liftBaseChange (RatFunc ℚ)
  have hX : e.symm (D ℚ (RatFunc ℚ) RatFunc.X) = 1 ⊗ₜ D ℚ ℚ[X] X := by
    rw [← RatFunc.algebraMap_X]
    exact tensorKaehlerEquivOfFormallyEtale_symm_D_algebraMap ..
  exact ⟨(l ∘ₗ e.symm.toLinearMap).compDer (D ℚ (RatFunc ℚ)), by simp [hX, l, d]⟩

variable {D : Derivation ℚ (RatFunc ℚ) (RatFunc ℚ)} {u v w : RatFunc ℚ} {name : String}

theorem symbol_roots : roots.symbol "x" = RatFunc.X := by
  simp [roots]

theorem square_roots : roots.power u 2 = some (u * u) := by
  simp [roots]

theorem call_roots (h : roots.call name [u] = some v) : name = "sqrt" ∧ v * v = u := by
  simp only [roots] at h
  split at h
  case isTrue hr =>
    obtain rfl := Option.some.inj h
    exact ⟨hr.1, hr.2.choose_spec⟩
  case isFalse => cases h

theorem power_roots (h : roots.power u v = some w) : (v = 0 ∧ w = 1) ∨ (v = 1 ∧ w = u) ∨ (v = 2 ∧ w = u * u) := by
  simp only [roots] at h
  split_ifs at h <;> simp_all

theorem derivation_ratCast (q : ℚ) : D (q : RatFunc ℚ) = 0 := by
  rw [← eq_ratCast (algebraMap ℚ (RatFunc ℚ)), D.map_algebraMap]

theorem derivation_root (h : v * v = u) (hu : D u = 0) : D v = 0 := by
  subst h
  have h₂ : 2 * (v * D v) = 0 := by simpa [derivation_mul, two_mul, mul_comm] using hu
  obtain rfl | hv : v = 0 ∨ D v = 0 := by simpa using h₂
  · exact map_zero D
  · exact hv

theorem derivation_power (h : roots.power u v = some w) : D v = 0 ∧ (D u = 0 → D w = 0) := by
  obtain ⟨rfl, rfl⟩ | ⟨rfl, rfl⟩ | ⟨rfl, rfl⟩ := power_roots h
  · simp
  · simp
  · have h₂ : D 2 = 0 := by exact_mod_cast derivation_ratCast (D := D) 2
    simp +contextual [D.leibniz, h₂]

-- Operations on constants give constants.
theorem derivation_operate {op : Op} (hu : D u = 0) (hv : D v = 0) (h : roots.operate op u v = some w) :
    D w = 0 := by
  cases op
  case div =>
    obtain ⟨-, rfl⟩ : v ≠ 0 ∧ u / v = w := by simpa [Scalars.operate] using h
    simp [D.leibniz_div, hu, hv]
  case mod => cases h
  case pow => exact (derivation_power h).2 hu
  all_goals
    obtain rfl := Option.some.inj h
    simp [D.leibniz, hu, hv]

namespace Formula

theorem constant_roots {e : Formula} (hm : ¬e.mentions "x") (hv : e.scalar roots = some v) : D v = 0 := by
  induction e using Formula.rec (motive_2 := fun es => ∀ vs, ¬anyMentions "x" es →
    scalarsBy roots roots.strict es = some vs → ∀ v ∈ vs, D v = 0) generalizing v with
  | number x =>
    obtain ⟨q, -, rfl⟩ := Option.map_eq_some_iff.mp hv
    exact derivation_ratCast q
  | text | matrix => cases hv
  | factorial e =>
    obtain ⟨u, -, hv⟩ := Option.bind_eq_some_iff.mp hv
    cases hv
  | symbol name =>
    have hn : name ≠ "x" := by simpa [mentions] using hm
    obtain rfl : 0 = v := by simpa [scalar, scalarBy, roots, hn] using hv
    exact map_zero D
  | neg e ih =>
    obtain ⟨u, hu, rfl⟩ := Option.map_eq_some_iff.mp hv
    rw [map_neg, ih hm hu, neg_zero]
  | binary op a b iha ihb =>
    obtain ⟨x, y, hx, hy, hw⟩ := scalar_binary.mp hv
    simp only [mentions, Bool.or_eq_true, not_or] at hm
    exact derivation_operate (iha hm.1 hx) (ihb hm.2 hy) hw
  | call name es ih =>
    obtain ⟨us, hus, hw⟩ := Option.bind_eq_some_iff.mp hv
    have hu := ih us hm hus
    cases us with
    | nil => cases hw
    | cons u us =>
      cases us with
      | nil  => exact derivation_root (call_roots hw).2 (hu u List.mem_cons_self)
      | cons => cases hw
  | nil => simp_all [scalarsBy]
  | cons e es ih ihs =>
    rename_i vs hm hvs v hv
    simp only [anyMentions, Bool.or_eq_true, not_or] at hm
    obtain ⟨x, xs, hx, hxs, rfl⟩ := scalarsBy_cons.mp hvs
    obtain rfl | hv := List.mem_cons.mp hv
    · exact ih hm.1 hx
    · exact ihs xs hm.2 hxs v hv

end Formula

theorem agrees_getD {x : Option (RatFunc ℚ)} : Agrees x (x.getD 0) := by
  rintro _ rfl
  rfl

theorem differential_roots (hX : D RatFunc.X = 1) : roots.Differential D "x" where
  symbol := by rwa [symbol_roots]
  constant := Formula.constant_roots
  square _ := square_roots
  chain {name u v slope} hs hc := by
    obtain ⟨hn, rfl⟩ := call_roots hc
    cases hs
    case sqrt =>
      rw [hc]
      refine ⟨_, agrees_getD, ?_⟩
      by_cases hv : v = 0
      case pos => simp [hv]
      case neg =>
        have hq : roots.operate .div 1 (2 * v) = some (1 / (2 * v)) := by simp [Scalars.operate, hv]
        rw [Option.bind_some, hq, Option.getD_some, derivation_mul]
        field_simp
        ring
    all_goals exact absurd hn (by decide)
  power_constant {a b u v w} hb hu hv hw := by
    refine ⟨_, agrees_getD, ?_⟩
    obtain ⟨rfl, rfl⟩ | ⟨rfl, rfl⟩ | ⟨rfl, rfl⟩ := power_roots hw
    · simp
    · rw [sub_self, roots.power_zero, Option.getD_some, one_mul, one_mul]
    · have h₁ : (2 - 1 : RatFunc ℚ) = 1 := by norm_num
      rw [h₁, roots.power_one, Option.getD_some, derivation_mul]
      ring
  constant_power {a b u v w} ha hu hv hw := by
    refine ⟨_, agrees_getD, ?_⟩
    have hD := derivation_power (D := D) hw
    rw [hD.1, hD.2 (Formula.constant_roots ha hu), mul_zero]
  power {a b u v w} ha hb hu hv hw := by
    refine ⟨_, agrees_getD, ?_⟩
    rw [(derivation_power hw).1]
    obtain ⟨rfl, rfl⟩ | ⟨rfl, rfl⟩ | ⟨rfl, rfl⟩ := power_roots hw
    · simp
    · by_cases hw : w = 0
      case pos => simp [hw]
      case neg => field_simp; simp
    · by_cases hu : u = 0
      case pos => simp [hu]
      case neg =>
        rw [derivation_mul]
        field_simp
        ring

namespace Formula

-- `sqrt(x ^ 2)`
def modulus : Formula :=
  apply "sqrt" (square (symbol "x"))

-- `(1 / (2 * sqrt(x ^ 2))) * ((2 * x ^ (2 - 1)) * 1)`
def modulusSlope : Formula :=
  binary .mul (reciprocal (binary .mul (number 2) modulus))
    (binary .mul
      (binary .mul (number 2) (binary .pow (symbol "x") (binary .sub (number 2) (number 1)))) (number 1))

theorem differentiate_modulus : differentiate "x" modulus = .ok modulusSlope := by
  rfl

theorem folds_modulusSlope : modulusSlope.folds = [⟨.sub, 2, 1, 1⟩] := by
  decide +kernel

theorem scalar_modulus (h : roots.call "sqrt" [RatFunc.X * RatFunc.X] = some v) :
    modulus.scalar roots = some v := by
  simpa [modulus, apply, square, scalar, scalarBy, scalarsBy, Scalars.strict, Scalars.operate,
    Binary.toRat?_two, symbol_roots, square_roots] using h

theorem scalar_modulusSlope (h : roots.call "sqrt" [RatFunc.X * RatFunc.X] = some v) (hv : v ≠ 0) :
    modulusSlope.scalar roots = some (RatFunc.X / v) := by
  have hm := scalar_modulus h
  rw [scalar] at hm
  have h₁ : (2 - 1 : RatFunc ℚ) = 1 := by norm_num
  simp [modulusSlope, reciprocal, scalar, scalarBy, Scalars.strict, Scalars.operate, hm, hv, h₁,
    Binary.toRat?_one, Binary.toRat?_two, symbol_roots, roots.power_one]
  field_simp

theorem modulus_derived : ∃ (D : Derivation ℚ (RatFunc ℚ) (RatFunc ℚ)) (v w : RatFunc ℚ),
    D RatFunc.X = 1 ∧ derivative "x" modulus = .ok modulusSlope.simplify ∧
      modulus.scalar roots = some v ∧ v * v = RatFunc.X * RatFunc.X ∧
      modulusSlope.simplify.scalar roots = some w ∧ w = D v ∧ ∃ d, derivative "x" modulus = .ok d := by
  obtain ⟨D, hX⟩ := exists_derivation
  obtain ⟨v, hr⟩ : ∃ v, roots.call "sqrt" [RatFunc.X * RatFunc.X] = some v := by
    refine ⟨_, dif_pos ⟨rfl, RatFunc.X, rfl⟩⟩
  have hv : v ≠ 0 := by
    rintro rfl
    simpa [RatFunc.X_ne_zero] using (call_roots hr).2
  have hd : derivative "x" modulus = .ok modulusSlope.simplify := by
    rw [derivative, differentiate_modulus]
    rfl
  have hf : ∀ fold ∈ modulusSlope.folds, fold.IsExact roots := by
    norm_num [folds_modulusSlope, Fold.IsExact, scalar, scalarBy, Scalars.strict, Scalars.operate,
      Binary.toRat?_one, Binary.toRat?_two]
  have hs : modulusSlope.simplify.scalar roots = some (RatFunc.X / v) := by
    have hs := scalar_modulusSlope hr hv
    rwa [scalar, stays_simplifyWithin admits_strict hf (.inr (Option.isSome_of_eq_some hs))] at hs
  have he : IsElementary modulus := .apply (by decide) (.binary (by decide) (.symbol _) (.number _))
  have h := scalar_derivative roots D "x" modulus
  refine ⟨D, v, RatFunc.X / v, hX, hd, scalar_modulus hr, (call_roots hr).2, hs, ?_, h.2 he⟩
  refine h.1 _ v _ (differential_roots hX) ?_ hd (scalar_modulus hr) hs
  rwa [derivativeFolds, differentiate_modulus]

end Formula

end Storyworld
