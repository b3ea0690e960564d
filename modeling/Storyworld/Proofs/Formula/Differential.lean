import Storyworld.Formula.Derivative
import Storyworld.Proofs.Formula.Simplified
import Storyworld.Proofs.Yields

/-!
The derivative of a formula has the derivative of its value: for a derivation of the field that follows
the textbook on functions and powers, and wherever both formulas are defined.
-/

namespace Storyworld

variable {K R : Type*} [Field K] [CommRing R] [Algebra R K]

namespace Scalars

-- The factor by which a function passes on a change of its argument `u`.
inductive Slope (i : Scalars K) (u : K) : String → Option K → Prop
  | sin : Slope i u "sin" (i.call "cos" [u])
  | cos : Slope i u "cos" ((i.call "sin" [u]).map (- ·))
  | tan : Slope i u "tan" ((i.call "cos" [u]).bind fun c => i.operate .div 1 (c * c))
  | exp : Slope i u "exp" (i.call "exp" [u])
  | log : Slope i u "log" (i.operate .div 1 u)
  | sqrt : Slope i u "sqrt" ((i.call "sqrt" [u]).bind fun r => i.operate .div 1 (2 * r))
  | sinh : Slope i u "sinh" (i.call "cosh" [u])
  | cosh : Slope i u "cosh" (i.call "sinh" [u])
  | asin : Slope i u "asin" ((i.call "sqrt" [1 - u * u]).bind fun r => i.operate .div 1 r)
  | acos : Slope i u "acos" (((i.call "sqrt" [1 - u * u]).bind fun r => i.operate .div 1 r).map (- ·))
  | atan : Slope i u "atan" (i.operate .div 1 (1 + u * u))

-- `D` is the derivation by the variable. Where the slope of a function, the lower power or the logarithm
-- of a rule is not defined, the rule holds for some value in its place; a quotient by zero counts as zero.
structure Differential (i : Scalars K) (D : Derivation R K K) (var : String) : Prop where
  symbol : D (i.symbol var) = 1
  constant {e : Formula} {v : K} : ¬e.mentions var → e.scalar i = some v → D v = 0
  square (u : K) : i.power u 2 = some (u * u)
  chain {name : String} {u v : K} {slope : Option K} : i.Slope u name slope → i.call name [u] = some v →
    ∃ g, Agrees slope g ∧ D v = g * D u
  power_constant {a b : Formula} {u v w : K} : ¬b.mentions var →
    a.scalar i = some u → b.scalar i = some v → i.power u v = some w →
    ∃ p, Agrees (i.power u (v - 1)) p ∧ D w = v * p * D u
  constant_power {a b : Formula} {u v w : K} : ¬a.mentions var →
    a.scalar i = some u → b.scalar i = some v → i.power u v = some w →
    ∃ l, Agrees (i.call "log" [u]) l ∧ D w = w * l * D v
  power {a b : Formula} {u v w : K} : a.mentions var → b.mentions var →
    a.scalar i = some u → b.scalar i = some v → i.power u v = some w →
    ∃ l, Agrees (i.call "log" [u]) l ∧ D w = w * (D v * l + v * D u / u)

end Scalars

variable {i : Scalars K} {D : Derivation R K K} {op : Op} {u v w : K} {name var : String}
  {f : Operator K}

theorem derivation_mul : D (u * v) = D u * v + u * D v := by
  rw [D.leibniz, smul_eq_mul, smul_eq_mul]
  ring

theorem derivation_div (hv : v ≠ 0) : D (u / v) = (D u * v - u * D v) / (v * v) := by
  rw [D.leibniz_div, smul_eq_mul, smul_eq_mul, smul_eq_mul]
  field_simp

namespace Formula

variable {a b e e' : Formula} {da db : Except FormulaError Formula}

/-! ## Functions -/

theorem scalarBy_two : (number 2).scalarBy i f = some 2 := by
  simp [scalarBy, Binary.toRat?_two]

theorem lenient_apply (h : e.scalarBy i i.lenient = some u) :
    (apply name e).scalarBy i i.lenient = i.call name [u] := by
  simp [apply, scalarBy, scalarsBy, h]

-- Otherwise the power to zero were the square.
theorem two_ne_zero_of_differential (hi : i.Differential D var) : (2 : K) ≠ 0 := by
  intro h
  have hs := hi.square 0
  rw [h, i.power_zero] at hs
  simp at hs

theorem lenient_square (hi : i.Differential D var) :
    (square e).scalarBy i i.lenient = (e.scalarBy i i.lenient).map fun v => v * v := by
  have h₂ := two_ne_zero_of_differential hi
  rw [square, scalarBy_binary, scalarBy_two]
  cases e.scalarBy i i.lenient <;> simp [Scalars.lenient, Scalars.strict, Scalars.operate, h₂, hi.square]

theorem lenient_reciprocal :
    (reciprocal e).scalarBy i i.lenient = (e.scalarBy i i.lenient).bind (i.operate .div 1) := by
  rw [reciprocal, scalarBy_binary, scalarBy_one]
  cases e.scalarBy i i.lenient <;> simp [Scalars.lenient, Scalars.strict]

theorem lenient_double (hi : i.Differential D var) :
    (binary .mul (number 2) e).scalarBy i i.lenient = (e.scalarBy i i.lenient).map (2 * ·) := by
  have h₂ := two_ne_zero_of_differential hi
  rw [scalarBy_binary, scalarBy_two]
  cases e.scalarBy i i.lenient <;> simp +contextual [Scalars.lenient, Scalars.strict, Scalars.operate, h₂]

theorem lenient_rootOfCosquare (hi : i.Differential D var) (h : e.scalarBy i i.lenient = some u) :
    (rootOfCosquare e).scalarBy i i.lenient = i.call "sqrt" [1 - u * u] := by
  refine lenient_apply ?_
  rw [scalarBy_binary, scalarBy_one, lenient_square hi, h]
  rfl

def functions : List String :=
  ["sin", "cos", "tan", "exp", "log", "sqrt", "sinh", "cosh", "asin", "acos", "atan"]

theorem mem_functions (h : outerDerivative? name a = some e) : name ∈ functions := by
  by_contra hn
  simp only [functions, List.mem_cons, List.not_mem_nil, or_false, not_or] at hn
  simp [outerDerivative?, hn] at h

theorem slope_outerDerivative (hi : i.Differential D var) (hu : a.scalarBy i i.lenient = some u)
    (h : outerDerivative? name a = some e) : i.Slope u name (e.scalarBy i i.lenient) := by
  have hn := mem_functions h
  simp only [functions, List.mem_cons, List.not_mem_nil, or_false] at hn
  obtain rfl | rfl | rfl | rfl | rfl | rfl | rfl | rfl | rfl | rfl | rfl := hn
  all_goals obtain rfl := Option.some.inj h
  · rw [lenient_apply hu]
    exact .sin
  · rw [scalarBy_neg, lenient_apply hu]
    exact .cos
  · rw [lenient_reciprocal, lenient_square hi, lenient_apply hu, Option.bind_map]
    exact .tan
  · rw [lenient_apply hu]
    exact .exp
  · rw [lenient_reciprocal, hu]
    exact .log
  · rw [lenient_reciprocal, lenient_double hi, lenient_apply hu, Option.bind_map]
    exact .sqrt
  · rw [lenient_apply hu]
    exact .sinh
  · rw [lenient_apply hu]
    exact .cosh
  · rw [lenient_reciprocal, lenient_rootOfCosquare hi hu]
    exact .asin
  · rw [scalarBy_neg, lenient_reciprocal, lenient_rootOfCosquare hi hu]
    exact .acos
  · rw [lenient_reciprocal, scalarBy_binary, scalarBy_one, lenient_square hi, hu]
    exact .atan

/-! ## Approximate values -/

-- The value is `v`, if there is one in the lenient reading.
def Means (i : Scalars K) (v : K) (e : Formula) : Prop :=
  Agrees (e.scalarBy i i.lenient) v

theorem means_of_scalar (h : e.scalar i = some v) : e.Means i v := by
  rw [Means, lenient_of_scalar h]
  exact agrees_some

theorem means_zero : (number 0).Means i 0 := by
  rw [Means, scalarBy_zero]
  exact agrees_some

theorem means_one : (number 1).Means i 1 := by
  rw [Means, scalarBy_one]
  exact agrees_some

theorem means_two : (number 2).Means i 2 := by
  rw [Means, scalarBy_two]
  exact agrees_some

theorem means_neg (h : e.Means i v) : (neg e).Means i (-v) :=
  agrees_neg h

theorem means_binary (ha : a.Means i u) (hb : b.Means i v) (h : i.operate op u v = some w) :
    (binary op a b).Means i w := by
  refine Scalars.agrees_lenient ha hb ?_
  rw [Scalars.lenient_of_operate h]
  exact agrees_some

theorem means_add (ha : a.Means i u) (hb : b.Means i v) : (binary .add a b).Means i (u + v) :=
  means_binary ha hb rfl

theorem means_sub (ha : a.Means i u) (hb : b.Means i v) : (binary .sub a b).Means i (u - v) :=
  means_binary ha hb rfl

theorem means_mul (ha : a.Means i u) (hb : b.Means i v) : (binary .mul a b).Means i (u * v) :=
  means_binary ha hb rfl

theorem means_div (ha : a.Means i u) (hb : b.Means i v) : (binary .div a b).Means i (u / v) := by
  refine Scalars.agrees_lenient ha hb fun w hw => ?_
  by_cases hu : u = 0
  case pos =>
    obtain rfl : 0 = w := by simpa [Scalars.lenient, hu] using hw
    rw [hu, zero_div]
  case neg => simp_all [Scalars.lenient, Scalars.strict_some, Scalars.operate]

theorem means_pow (ha : a.Means i u) (hb : b.Means i v) (h : Agrees (i.power u v) w) :
    (binary .pow a b).Means i w := by
  refine Scalars.agrees_lenient ha hb ?_
  by_cases hv : v = 0
  case pos => simpa [Scalars.lenient, hv, i.power_zero] using h
  case neg => simpa [Scalars.lenient, hv, Scalars.strict_some, Scalars.operate] using h

theorem means_square (hi : i.Differential D var) (h : e.Means i v) : (square e).Means i (v * v) := by
  refine means_pow h means_two ?_
  rw [hi.square]
  exact agrees_some

theorem means_log (h : e.scalar i = some u) (hv : Agrees (i.call "log" [u]) v) :
    (apply "log" e).Means i v := by
  rwa [Means, lenient_apply (lenient_of_scalar h)]

/-! ## The rules -/

theorem yields_powerDerivative (hi : i.Differential D var)
    (hu : a.scalar i = some u) (hv : b.scalar i = some v) (hw : i.power u v = some w)
    (ha : Yields (Means i (D u)) da) (hb : Yields (Means i (D v)) db) :
    Yields (Means i (D w)) (binaryDerivative var .pow a b da db) := by
  have ma := means_of_scalar hu
  have mb := means_of_scalar hv
  have mw : (binary .pow a b).Means i w := means_binary ma mb hw
  simp only [binaryDerivative]
  split_ifs with hmb hma
  · obtain ⟨p, hp, hd⟩ := hi.power_constant (by simpa using hmb) hu hv hw
    rw [hd]
    refine ha.bind fun _ ha => yields_ok (means_mul (means_mul mb ?_) ha)
    exact means_pow ma (means_sub mb means_one) hp
  · obtain ⟨l, hl, hd⟩ := hi.constant_power (by simpa using hma) hu hv hw
    rw [hd]
    exact hb.bind fun _ hb => yields_ok (means_mul (means_mul mw (means_log hu hl)) hb)
  · obtain ⟨l, hl, hd⟩ := hi.power (by simpa using hma) (by simpa using hmb) hu hv hw
    rw [hd]
    refine hb.bind fun _ hb => ha.bind fun _ ha => yields_ok (means_mul mw (means_add ?_ ?_))
    · exact means_mul hb (means_log hu hl)
    · exact means_div (means_mul mb ha) ma

theorem yields_binaryDerivative (hi : i.Differential D var)
    (hu : a.scalar i = some u) (hv : b.scalar i = some v) (hw : i.operate op u v = some w)
    (ha : Yields (Means i (D u)) da) (hb : Yields (Means i (D v)) db) :
    Yields (Means i (D w)) (binaryDerivative var op a b da db) := by
  have ma := means_of_scalar hu
  have mb := means_of_scalar hv
  cases op <;> simp only [binaryDerivative]
  case add =>
    obtain rfl : u + v = w := by simpa [Scalars.operate] using hw
    rw [map_add]
    exact ha.bind fun _ ha => hb.bind fun _ hb => yields_ok (means_add ha hb)
  case sub =>
    obtain rfl : u - v = w := by simpa [Scalars.operate] using hw
    rw [map_sub]
    exact ha.bind fun _ ha => hb.bind fun _ hb => yields_ok (means_sub ha hb)
  case mul =>
    obtain rfl : u * v = w := by simpa [Scalars.operate] using hw
    rw [derivation_mul]
    exact ha.bind fun _ ha => hb.bind fun _ hb => yields_ok (means_add (means_mul ha mb) (means_mul ma hb))
  case div =>
    obtain ⟨hv, rfl⟩ : v ≠ 0 ∧ u / v = w := by simpa [Scalars.operate] using hw
    rw [derivation_div hv]
    refine ha.bind fun _ ha => hb.bind fun _ hb => yields_ok (means_div ?_ (means_square hi mb))
    exact means_sub (means_mul ha mb) (means_mul ma hb)
  case mod => exact yields_error
  case pow => exact yields_powerDerivative hi hu hv hw ha hb

theorem yields_callDerivative (hi : i.Differential D var) (hu : a.scalar i = some u)
    (hw : i.call name [u] = some w) (ha : Yields (Means i (D u)) da) :
    Yields (Means i (D w)) (callDerivative name [a] [da]) := by
  refine ha.bind fun d hd => ?_
  split
  case h_1 e he =>
    obtain ⟨g, hg, hdw⟩ := hi.chain (slope_outerDerivative hi (lenient_of_scalar hu) he) hw
    rw [hdw]
    exact yields_ok (means_mul hg hd)
  case h_2 => exact yields_error

theorem yields_constantDerivative (h : D v = 0) : Yields (Means i (D v)) (constantDerivative e) := by
  rw [h]
  unfold constantDerivative
  split
  case h_3 => exact yields_ok means_zero
  all_goals exact yields_error

-- Only where the variable occurs there is a rule to follow.
theorem yields_rule (hi : i.Differential D var) (hv : e.scalar i = some v)
    (h : e.mentions var → Yields (Means i (D v)) da) :
    Yields (Means i (D v)) (if e.mentions var then da else constantDerivative e) := by
  split
  case isTrue hm  => exact h hm
  case isFalse hm => exact yields_constantDerivative (hi.constant hm hv)

theorem yields_differentiate (hi : i.Differential D var) (hv : e.scalar i = some v) :
    Yields (Means i (D v)) (differentiate var e) := by
  induction e using Formula.rec (motive_2 := fun es => ∀ e ∈ es, ∀ v, e.scalar i = some v →
    Yields (Means i (D v)) (differentiate var e)) generalizing v with
  | number | text | factorial | matrix =>
    unfold differentiate
    exact yields_rule hi hv fun _ => yields_error
  | symbol n =>
    unfold differentiate
    refine yields_rule hi hv fun hm => yields_ok ?_
    obtain rfl : n = var := by simpa [mentions] using hm
    obtain rfl : i.symbol n = v := by simpa [scalar, scalarBy] using hv
    rw [hi.symbol]
    exact means_one
  | neg e ih =>
    unfold differentiate
    refine yields_rule hi hv fun _ => ?_
    obtain ⟨u, hu, rfl⟩ := Option.map_eq_some_iff.mp hv
    rw [map_neg]
    exact (ih hu).map fun _ => means_neg
  | binary op a b iha ihb =>
    unfold differentiate
    refine yields_rule hi hv fun _ => ?_
    obtain ⟨x, y, hx, hy, hw⟩ := scalar_binary.mp hv
    exact yields_binaryDerivative hi hx hy hw (iha hx) (ihb hy)
  | call name es ih =>
    unfold differentiate
    refine yields_rule hi hv fun _ => ?_
    obtain ⟨us, hus, hw⟩ := Option.bind_eq_some_iff.mp hv
    cases es with
    | nil => exact yields_error
    | cons a es =>
      cases es with
      | nil =>
        obtain ⟨u, hu, rfl⟩ : ∃ u, a.scalar i = some u ∧ us = [u] := by
          obtain ⟨u, hu, hus⟩ := Option.bind_eq_some_iff.mp hus
          exact ⟨u, hu, (Option.some.inj hus).symm⟩
        exact yields_callDerivative hi hu hw (ih a List.mem_cons_self u hu)
      | cons => exact yields_error
  | nil => simp_all
  | cons e es ih ihs =>
    rename_i e' he v hv
    obtain rfl | he := List.mem_cons.mp he
    · exact ih hv
    · exact ihs e' he v hv

end Formula

end Storyworld
