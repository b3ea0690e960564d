import Storyworld.Proofs.Formula.Constant

/-!
Formulas without texts and matrices, read as partial functions over a field. What an operation makes of
operands that are not defined is left open: in the strict reading nothing, in the lenient one a value
wherever the other operand settles it.
-/

namespace Storyworld

-- What the names stand for. Functions, factorials, remainders and powers may be undefined anywhere but
-- for the powers to zero and to one.
structure Scalars (K : Type*) [Field K] where
  symbol : String → K
  call : String → List K → Option K
  factorial : K → Option K
  modulo : K → K → Option K
  power : K → K → Option K
  power_zero (x : K) : power x 0 = some 1
  power_one (x : K) : power x 1 = some x

-- What an operation makes of two operands that may be undefined.
abbrev Operator (K : Type*) :=
  Op → Option K → Option K → Option K

namespace Scalars

variable {K : Type*} [Field K]

open Classical in
noncomputable def operate (i : Scalars K) (op : Op) (x y : K) : Option K :=
  match op with
  | .add => some (x + y)
  | .sub => some (x - y)
  | .mul => some (x * y)
  | .div => if y = 0 then none else some (x / y)
  | .mod => i.modulo x y
  | .pow => i.power x y

-- Nothing is defined unless both operands are.
noncomputable def strict (i : Scalars K) : Operator K :=
  fun op x y => do i.operate op (← x) (← y)

-- A product with zero, a quotient of zero and a power to zero have a value whatever the other operand is.
open Classical in
noncomputable def lenient (i : Scalars K) : Operator K :=
  fun op x y => match op with
  | .mul => if x = some 0 ∨ y = some 0 then some 0 else i.strict .mul x y
  | .div => if x = some 0 then some 0 else i.strict .div x y
  | .pow => if y = some 0 then some 1 else i.strict .pow x y
  | op => i.strict op x y

end Scalars

namespace Formula

variable {K : Type*} [Field K]

mutual

def scalarBy (i : Scalars K) (f : Operator K) : Formula → Option K
  | number x => (Binary.toRat? x).map (↑)
  | text _ | matrix _ => none
  | symbol name => some (i.symbol name)
  | neg e => (scalarBy i f e).map (- ·)
  | binary op a b => f op (scalarBy i f a) (scalarBy i f b)
  | factorial e => do i.factorial (← scalarBy i f e)
  | call name es => do i.call name (← scalarsBy i f es)

def scalarsBy (i : Scalars K) (f : Operator K) : List Formula → Option (List K)
  | [] => some []
  | e :: es => do return (← scalarBy i f e) :: (← scalarsBy i f es)

end

noncomputable def scalar (i : Scalars K) (e : Formula) : Option K :=
  e.scalarBy i i.strict

end Formula

-- What is defined stays as it is, and so does what is not, if `all` says so.
def Stays (all : Prop) {α : Type*} (x y : Option α) : Prop :=
  all ∨ x.isSome → x = y

namespace Stays

variable {all : Prop} {α β : Type*} {x y z : Option α} {f g : α → Option β}

theorem of_eq (h : x = y) : Stays all x y :=
  fun _ => h

@[refl]
theorem refl : Stays all x x :=
  of_eq rfl

theorem trans (h : Stays all x y) (h' : Stays all y z) : Stays all x z := by
  intro ha
  obtain rfl := h ha
  exact h' ha

theorem bind (h : Stays all x y) (hf : ∀ a, Stays all (f a) (g a)) : Stays all (x.bind f) (y.bind g) := by
  intro ha
  cases x
  case none =>
    obtain rfl := h (.inl (by simpa using ha))
    rfl
  case some a =>
    obtain rfl := h (.inr rfl)
    exact hf a ha

theorem map {f : α → β} (h : Stays all x y) : Stays all (x.map f) (y.map f) := by
  simpa only [Option.map_eq_bind] using h.bind fun _ => .refl

end Stays

-- The value is `v`, if there is one.
def Agrees {K : Type*} (x : Option K) (v : K) : Prop :=
  ∀ w, x = some w → w = v

theorem agrees_some {K : Type*} {v : K} : Agrees (some v) v := by
  rintro _ ⟨⟩
  rfl

variable {K : Type*} [Field K] {i : Scalars K} {op : Op} {x y : Option K} {u v w : K}

theorem agrees_neg (h : Agrees x v) : Agrees (x.map (- ·)) (-v) := by
  intro w hw
  obtain ⟨u, hu, rfl⟩ := Option.map_eq_some_iff.mp hw
  rw [h u hu]

namespace Scalars

theorem strict_some : i.strict op (some u) (some v) = i.operate op u v :=
  rfl

theorem strict_none_left : i.strict op none y = none :=
  rfl

theorem strict_none_right : i.strict op x none = none := by
  cases x <;> rfl

theorem strict_eq_some : i.strict op x y = some w ↔
    ∃ u v, x = some u ∧ y = some v ∧ i.operate op u v = some w := by
  simp [strict, Option.bind_eq_some_iff]

theorem lenient_of_operate (h : i.operate op u v = some w) : i.lenient op (some u) (some v) = some w := by
  cases op <;> simp only [lenient, strict_some, h]
  case mul =>
    obtain rfl : u * v = w := by simpa [operate] using h
    simp +contextual [eq_comm]
  case div =>
    obtain ⟨hv, rfl⟩ : v ≠ 0 ∧ u / v = w := by simpa [operate] using h
    simp +contextual [eq_comm]
  case pow =>
    split
    case isTrue hv =>
      obtain rfl : v = 0 := by simpa using hv
      rw [← h, operate, i.power_zero]
    case isFalse => rfl

-- The less is defined, the less comes of it.
theorem agrees_lenient (hx : Agrees x u) (hy : Agrees y v) (h : Agrees (i.lenient op (some u) (some v)) w) :
    Agrees (i.lenient op x y) w := by
  intro z hz
  refine h z ?_
  cases x <;> cases y
  case some.some u' v' =>
    obtain rfl := hx u' rfl
    obtain rfl := hy v' rfl
    exact hz
  case some.none u' =>
    obtain rfl := hx u' rfl
    cases op <;> simp_all [lenient, strict_none_right]
  case none.some v' =>
    obtain rfl := hy v' rfl
    cases op <;> simp_all [lenient, strict_none_left]
  case none.none =>
    cases op <;> simp_all [lenient, strict_none_left]

end Scalars

namespace Formula

theorem scalar_binary {a b : Formula} : (binary op a b).scalar i = some w ↔
    ∃ u v, a.scalar i = some u ∧ b.scalar i = some v ∧ i.operate op u v = some w :=
  Scalars.strict_eq_some

theorem scalarsBy_cons {f : Operator K} {e : Formula} {es : List Formula} {us : List K} :
    scalarsBy i f (e :: es) = some us ↔
      ∃ u vs, e.scalarBy i f = some u ∧ scalarsBy i f es = some vs ∧ u :: vs = us := by
  simp [scalarsBy, Option.bind_eq_some_iff]

theorem lenient_of_scalar {e : Formula} (h : e.scalar i = some v) : e.scalarBy i i.lenient = some v := by
  induction e using Formula.rec (motive_2 := fun es => ∀ vs, scalarsBy i i.strict es = some vs →
    scalarsBy i i.lenient es = some vs) generalizing v with
  | number | text | symbol | matrix => exact h
  | neg e ih =>
    obtain ⟨u, hu, rfl⟩ := Option.map_eq_some_iff.mp h
    exact Option.map_eq_some_iff.mpr ⟨u, ih hu, rfl⟩
  | binary op a b iha ihb =>
    obtain ⟨x, y, hx, hy, h⟩ := scalar_binary.mp h
    rw [scalarBy, iha hx, ihb hy]
    exact Scalars.lenient_of_operate h
  | factorial e ih =>
    obtain ⟨u, hu, h⟩ := Option.bind_eq_some_iff.mp h
    exact Option.bind_eq_some_iff.mpr ⟨u, ih hu, h⟩
  | call name es ih =>
    obtain ⟨us, hu, h⟩ := Option.bind_eq_some_iff.mp h
    exact Option.bind_eq_some_iff.mpr ⟨us, ih us hu, h⟩
  | nil => assumption
  | cons e es ih ihs =>
    rename_i vs h
    obtain ⟨x, xs, hx, hxs, h⟩ := scalarsBy_cons.mp h
    exact scalarsBy_cons.mpr ⟨x, xs, ih hx, ihs xs hxs, h⟩

end Formula

end Storyworld
