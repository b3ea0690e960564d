import Mathlib.Data.Rat.Floor
import Mathlib.Tactic.FieldSimp
import Mathlib.Tactic.Ring
import Storyworld.Formula.Basic

/-!
Exact arithmetic: rational numbers, and matrices of such. Sums go cell by cell, and between a matrix and
a number an operator acts on every cell.
-/

namespace Storyworld

inductive Exact where
  | number (q : ℚ)
  | matrix (items : List Exact)

namespace Exact

variable {f g : ℚ → ℚ → ℚ} {h k : ℚ → ℚ} {a b c x y : Exact} {as bs : List Exact} {s t u : ℚ}

mutual

def map (f : ℚ → ℚ) : Exact → Exact
  | number q => number (f q)
  | matrix xs => matrix (mapAll f xs)

def mapAll (f : ℚ → ℚ) : List Exact → List Exact
  | [] => []
  | x :: xs => map f x :: mapAll f xs

end

mutual

-- Cells of the same place, where both are matrices.
def zip (f : ℚ → ℚ → ℚ) : Exact → Exact → Option Exact
  | number s, b => some (b.map (f s))
  | matrix xs, number t => some ((matrix xs).map (f · t))
  | matrix xs, matrix ys => (zipAll f xs ys).map matrix

def zipAll (f : ℚ → ℚ → ℚ) : List Exact → List Exact → Option (List Exact)
  | [], [] => some []
  | x :: xs, y :: ys => do return (← zip f x y) :: (← zipAll f xs ys)
  | _, _ => none

end

def isMatrix : Exact → Bool
  | number _ => false
  | matrix _ => true

theorem map_map : (x.map h).map k = x.map fun q => k (h q) := by
  induction x using Exact.rec (motive_2 := fun xs => mapAll k (mapAll h xs) = mapAll (fun q => k (h q)) xs) with
  | number => rfl
  | matrix _ ih => simp only [map, ih]
  | nil => rfl
  | cons _ _ ih ihs => simp only [mapAll, ih, ihs]

theorem zip_number_right : zip f a (number t) = some (a.map (f · t)) := by
  cases a <;> rfl

theorem map_id : map (fun q => q) = id := by
  funext x
  induction x using Exact.rec (motive_2 := fun xs => mapAll (fun q => q) xs = xs) with
  | number => rfl
  | matrix _ ih => exact congrArg matrix ih
  | nil => rfl
  | cons _ _ ih ihs => rw [mapAll, ih, ihs, id]

-- What is done to the cells before and after goes into the operator.
theorem zip_map {l : ℚ → ℚ} :
    (zip f (a.map h) (b.map k)).map (map l) = zip (fun s t => l (f (h s) (k t))) a b := by
  induction a using Exact.rec (motive_2 := fun xs => ∀ ys,
    (zipAll f (mapAll h xs) (mapAll k ys)).map (mapAll l) =
      zipAll (fun s t => l (f (h s) (k t))) xs ys) generalizing b with
  | number => simp only [map, zip, Option.map_some, map_map]
  | matrix xs ih =>
    cases b
    case number t =>
      have ht : (number t).map k = number (k t) := rfl
      rw [ht, zip_number_right, zip_number_right, Option.map_some, map_map, map_map]
    case matrix ys =>
      simp only [map, zip, ← ih ys, Option.map_map]
      rfl
  | nil =>
    rename_i ys
    cases ys <;> rfl
  | cons x xs ih ihs =>
    rename_i ys
    cases ys
    case nil => rfl
    case cons y ys =>
      simp only [mapAll, zipAll, ← ih, ← ihs]
      cases zip f (x.map h) (y.map k) <;> cases zipAll f (mapAll h xs) (mapAll k ys) <;> rfl

theorem zip_map_left : zip f (a.map h) b = zip (fun s t => f (h s) t) a b := by
  have hz := zip_map (f := f) (h := h) (k := fun q => q) (l := fun q => q) (a := a) (b := b)
  rwa [map_id, id, Option.map_id_fun, id] at hz

theorem zip_map_right : zip f a (b.map h) = zip (fun s t => f s (h t)) a b := by
  have hz := zip_map (f := f) (h := fun q => q) (k := h) (l := fun q => q) (a := a) (b := b)
  rwa [map_id, id, Option.map_id_fun, id] at hz

theorem map_zip : (zip f a b).map (map h) = zip (fun s t => h (f s t)) a b := by
  have hz := zip_map (f := f) (h := fun q => q) (k := fun q => q) (l := h) (a := a) (b := b)
  rwa [map_id, id, id] at hz

theorem isMatrix_map : (x.map h).isMatrix = x.isMatrix := by
  cases x <;> rfl

theorem isMatrix_zip (hz : zip f a b = some x) : x.isMatrix = (a.isMatrix || b.isMatrix) := by
  cases a <;> cases b <;> simp only [zip, Option.map_eq_some_iff, Option.some.injEq] at hz
  case matrix.matrix =>
    obtain ⟨_, _, rfl⟩ := hz
    rfl
  all_goals
    subst hz
    rfl

theorem zipAll_eq_nil (hz : zipAll f as bs = some []) : as = [] ∧ bs = [] := by
  cases as <;> cases bs
  case nil.nil => exact ⟨rfl, rfl⟩
  case cons.cons a as b bs =>
    simp [zipAll, Option.bind_eq_some_iff] at hz
  all_goals cases hz

theorem zipAll_eq_cons {xs : List Exact} (hz : zipAll f as bs = some (x :: xs)) :
    ∃ a as' b bs', as = a :: as' ∧ bs = b :: bs' ∧ zip f a b = some x ∧ zipAll f as' bs' = some xs := by
  cases as <;> cases bs
  case cons.cons a as b bs =>
    have ⟨ha, hs⟩ : zip f a b = some x ∧ zipAll f as bs = some xs := by
      simpa [zipAll, Option.bind_eq_some_iff] using hz
    exact ⟨a, as, b, bs, rfl, rfl, ha, hs⟩
  all_goals cases hz

-- What regroups between cells regroups where a number takes part, by the laws of `map`.
theorem zip_regroup_left (hfg : ∀ s t u, f s (g t u) = g (f s t) u) (hx : zip g b c = some x)
    (hy : zip f (number s) x = some y) : ∃ z, zip f (number s) b = some z ∧ zip g z c = some y := by
  refine ⟨_, rfl, ?_⟩
  have hm := map_zip (f := g) (a := b) (b := c) (h := f s)
  simp only [hfg] at hm
  rw [zip_map_left, ← hm, hx]
  exact hy

theorem zip_regroup_middle (hfg : ∀ s t u, f s (g t u) = g (f s t) u) (hx : zip g (number t) c = some x)
    (hy : zip f a x = some y) : ∃ z, zip f a (number t) = some z ∧ zip g z c = some y := by
  refine ⟨_, zip_number_right, ?_⟩
  cases hx
  rw [zip_map_left, ← hy, zip_map_right]
  simp only [hfg]

theorem zip_regroup_right (hfg : ∀ s t u, f s (g t u) = g (f s t) u) (hx : zip g b (number u) = some x)
    (hy : zip f a x = some y) : ∃ z, zip f a b = some z ∧ zip g z (number u) = some y := by
  rw [zip_number_right] at hx
  cases hx
  rw [zip_map_right] at hy
  simp only [hfg, ← map_zip (h := (g · u)), Option.map_eq_some_iff] at hy
  obtain ⟨z, hz, rfl⟩ := hy
  exact ⟨z, hz, zip_number_right⟩

-- So it regroups between matrices of any depth.
theorem zip_regroup (hfg : ∀ s t u, f s (g t u) = g (f s t) u) (hx : zip g b c = some x)
    (hy : zip f a x = some y) : ∃ z, zip f a b = some z ∧ zip g z c = some y := by
  induction a using Exact.rec (motive_2 := fun as => ∀ bs cs xs ys, zipAll g bs cs = some xs →
    zipAll f as xs = some ys → ∃ zs, zipAll f as bs = some zs ∧ zipAll g zs cs = some ys)
    generalizing b c x y with
  | number => exact zip_regroup_left hfg hx hy
  | matrix as ih =>
    cases b
    case number => exact zip_regroup_middle hfg hx hy
    case matrix bs =>
      cases c
      case number => exact zip_regroup_right hfg hx hy
      case matrix cs =>
        obtain ⟨xs, hxs, rfl⟩ := Option.map_eq_some_iff.mp hx
        obtain ⟨ys, hys, rfl⟩ := Option.map_eq_some_iff.mp hy
        obtain ⟨zs, hzs, hz⟩ := ih bs cs xs ys hxs hys
        exact ⟨matrix zs, by simp [zip, hzs], by simp [zip, hz]⟩
  | nil =>
    rename_i bs cs xs ys hx hy
    cases xs
    case nil =>
      have ⟨hb, hc⟩ := zipAll_eq_nil hx
      subst hb hc
      exact ⟨[], rfl, hy⟩
    case cons => cases hy
  | cons a as ih ihs =>
    rename_i bs cs xs ys hx hy
    cases xs
    case nil => cases hy
    case cons x xs =>
      obtain ⟨b, bs, c, cs, rfl, rfl, hx, hxs⟩ := zipAll_eq_cons hx
      cases ys
      case nil => cases (zipAll_eq_nil hy).1
      case cons y ys =>
        obtain ⟨_, _, _, _, ha, hx', hy, hys⟩ := zipAll_eq_cons hy
        cases ha
        cases hx'
        obtain ⟨z, hz, hzy⟩ := ih hx hy
        obtain ⟨zs, hzs, hzsy⟩ := ihs _ _ _ _ hxs hys
        exact ⟨z :: zs, by simp [zipAll, hz, hzs], by simp [zipAll, hzy, hzsy]⟩

-- Products of two matrices are left out: that of three vectors depends on where the parentheses stand.
def product (a b : Exact) : Option Exact :=
  if a.isMatrix && b.isMatrix then none else zip (· * ·) a b

def divide (a : Exact) : Exact → Option Exact
  | number t => if t = 0 then none else some (a.map (· / t))
  | matrix _ => none

-- The remainder has the sign of the divisor, and that by zero is the dividend.
def modulo (a : Exact) : Exact → Option Exact
  | number t => some (a.map fun s => s - t * ⌊s / t⌋)
  | matrix _ => none

theorem product_eq_some : product a b = some x ↔
    (a.isMatrix && b.isMatrix) = false ∧ zip (· * ·) a b = some x := by
  rw [product]
  cases a.isMatrix && b.isMatrix <;> simp

theorem product_product (hx : product b c = some x) (hy : product a x = some y) :
    ∃ z, product a b = some z ∧ product z c = some y := by
  simp only [product_eq_some] at *
  have ⟨hbc, hx⟩ := hx
  have ⟨hax, hy⟩ := hy
  have ⟨z, hz, hzy⟩ := zip_regroup (fun s t u => (mul_assoc s t u).symm) hx hy
  have hm := isMatrix_zip hx
  have hm' := isMatrix_zip hz
  refine ⟨z, ⟨?_, hz⟩, ?_, hzy⟩
  · cases ha : a.isMatrix <;> cases hb : b.isMatrix <;> simp_all
  · cases ha : a.isMatrix <;> cases hb : b.isMatrix <;> cases hc : c.isMatrix <;> simp_all

theorem product_divide (hx : divide b c = some x) (hy : product a x = some y) :
    ∃ z, product a b = some z ∧ divide z c = some y := by
  cases c
  case matrix => cases hx
  case number u =>
    simp only [divide, Option.ite_none_left_eq_some] at hx ⊢
    have ⟨hu, hx⟩ := hx
    rw [product_eq_some] at hy
    have ⟨hax, hy⟩ := hy
    have ⟨z, hz, hzy⟩ := zip_regroup (g := (· / ·)) (c := number u)
      (fun s t u => (mul_div_assoc s t u).symm) (zip_number_right.trans hx) hy
    refine ⟨z, product_eq_some.mpr ⟨?_, hz⟩, hu, zip_number_right.symm.trans hzy⟩
    rwa [← Option.some.inj hx, isMatrix_map] at hax

end Exact

end Storyworld
