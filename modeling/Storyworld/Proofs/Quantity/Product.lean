import Mathlib.Data.Fin.VecNotation
import Mathlib.Data.List.FinRange
import Storyworld.Proofs.Quantity.Transpose

/-!
Products of matrices and vectors of numbers: their shapes, and what stands in every cell.
-/

namespace Storyworld.Quantity

variable {r k k' c n : Nat} {s x y : Float} {v : Fin k → Float} {w : Fin k' → Float} {a : Fin r → Fin k → Float}
  {b : Fin k' → Fin c → Float} {rows : List (List Quantity)} {ys : List Quantity}
  {times : List Quantity → Result Quantity}

def cells (v : Fin k → Float) : List Quantity :=
  List.ofFn fun l => number (v l)

def vector (v : Fin k → Float) : Quantity :=
  matrix (cells v)

def grid (a : Fin r → Fin k → Float) : Quantity :=
  ofRows (List.ofFn fun i => cells (a i))

-- The products of numbers at the same place, added up from the left and starting from zero.
def scalarProduct (v w : Fin k → Float) : Float :=
  Fin.foldl k (fun sum l => sum + v l * w l) 0

theorem mapM_ofFn {α β : Type} {p : Prop} [Decidable p] {f : α → Result β} {g : Fin n → α} {h : p → Fin n → β}
    {e : FormulaError} (hn : 0 < n) (hf : ∀ i, f (g i) = if hp : p then .ok (h hp i) else .error e) :
    (List.ofFn g).mapM f = if hp : p then .ok (List.ofFn (h hp)) else .error e := by
  split
  case isTrue hp =>
    rw [List.ofFn_eq_map, List.mapM_map, List.ofFn_eq_map]
    exact mapM_eq_ok fun i _ => (hf i).trans (dif_pos hp)
  case isFalse hp =>
    cases n with
    | zero => cases hn
    | succ n =>
      rw [List.ofFn_succ, List.mapM_cons, hf, dif_neg hp]
      rfl

theorem rows?_cells : rows? (cells v) = none := by
  cases k with
  | zero => rfl
  | succ k =>
    rw [cells, List.ofFn_succ]
    rfl

theorem lt_length_of_mem_rows {row : List Quantity} (j : Fin c) (h : row ∈ List.ofFn fun i => cells (b i)) :
    j < row.length := by
  obtain ⟨i, rfl⟩ := (List.mem_ofFn' ..).mp h
  exact Nat.lt_of_lt_of_eq j.isLt List.length_ofFn.symm

theorem cellsAt_rows (j : Fin c) : cellsAt (List.ofFn fun i => cells (b i)) j = cells fun l => b l j := by
  refine List.ext_getElem? fun i => ?_
  rw [getElem?_cellsAt fun _ => lt_length_of_mem_rows j]
  by_cases hi : i < k' <;> simp [cells, hi]

theorem columns_rows (h : 0 < k') : columns (List.ofFn fun i => cells (b i)) =
    List.ofFn fun j => .ok (cells fun l => b l j) := by
  have hw : width (List.ofFn fun i => cells (b i)) = c := by
    cases k' with
    | zero => cases h
    | succ k' => simp [width, cells]
  rw [columns, hw, ← List.map_coe_finRange_eq_range, List.map_map]
  refine (List.map_congr_left fun j _ => ?_).trans List.ofFn_eq_map.symm
  rw [Function.comp_apply, column_eq_ok fun _ => lt_length_of_mem_rows j, cellsAt_rows]

theorem product_number : product (number x) (number y) = .ok (number (x * y)) := by
  simp [product, mapCells, cellOp, realOp]

theorem dotFrom_cells {w : Fin k → Float} : dotFrom (cells v) (number s) (cells w) =
    .ok (number (Fin.foldl k (fun sum l => sum + v l * w l) s)) := by
  unfold cells
  induction k generalizing s with
  | zero => simp [dotFrom]
  | succ k ih =>
    rw [List.ofFn_succ, List.ofFn_succ, dotFrom, product_number, Fin.foldl_succ]
    exact ih

theorem dot_cells : dot (cells v) (cells w) =
    if h : k = k' then .ok (number (scalarProduct v fun l => w (l.cast h)))
    else domainFault .differentDimensions := by
  simp only [dot, cells, List.length_ofFn]
  split
  case isTrue h =>
    subst h
    exact dotFrom_cells
  case isFalse => rfl

theorem rowTimes_cells : rowTimes times (cells w) = times (cells w) := by
  rw [rowTimes, rows?_cells]

theorem rowTimes_rows (h : 0 < k') : rowTimes times ((List.ofFn fun i => cells (b i)).map matrix) =
    matrix <$> (List.ofFn fun j => cells fun l => b l j).mapM times := by
  rw [rowTimes, rows?_map_matrix (mt List.ofFn_eq_nil_iff.mp h.ne')]
  dsimp only
  rw [columns_rows h, List.ofFn_eq_map, List.ofFn_eq_map, List.mapM_map, List.mapM_map]
  rfl

theorem rowProducts_map : rowProducts (rows.map matrix) ys = rows.mapM fun row => rowTimes (dot row) ys := by
  induction rows with
  | nil =>
    rw [List.map_nil, rowProducts]
    rfl
  | cons row rows ih =>
    simp [rowProducts, rowProduct, ih]

theorem product_rows (h : rows ≠ []) : product (ofRows rows) (matrix ys) =
    matrix <$> rows.mapM fun row => rowTimes (dot row) ys := by
  simp [product, ofRows, rows?_map_matrix h, rowProducts_map]

theorem product_cells : product (vector v) (matrix ys) = rowTimes (dot (cells v)) ys := by
  simp [product, vector, rows?_cells]

theorem rowTimes_dot_cells : rowTimes (dot (cells v)) (cells w) =
    if h : k = k' then .ok (number (scalarProduct v fun l => w (l.cast h)))
    else domainFault .differentDimensions :=
  rowTimes_cells.trans dot_cells

theorem rowTimes_dot_rows (hk : 0 < k') (hc : 0 < c) :
    rowTimes (dot (cells v)) ((List.ofFn fun i => cells (b i)).map matrix) =
      if h : k = k' then .ok (vector fun j => scalarProduct v fun l => b (l.cast h) j)
      else domainFault .differentDimensions := by
  rw [rowTimes_rows hk, mapM_ofFn hc fun j => dot_cells]
  split <;> rfl

theorem product_grid {p : Prop} [Decidable p] {f : p → Fin r → Quantity} (hr : 0 < r)
    (hf : ∀ i, rowTimes (dot (cells (a i))) ys = if h : p then .ok (f h i) else domainFault .differentDimensions) :
    product (grid a) (matrix ys) =
      if h : p then .ok (matrix (List.ofFn (f h))) else domainFault .differentDimensions := by
  rw [grid, product_rows (mt List.ofFn_eq_nil_iff.mp hr.ne'), mapM_ofFn hr hf]
  split <;> rfl

theorem grid_eq : grid a = matrix (List.ofFn fun i => vector (a i)) := by
  rw [grid, ofRows, List.map_ofFn]
  rfl

theorem binary_mul_shapes (a : Fin r → Fin k → Float) (b : Fin k' → Fin c → Float) (v : Fin k → Float)
    (w : Fin k' → Float) (hr : 0 < r) (hk : 0 < k') (hc : 0 < c) :
    (binary .mul (grid a) (grid b) =
      if h : k = k' then .ok (grid fun i j => scalarProduct (a i) fun l => b (l.cast h) j)
      else domainFault .differentDimensions) ∧
    (binary .mul (vector v) (grid b) =
      if h : k = k' then .ok (vector fun j => scalarProduct v fun l => b (l.cast h) j)
      else domainFault .differentDimensions) ∧
    (binary .mul (grid a) (vector w) =
      if h : k = k' then .ok (vector fun i => scalarProduct (a i) fun l => w (l.cast h))
      else domainFault .differentDimensions) ∧
    (binary .mul (vector v) (vector w) =
      if h : k = k' then .ok (number (scalarProduct v fun l => w (l.cast h)))
      else domainFault .differentDimensions) := by
  refine ⟨?_, ?_, ?_, ?_⟩
  · refine (product_grid hr fun i => rowTimes_dot_rows hk hc).trans ?_
    simp only [grid_eq]
  · exact product_cells.trans (rowTimes_dot_rows hk hc)
  · exact product_grid hr fun i => rowTimes_dot_cells
  · exact product_cells.trans rowTimes_dot_cells

-- Sacks, barrels and crates in two cellars, and the weight and the price of each.
def stores : Fin 2 → Fin 3 → Float :=
  ![![4, 1, 2], ![0, 3, 5]]

def goods : Fin 3 → Fin 2 → Float :=
  ![![50, 2], ![120, 9], ![15, 1]]

theorem stores_valued : 0 < 2 ∧ 0 < 3 ∧
    binary .mul (grid stores) (grid goods) =
      .ok (grid fun i j => scalarProduct (stores i) fun l => goods l j) ∧
    binary .mul (vector (stores 0)) (vector (goods 0)) = domainFault .differentDimensions := by
  have hr : 0 < 2 := Nat.zero_lt_two
  have hk : 0 < 3 := Nat.zero_lt_succ 2
  exact ⟨hr, hk, (binary_mul_shapes stores goods (stores 0) (fun l => goods l 0) hr hk hr).1,
    (binary_mul_shapes stores stores (stores 0) (goods 0) hr hr hk).2.2.2⟩

end Storyworld.Quantity
