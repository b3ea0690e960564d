import Mathlib.Data.List.Perm.Basic
import Mathlib.Data.List.TakeDrop
import Storyworld.Quantity.Matrix

/-!
Rows and columns of a matrix. The first row says how many columns there are: transposition refuses a
shorter row, and of a longer one it loses the rest.
-/

namespace Storyworld.Quantity

variable {α β : Type} {rows : List (List Quantity)} {row : List Quantity} {xs : List α} {i j n : Nat}
  {f : α → Result β} {g : α → β} {e : FormulaError}

theorem mapM_eq_ok (h : ∀ x ∈ xs, f x = .ok (g x)) : xs.mapM f = .ok (xs.map g) := by
  induction xs with
  | nil => rfl
  | cons x xs ih =>
    rw [List.mapM_cons, h x List.mem_cons_self, ih fun x hx => h x (List.mem_cons_of_mem _ hx)]
    rfl

theorem mapM_eq_error (h : ∀ x ∈ xs, f x = .ok (g x) ∨ f x = .error e) (he : ∃ x ∈ xs, f x = .error e) :
    xs.mapM f = .error e := by
  induction xs with
  | nil => simp at he
  | cons x xs ih =>
    rw [List.mapM_cons]
    obtain hx | hx := h x List.mem_cons_self
    · obtain ⟨y, hy, hf⟩ := he
      obtain rfl | hy := List.mem_cons.mp hy
      · rw [hf]
        rfl
      · rw [hx, ih (fun x hx => h x (List.mem_cons_of_mem _ hx)) ⟨y, hy, hf⟩]
        rfl
    · rw [hx]
      rfl

-- The matrix with these rows.
def ofRows (rows : List (List Quantity)) : Quantity :=
  matrix (rows.map matrix)

theorem ofRows_injective : Function.Injective ofRows :=
  fun _ _ h => List.map_injective_iff.mpr (fun _ _ => matrix.inj) (matrix.inj h)

theorem mapM_cells? : (rows.map matrix).mapM cells? = some rows := by
  induction rows with
  | nil => rfl
  | cons row rows ih =>
    rw [List.map_cons, List.mapM_cons, ih]
    rfl

theorem rows?_map_matrix (h : rows ≠ []) : rows? (rows.map matrix) = some rows := by
  rw [rows?, if_neg (by simpa using h), mapM_cells?]

-- The cells at a position, of the rows that reach so far.
def cellsAt (rows : List (List Quantity)) (j : Nat) : List Quantity :=
  rows.flatMap (·[j]?.toList)

theorem cellsAt_cons (h : j < row.length) : cellsAt (row :: rows) j = row[j] :: cellsAt rows j := by
  rw [cellsAt, List.flatMap_cons, List.getElem?_eq_getElem h]
  rfl

theorem length_cellsAt (h : ∀ row ∈ rows, j < row.length) : (cellsAt rows j).length = rows.length := by
  induction rows with
  | nil => rfl
  | cons row rows ih =>
    rw [cellsAt_cons (h row List.mem_cons_self), List.length_cons, List.length_cons,
      ih fun row hr => h row (List.mem_cons_of_mem _ hr)]

theorem getElem?_cellsAt (h : ∀ row ∈ rows, j < row.length) : (cellsAt rows j)[i]? = rows[i]?.bind (·[j]?) := by
  induction rows generalizing i with
  | nil => rfl
  | cons row rows ih =>
    have hj := h row List.mem_cons_self
    rw [cellsAt_cons hj]
    cases i with
    | zero   => simp [hj]
    | succ i => simpa using ih fun row hr => h row (List.mem_cons_of_mem _ hr)

theorem column_eq_ok (h : ∀ row ∈ rows, j < row.length) : column rows j = .ok (cellsAt rows j) := by
  induction rows with
  | nil => rfl
  | cons row rows ih =>
    have hj := h row List.mem_cons_self
    have hc := ih fun row hr => h row (List.mem_cons_of_mem _ hr)
    rw [column] at hc ⊢
    rw [List.mapM_cons, hc, List.getElem?_eq_getElem hj, cellsAt_cons hj]
    rfl

theorem column_eq_error (h : ∃ row ∈ rows, row.length ≤ j) : column rows j = domainFault .raggedMatrix := by
  refine mapM_eq_error (g := fun row => row[j]?.getD default) (fun row _ => ?_) ?_
  · cases row[j]?
    case none   => exact .inr rfl
    case some c => exact .inl rfl
  · obtain ⟨row, hr, hj⟩ := h
    exact ⟨row, hr, by rw [List.getElem?_eq_none hj]; rfl⟩

-- The rows turned over, as far as the first one reaches.
def turned (rows : List (List Quantity)) : List (List Quantity) :=
  (List.range (width rows)).map (cellsAt rows)

theorem mapM_columns : (columns rows).mapM id =
    if ∀ row ∈ rows, width rows ≤ row.length then .ok (turned rows) else domainFault .raggedMatrix := by
  rw [columns, List.mapM_map]
  split
  case isTrue h =>
    exact mapM_eq_ok fun j hj => column_eq_ok fun row hr => Nat.lt_of_lt_of_le (List.mem_range.mp hj) (h row hr)
  case isFalse h =>
    refine mapM_eq_error (g := cellsAt rows) (fun j _ => ?_) ?_
    · by_cases hj : ∀ row ∈ rows, j < row.length
      case pos => exact .inl (column_eq_ok hj)
      case neg => exact .inr (column_eq_error (by simpa using hj))
    · obtain ⟨row, hr, hw⟩ : ∃ row ∈ rows, row.length < width rows := by simpa using h
      exact ⟨row.length, List.mem_range.mpr hw, column_eq_error ⟨row, hr, Nat.le_refl _⟩⟩

theorem transpose_ofRows (h : rows ≠ []) : transpose (ofRows rows) =
    if ∀ row ∈ rows, width rows ≤ row.length then .ok (ofRows (turned rows))
    else domainFault .raggedMatrix := by
  have ht : transpose (ofRows rows) = (columns rows).mapM id >>= fun columns => .ok (ofRows columns) := by
    rw [ofRows, transpose, rows?_map_matrix h]
    rfl
  rw [ht, mapM_columns]
  split <;> rfl

theorem length_turned : (turned rows).length = width rows := by
  simp [turned]

theorem getElem?_turned (h : j < width rows) : (turned rows)[j]? = some (cellsAt rows j) := by
  simp [turned, h]

theorem flatMap_getElem? : (List.range n).flatMap (row[·]?.toList) = row.take n := by
  induction n with
  | zero => simp
  | succ n ih =>
    rw [List.range_succ, List.flatMap_append, ih, List.take_add_one]
    simp

theorem flatMap_cellsAt_perm : ((List.range n).flatMap (cellsAt rows)).Perm (rows.flatMap (·.take n)) := by
  induction rows with
  | nil => simp [cellsAt]
  | cons row rows ih =>
    rw [List.flatMap_cons, ← flatMap_getElem?]
    exact (List.flatMap_append_perm ..).symm.trans (ih.append_left _)

theorem width_turned (h : ∀ row ∈ rows, width rows ≤ row.length) (hw : 0 < width rows) :
    width (turned rows) = rows.length := by
  rw [width, List.head?_eq_getElem?, getElem?_turned hw]
  exact length_cellsAt fun row hr => Nat.lt_of_lt_of_le hw (h row hr)

theorem turned_turned (h : ∀ row ∈ rows, width rows ≤ row.length) (hw : 0 < width rows) :
    turned (turned rows) = rows.map (·.take (width rows)) := by
  refine List.ext_getElem? fun i => ?_
  by_cases hi : i < rows.length
  case pos =>
    rw [getElem?_turned (by rwa [width_turned h hw]), List.getElem?_map, List.getElem?_eq_getElem hi,
      cellsAt, turned, List.flatMap_map, Option.map_some, ← flatMap_getElem?]
    refine congrArg some (List.flatMap_congr fun j hj => ?_)
    rw [getElem?_cellsAt fun row hr => Nat.lt_of_lt_of_le (List.mem_range.mp hj) (h row hr),
      List.getElem?_eq_getElem hi]
    rfl
  case neg =>
    rw [List.getElem?_eq_none (by rw [length_turned, width_turned h hw]; omega),
      List.getElem?_eq_none (by simpa using hi)]

-- The columns are the rows turned over, as far as the first row reaches: each cell is there, and once.
structure TurnsOver (rows columns : List (List Quantity)) : Prop where
  length : columns.length = width rows
  lengths : ∀ column ∈ columns, column.length = rows.length
  cell : ∀ i j : Nat, j < width rows → columns[j]?.bind (·[i]?) = rows[i]?.bind (·[j]?)
  perm : columns.flatten.Perm (rows.map (·.take (width rows))).flatten

theorem turnsOver_turned (h : ∀ row ∈ rows, width rows ≤ row.length) : TurnsOver rows (turned rows) where
  length := length_turned
  lengths := by
    simp only [turned, List.mem_map, List.mem_range]
    rintro _ ⟨j, hj, rfl⟩
    exact length_cellsAt fun row hr => Nat.lt_of_lt_of_le hj (h row hr)
  cell i j hj := by
    rw [getElem?_turned hj]
    exact getElem?_cellsAt fun row hr => Nat.lt_of_lt_of_le hj (h row hr)
  perm := by
    simpa only [turned, ← List.flatMap_def] using flatMap_cellsAt_perm

theorem transpose_turned (h : ∀ row ∈ rows, width rows ≤ row.length) (hw : 0 < width rows) :
    transpose (ofRows (turned rows)) = .ok (ofRows (rows.map (·.take (width rows)))) := by
  have ht : turned rows ≠ [] := List.ne_nil_of_length_pos (by rwa [length_turned])
  rw [transpose_ofRows ht, if_pos, turned_turned h hw]
  rw [width_turned h hw]
  exact fun column hc => Nat.le_of_eq ((turnsOver_turned h).lengths column hc).symm

theorem map_take_eq_self : rows.map (·.take n) = rows ↔ ∀ row ∈ rows, row.length ≤ n := by
  simpa [List.take_eq_self_iff] using List.map_inj_left (l := rows) (f := (·.take n)) (g := id)

theorem transpose_turnsOver (rows : List (List Quantity)) (hr : rows ≠ []) (hw : 0 < width rows) :
    (transpose (ofRows rows) = domainFault .raggedMatrix ↔ ∃ row ∈ rows, row.length < width rows) ∧
    ((∀ row ∈ rows, width rows ≤ row.length) → ∃ columns,
      transpose (ofRows rows) = .ok (ofRows columns) ∧ TurnsOver rows columns ∧
        transpose (ofRows columns) = .ok (ofRows (rows.map (·.take (width rows))))) ∧
    ((∃ t, transpose (ofRows rows) = .ok t ∧ transpose t = .ok (ofRows rows)) ↔
      ∀ row ∈ rows, row.length = width rows) := by
  by_cases h : ∀ row ∈ rows, width rows ≤ row.length
  case neg =>
    have ht := (transpose_ofRows hr).trans (if_neg h)
    refine ⟨⟨fun _ => by simpa using h, fun _ => ht⟩, fun h' => absurd h' h, ?_, fun hs => ?_⟩
    · rintro ⟨t, h', -⟩
      cases ht.symm.trans h'
    · exact absurd (fun row hr => Nat.le_of_eq (hs row hr).symm) h
  case pos =>
    have ht := (transpose_ofRows hr).trans (if_pos h)
    have htt := transpose_turned h hw
    refine ⟨⟨fun h' => ?_, fun ⟨row, hr, hs⟩ => absurd (h row hr) (Nat.not_le.mpr hs)⟩,
      fun _ => ⟨turned rows, ht, turnsOver_turned h, htt⟩, ?_, fun hs => ⟨_, ht, ?_⟩⟩
    · cases ht.symm.trans h'
    · rintro ⟨t, h', hback⟩
      cases ht.symm.trans h'
      have hs := ofRows_injective (Except.ok.inj (htt.symm.trans hback))
      exact fun row hr => Nat.le_antisymm (map_take_eq_self.mp hs row hr) (h row hr)
    · rw [htt, map_take_eq_self.mpr fun row hr => Nat.le_of_eq (hs row hr)]

-- Sacks and barrels in three cellars.
def cellars : List (List Quantity) :=
  [[number 4, number 1], [number 2, number 3], [number 0, number 5]]

theorem cellars_turned : cellars ≠ [] ∧ 0 < width cellars ∧ (∀ row ∈ cellars, row.length = width cellars) ∧
    ∃ t, transpose (ofRows cellars) = .ok t ∧ transpose t = .ok (ofRows cellars) := by
  have hr : cellars ≠ [] := List.cons_ne_nil _ _
  have hw : 0 < width cellars := Nat.zero_lt_two
  have hs : ∀ row ∈ cellars, row.length = width cellars := by simp [cellars, width]
  exact ⟨hr, hw, hs, (transpose_turnsOver cellars hr hw).2.2.mpr hs⟩

-- The second row is longer than the first, and its end is lost.
theorem overhang_lost : transpose (ofRows [[number 1], [number 2, number 3]]) = .ok (ofRows [[number 1, number 2]]) :=
  rfl

end Storyworld.Quantity
