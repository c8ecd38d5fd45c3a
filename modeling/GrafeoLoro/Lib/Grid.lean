import Mathlib.Data.List.Basic

/-!
# `GrafeoLoro.Lib.Grid`: a table that is filled from its last cell up

A table is a list of rows. `cellAt` and `setCell` fail on an index that is out of bounds. `fillRows`
goes through the rows from the last one up, and through each row from its last cell on. It computes
each cell from the table so far. The last row and the last column are not written.

`fillRows_grid`: let the computed value of a cell be right whenever the cells after it are right, in
its row and below. Then the loops succeed, and every cell is right.

The module names nothing of the bridge.
-/

set_option autoImplicit false

namespace GrafeoLoro.Lib

variable {α : Type}

/-- The cell `t[i][j]`. -/
def cellAt (t : List (List α)) (i j : Nat) : Option α := t[i]?.bind fun row => row[j]?

/-- The assignment `t[i][j] = v`. -/
def setCell (t : List (List α)) (i j : Nat) (v : α) : Option (List (List α)) :=
  t[i]?.bind fun row => if j < row.length then some (t.set i (row.set j v)) else none

/-- Compute one cell from the table, and write it. -/
def fillCell (cell : List (List α) → Nat → Nat → Option α) (i j : Nat) (t : List (List α)) :
    Option (List (List α)) :=
  (cell t i j).bind (setCell t i j)

/-- Fill the cells `t[i][0..j]`, from the last one on. -/
def fillRow (cell : List (List α) → Nat → Nat → Option α) (i : Nat) :
    Nat → List (List α) → Option (List (List α))
  | 0, t => some t
  | j + 1, t => (fillCell cell i j t).bind (fillRow cell i j)

/-- Fill the cells `t[0..i][0..n]`, from the last row up. -/
def fillRows (cell : List (List α) → Nat → Nat → Option α) (n : Nat) :
    Nat → List (List α) → Option (List (List α))
  | 0, t => some t
  | i + 1, t => (fillRow cell i n t).bind (fillRows cell n i)

/-- The table with `m` rows and `n` columns whose cells are the values of `f`. -/
def grid (m n : Nat) (f : Nat → Nat → α) : List (List α) :=
  (List.range m).map fun i => (List.range n).map (f i)

variable {m n : Nat} {f L : Nat → Nat → α}

/-- A cell of a grid. -/
theorem cellAt_grid {i j : Nat} (hi : i < m) (hj : j < n) :
    cellAt (grid m n f) i j = some (f i j) := by
  simp [cellAt, grid, hi, hj]

/-- A list of values, and an assignment to one of them. -/
theorem set_map_range {β : Type} (f : Nat → β) (n k : Nat) (v : β) :
    ((List.range n).map f).set k v = (List.range n).map (Function.update f k v) := by
  apply List.ext_getElem
  · rw [List.length_set, List.length_map, List.length_map]
  · intro i _ _
    rw [List.getElem_set, List.getElem_map, List.getElem_map, List.getElem_range,
      Function.update_apply]
    simp only [eq_comm]

/-- A written cell of a grid. -/
theorem setCell_grid {i j : Nat} (hi : i < m) (hj : j < n) (v : α) :
    setCell (grid m n f) i j v
      = some (grid m n (Function.update f i (Function.update (f i) j v))) := by
  have hrow : (grid m n f)[i]? = some ((List.range n).map (f i)) := by simp [grid, hi]
  rw [setCell, hrow, Option.bind_some, if_pos (by simpa using hj), set_map_range, grid,
    set_map_range, grid]
  congr 1
  apply List.map_congr_left
  intro i' _
  rw [Function.update_apply, Function.update_apply]
  split <;> rfl

/-- Grids with the same values. -/
theorem grid_congr (h : ∀ i < m, ∀ j < n, f i j = L i j) : grid m n f = grid m n L := by
  apply List.map_congr_left
  intro i hi
  apply List.map_congr_left
  intro j hj
  exact h i (List.mem_range.mp hi) j (List.mem_range.mp hj)

/-! ### The loops -/

/-- The rows below `i` are right, and so are the cells of row `i` from `j` on and the last
column. -/
def RightFrom (m n : Nat) (L : Nat → Nat → α) (i j : Nat) (f : Nat → Nat → α) : Prop :=
  ∀ i' ≤ m, ∀ j' ≤ n, i < i' ∨ (i' = i ∧ j ≤ j') ∨ j' = n → f i' j' = L i' j'

/-- The computed value of a cell is right when the cells after it are. -/
def Computes (m n : Nat) (L : Nat → Nat → α) (cell : List (List α) → Nat → Nat → Option α) :
    Prop :=
  ∀ f, ∀ i < m, ∀ j < n, RightFrom m n L i (j + 1) f →
    cell (grid (m + 1) (n + 1) f) i j = some (L i j)

variable {cell : List (List α) → Nat → Nat → Option α}

/-- The loop over the columns makes the row right. -/
theorem fillRow_grid (hcell : Computes m n L cell) {i : Nat} (hi : i < m) (j : Nat) (hj : j ≤ n)
    (f : Nat → Nat → α) (hf : RightFrom m n L i j f) :
    ∃ g, fillRow cell i j (grid (m + 1) (n + 1) f) = some (grid (m + 1) (n + 1) g) ∧
      RightFrom m n L i 0 g := by
  induction j generalizing f with
  | zero => exact ⟨f, rfl, hf⟩
  | succ j ih =>
    have hvalue := hcell f i hi j (by omega) hf
    rw [fillRow, fillCell, hvalue, Option.bind_some,
      setCell_grid (by omega : i < m + 1) (by omega : j < n + 1), Option.bind_some]
    apply ih (by omega)
    -- the new cell is right, and the others are as before
    intro i' hi' j' hj' hafter
    by_cases hrow : i' = i
    · rw [hrow, Function.update_self, Function.update_apply]
      split
      · rename_i hcolumn
        rw [hcolumn]
      · rename_i hcolumn
        exact hf i (by omega) j' hj' (by omega)
    · rw [Function.update_of_ne hrow]
      exact hf i' hi' j' hj' (by omega)

/-- The loop over the rows makes every cell right. -/
theorem fillRows_right (hcell : Computes m n L cell) (i : Nat) (hi : i ≤ m) (f : Nat → Nat → α)
    (hf : ∀ i' ≤ m, ∀ j' ≤ n, i ≤ i' ∨ j' = n → f i' j' = L i' j') :
    fillRows cell n i (grid (m + 1) (n + 1) f) = some (grid (m + 1) (n + 1) L) := by
  induction i generalizing f with
  | zero =>
    rw [fillRows, grid_congr]
    intro i' hi' j' hj'
    exact hf i' (by omega) j' (by omega) (.inl (Nat.zero_le i'))
  | succ i ih =>
    have hstart : RightFrom m n L i n f := by
      intro i' hi' j' hj' hafter
      exact hf i' hi' j' hj' (by omega)
    obtain ⟨g, hrow, hg⟩ := fillRow_grid hcell (by omega) n (Nat.le_refl n) f hstart
    rw [fillRows, hrow, Option.bind_some]
    apply ih (by omega)
    intro i' hi' j' hj' hafter
    exact hg i' hi' j' hj' (by omega)

/-- The loops succeed, and every cell is right. -/
theorem fillRows_grid (hcell : Computes m n L cell)
    (hedge : ∀ i ≤ m, ∀ j ≤ n, i = m ∨ j = n → f i j = L i j) :
    fillRows cell n m (grid (m + 1) (n + 1) f) = some (grid (m + 1) (n + 1) L) := by
  apply fillRows_right hcell m (Nat.le_refl m)
  intro i hi j hj hlast
  exact hedge i hi j hj (by omega)

end GrafeoLoro.Lib
