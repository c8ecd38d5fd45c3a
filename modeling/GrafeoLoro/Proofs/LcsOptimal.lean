import GrafeoLoro.Ffi.LcsLoops
import GrafeoLoro.Lib.Lcs
import GrafeoLoro.Proofs.LcsMatches

/-!
# `GrafeoLoro.Proofs.LcsOptimal`: the alignment is a longest common subsequence

Cell `(i, j)` of the table is the length of a longest common subsequence of the lines from `i` on
and the lines from `j` on. This holds of the table that is computed row by row
(`lcsTable_eq_grid`) and of the one that is written in place (`fillRows_lcsCell`), so the two are
one table. The walk loses nothing from the number in its cell (`length_lcsWalk`).

* `lcsMatches_optimal`: no index is out of bounds, the pairs are an alignment, and no common
  subsequence is longer.
-/

set_option autoImplicit false

namespace GrafeoLoro.Proofs

open GrafeoLoro GrafeoLoro.Lib

/-- What cell `(i, j)` of the table stands for. -/
def lcsFrom (a b : List Line) (i j : Nat) : Nat := lcsLength (a.drop i) (b.drop j)

variable {a b : List Line}

/-- A cell from the cells after it. -/
theorem lcsFrom_eq {i j : Nat} (hi : i < a.length) (hj : j < b.length) :
    lcsFrom a b i j
      = if a[i] = b[j] then lcsFrom a b (i + 1) (j + 1) + 1
        else max (lcsFrom a b (i + 1) j) (lcsFrom a b i (j + 1)) := by
  unfold lcsFrom
  rw [List.drop_eq_getElem_cons hi, List.drop_eq_getElem_cons hj, lcsLength_cons]

/-- The last row and the last column are zero. -/
theorem lcsFrom_edge {i j : Nat} (h : a.length ≤ i ∨ b.length ≤ j) : lcsFrom a b i j = 0 := by
  unfold lcsFrom
  cases h with
  | inl hi => rw [List.drop_eq_nil_of_le hi, lcsLength_nil_left]
  | inr hj => rw [List.drop_eq_nil_of_le hj, lcsLength_nil_right]

/-! ### The two tables -/

/-- The rests of a text are never none, and the first one is the text. -/
theorem headD_map_tails (f : List Line → Nat) (b : List Line) : (b.tails.map f).headD 0 = f b := by
  cases b with
  | nil => rfl
  | cons y b => rw [List.tails_cons, List.map_cons, List.headD_cons]

/-- One row of the table, from the row below. -/
theorem lcsRow_tails (x : Line) (a b : List Line) :
    lcsRow x b (b.tails.map (lcsLength a)) = b.tails.map (lcsLength (x :: a)) := by
  induction b with
  | nil => simp [lcsRow]
  | cons y b ih =>
    rw [List.tails_cons, List.map_cons, List.map_cons, lcsRow, List.tail_cons, List.headD_cons, ih,
      lcsLength_cons, headD_map_tails, headD_map_tails]

/-- The cells of the table, by the rests of the two texts. -/
theorem lcsTable_tails (a b : List Line) :
    lcsTable b a = a.tails.map fun s => b.tails.map (lcsLength s) := by
  induction a with
  | nil =>
    show [List.replicate (b.length + 1) 0] = [b.tails.map (lcsLength [])]
    -- the last row is zero
    rw [← List.length_tails, ← List.map_const']
    congr 1
    apply List.map_congr_left
    intro s _
    exact (lcsLength_nil_left s).symm
  | cons x a ih =>
    have hhead : (lcsTable b a).headD [] = b.tails.map (lcsLength a) := by
      rw [ih]
      cases a with
      | nil => rfl
      | cons z a => rw [List.tails_cons, List.map_cons, List.headD_cons]
    rw [lcsTable, hhead, lcsRow_tails, ih, List.tails_cons, List.map_cons]

/-- The table is the grid of the lengths. -/
theorem lcsTable_eq_grid (a b : List Line) :
    lcsTable b a = grid (a.length + 1) (b.length + 1) (lcsFrom a b) := by
  rw [lcsTable_tails, grid]
  apply List.ext_getElem
  · simp
  · intro i _ _
    rw [List.getElem_map, List.getElem_map, List.getElem_range, List.getElem_tails]
    apply List.ext_getElem
    · simp
    · intro j _ _
      rw [List.getElem_map, List.getElem_map, List.getElem_range, List.getElem_tails]
      rfl

/-- A cell of the table. -/
theorem cellAt_lcsTable {i j : Nat} (hi : i ≤ a.length) (hj : j ≤ b.length) :
    cellAt (lcsTable b a) i j = some (lcsFrom a b i j) := by
  rw [lcsTable_eq_grid, cellAt_grid (by omega) (by omega)]

/-- A cell of the table, read with a default. -/
theorem lcsAt_lcsTable {i j : Nat} (hi : i ≤ a.length) (hj : j ≤ b.length) :
    lcsAt (lcsTable b a) i j = lcsFrom a b i j := by
  rw [lcsTable_eq_grid, lcsAt, grid]
  simp [Nat.lt_succ_of_le hi, Nat.lt_succ_of_le hj]

/-- The loops fill the table with the lengths. -/
theorem fillRows_lcsCell (a b : List Line) :
    fillRows (lcsCell a b) b.length a.length
        (List.replicate (a.length + 1) (List.replicate (b.length + 1) 0))
      = some (lcsTable b a) := by
  have hzeros : List.replicate (a.length + 1) (List.replicate (b.length + 1) 0)
      = grid (a.length + 1) (b.length + 1) fun _ _ => 0 := by
    simp [grid]
  have hcell : Computes a.length b.length (lcsFrom a b) (lcsCell a b) := by
    intro f i hi j hj hf
    have hnext := hf (i + 1) (by omega) (j + 1) (by omega) (by omega)
    have hbelow := hf (i + 1) (by omega) j (by omega) (by omega)
    have hright := hf i (by omega) (j + 1) (by omega) (by omega)
    rw [lcsFrom_eq hi hj, ← hnext, ← hbelow, ← hright]
    simp only [lcsCell, List.getElem?_eq_getElem hi, List.getElem?_eq_getElem hj,
      cellAt_grid (by omega : i < a.length + 1) (by omega : j + 1 < b.length + 1),
      cellAt_grid (by omega : i + 1 < a.length + 1) (by omega : j < b.length + 1),
      cellAt_grid (by omega : i + 1 < a.length + 1) (by omega : j + 1 < b.length + 1)]
    rw [apply_ite some]
    rfl
  rw [hzeros, lcsTable_eq_grid]
  apply fillRows_grid hcell
  intro i _ j _ hedge
  exact (lcsFrom_edge (by omega)).symm

/-! ### The walk -/

/-- Behind the end of a text the walk is over. -/
theorem lcsWalk_outside {dp : List (List Nat)} {i j : Nat}
    (hout : ¬ (i < a.length ∧ j < b.length)) (fuel : Nat) : lcsWalk a b dp fuel i j = [] := by
  cases fuel with
  | zero => rfl
  | succ fuel =>
    rw [lcsWalk]
    split
    · rename_i x y hx hy
      have hi := (List.getElem?_eq_some_iff.mp hx).1
      have hj := (List.getElem?_eq_some_iff.mp hy).1
      exact absurd ⟨hi, hj⟩ hout
    · rfl

/-- The walk finds as many pairs as its first cell says. -/
theorem length_lcsWalk (fuel i j : Nat) (hi : i ≤ a.length) (hj : j ≤ b.length)
    (hfuel : a.length - i + (b.length - j) ≤ fuel) :
    (lcsWalk a b (lcsTable b a) fuel i j).length = lcsFrom a b i j := by
  induction fuel generalizing i j with
  | zero =>
    rw [lcsFrom_edge (by omega)]
    rfl
  | succ fuel ih =>
    by_cases hin : i < a.length ∧ j < b.length
    · obtain ⟨hi', hj'⟩ := hin
      rw [lcsFrom_eq hi' hj', lcsWalk, List.getElem?_eq_getElem hi', List.getElem?_eq_getElem hj']
      dsimp only
      rw [lcsAt_lcsTable hi' hj, lcsAt_lcsTable hi hj']
      split
      · -- equal lines are paired
        rw [List.length_cons, ih (i + 1) (j + 1) (by omega) (by omega) (by omega)]
      · -- the walk goes to the larger of the two cells
        split
        · rename_i hbelow
          rw [ih (i + 1) j (by omega) hj (by omega), max_eq_left hbelow]
        · rename_i hbelow
          rw [ih i (j + 1) hi (by omega) (by omega), max_eq_right (le_of_not_ge hbelow)]
    · rw [lcsFrom_edge (by omega), lcsWalk_outside hin]
      rfl

/-- The checked walk succeeds, and finds the same pairs. -/
theorem lcsWalkChecked_eq (fuel i j : Nat) (hi : i ≤ a.length) (hj : j ≤ b.length)
    (hfuel : a.length - i + (b.length - j) ≤ fuel) :
    lcsWalkChecked a b (lcsTable b a) (fuel + 1) i j
      = some (lcsWalk a b (lcsTable b a) fuel i j) := by
  induction fuel generalizing i j with
  | zero =>
    rw [lcsWalkChecked, if_neg (by omega)]
    rfl
  | succ fuel ih =>
    rw [lcsWalkChecked]
    by_cases hin : i < a.length ∧ j < b.length
    · have hi' := hin.1
      have hj' := hin.2
      rw [if_pos hin, lcsWalk, List.getElem?_eq_getElem hi', List.getElem?_eq_getElem hj',
        cellAt_lcsTable hi' hj, cellAt_lcsTable hi hj']
      dsimp only [bind, pure, Option.bind_some]
      rw [lcsAt_lcsTable hi' hj, lcsAt_lcsTable hi hj']
      split
      · rw [ih (i + 1) (j + 1) (by omega) (by omega) (by omega), Option.bind_some]
      · split
        · exact ih (i + 1) j (by omega) hj (by omega)
        · exact ih i (j + 1) hi (by omega) (by omega)
    · rw [if_neg hin, lcsWalk_outside hin]

/-! ### The alignment -/

/-- The loops of `lcs_matches` succeed, and their result is the alignment. -/
theorem lcsMatchesChecked_eq (a b : List Line) :
    lcsMatchesChecked a b = some (lcsMatches a b) := by
  unfold lcsMatchesChecked lcsMatches
  dsimp only
  split
  · rfl
  · rw [fillRows_lcsCell]
    dsimp only [bind, pure, Option.bind_some]
    rw [cellAt_lcsTable (Nat.zero_le _) (Nat.zero_le _), Option.bind_some]
    exact lcsWalkChecked_eq _ 0 0 (Nat.zero_le _) (Nat.zero_le _) (by omega)

/-- The number of the aligned lines. -/
theorem length_lcsMatches (a b : List Line) : (lcsMatches a b).length = lcsLength a b := by
  unfold lcsMatches
  split
  · rename_i hempty
    exact (lcsFrom_edge (i := 0) (j := 0) (by omega)).symm
  · exact length_lcsWalk _ 0 0 (Nat.zero_le _) (Nat.zero_le _) (by omega)

/-- For all texts: the loops of `lcs_matches` never index out of bounds and end. The pairs grow in
both components and point at equal lines. There are as many of them as a longest common subsequence
has lines. -/
theorem lcsMatches_optimal (a b : List Line) :
    lcsMatchesChecked a b = some (lcsMatches a b) ∧
    (lcsMatches a b).Pairwise (fun p q => p.1 < q.1 ∧ p.2 < q.2) ∧
    (∀ p ∈ lcsMatches a b, ∃ x, a[p.1]? = some x ∧ b[p.2]? = some x) ∧
    (∃ c : List Line, c.Sublist a ∧ c.Sublist b ∧ c.length = (lcsMatches a b).length) ∧
    ∀ c : List Line, c.Sublist a → c.Sublist b → c.length ≤ (lcsMatches a b).length := by
  refine ⟨lcsMatchesChecked_eq a b, lcsMatches_grow a b, fun p hp => lcsMatches_eq hp, ?_, ?_⟩
  · rw [length_lcsMatches]
    exact exists_lcs a b
  · intro c ha hb
    rw [length_lcsMatches]
    exact length_le_lcsLength ha hb

end GrafeoLoro.Proofs
