import GrafeoLoro.Ffi.Merge
import GrafeoLoro.Lib.Grid

/-!
# `GrafeoLoro.Ffi.LcsLoops`: the loops of `lcs_matches`, with every index checked

`lcsMatches` computes the table row by row and reads it with a default. Here the loops of
`lcs_matches` (`src/ffi/mod.rs`) are taken as they are: the table starts with zeros and is written
in place. `none` is the panic of an index that is out of bounds, or fuel that is used up.
-/

set_option autoImplicit false

namespace GrafeoLoro

open GrafeoLoro.Lib

/-- What the inner loop writes to `dp[i][j]`. -/
def lcsCell (a b : List Line) (dp : List (List Nat)) (i j : Nat) : Option Nat := do
  let x ← a[i]?
  let y ← b[j]?
  if x = y then
    let next ← cellAt dp (i + 1) (j + 1)
    return next + 1
  else
    let below ← cellAt dp (i + 1) j
    let right ← cellAt dp i (j + 1)
    return max below right

/-- The `while` loop, from the positions `i` and `j` on. -/
def lcsWalkChecked (a b : List Line) (dp : List (List Nat)) :
    Nat → Nat → Nat → Option (List (Nat × Nat))
  | 0, _, _ => none
  | fuel + 1, i, j =>
    if i < a.length ∧ j < b.length then do
      let x ← a[i]?
      let y ← b[j]?
      if x = y then
        let rest ← lcsWalkChecked a b dp fuel (i + 1) (j + 1)
        return (i, j) :: rest
      else
        let below ← cellAt dp (i + 1) j
        let right ← cellAt dp i (j + 1)
        if below ≥ right then lcsWalkChecked a b dp fuel (i + 1) j
        else lcsWalkChecked a b dp fuel i (j + 1)
    else some []

/-- `lcs_matches`. -/
def lcsMatchesChecked (a b : List Line) : Option (List (Nat × Nat)) :=
  let m := a.length
  let n := b.length
  if m = 0 ∨ n = 0 then some []
  else do
    let dp := List.replicate (m + 1) (List.replicate (n + 1) 0)
    let dp ← fillRows (lcsCell a b) n m dp
    -- the capacity of the result
    let _ ← cellAt dp 0 0
    lcsWalkChecked a b dp (m + n + 1) 0 0

end GrafeoLoro
