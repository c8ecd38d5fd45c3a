import GrafeoLoro.Lib.Alignment
import GrafeoLoro.Types.Events

/-!
# `GrafeoLoro.Ffi.Merge`: the line-level three-way merge of texts

`semantic_text_merge` and its helper `lcs_matches` (`src/ffi/mod.rs`). A text is split into
lines. Each side is aligned with the base by a longest common subsequence of lines. For every
base line the merge takes what the two sides have inserted before it, and then the base line
itself where both sides have kept it.

The table of `lcs_matches` is filled from its last row up, each row from its last entry on. The
walk over it takes at most as many rounds as the two texts have lines together, which is its
fuel.
-/

set_option autoImplicit false

namespace GrafeoLoro

/-- A line of a text, without its line break. -/
abbrev Line : Type := String

/-- `str::split('\n')`, collected. -/
def splitLines (text : String) : List Line := (text.toList.splitOn '\n').map String.ofList

/-- `join("\n")`. -/
def joinLines (lines : List Line) : String :=
  String.ofList (['\n'].intercalate (lines.map String.toList))

/-! ### The alignment of one side -/

/-- Row `i` of the table, from row `i + 1`. -/
def lcsRow (x : Line) : List Line → List Nat → List Nat
  | [], _ => [0]
  | y :: b, below =>
    let row := lcsRow x b below.tail
    (if x = y then below.tail.headD 0 + 1 else max (below.headD 0) (row.headD 0)) :: row

/-- The table `dp`. -/
def lcsTable (b : List Line) : List Line → List (List Nat)
  | [] => [List.replicate (b.length + 1) 0]
  | x :: a => let dp := lcsTable b a; lcsRow x b (dp.headD []) :: dp

/-- `dp[i][j]`. -/
def lcsAt (dp : List (List Nat)) (i j : Nat) : Nat := (dp.getD i []).getD j 0

/-- The walk over the table, from entry `(i, j)` on. -/
def lcsWalk (a b : List Line) (dp : List (List Nat)) : Nat → Nat → Nat → List (Nat × Nat)
  | 0, _, _ => []
  | fuel + 1, i, j =>
    match a[i]?, b[j]? with
    | some x, some y =>
      if x = y then (i, j) :: lcsWalk a b dp fuel (i + 1) (j + 1)
      else if lcsAt dp (i + 1) j ≥ lcsAt dp i (j + 1) then lcsWalk a b dp fuel (i + 1) j
      else lcsWalk a b dp fuel i (j + 1)
    | _, _ => []

/-- `lcs_matches`: the aligned pairs of positions. -/
def lcsMatches (a b : List Line) : List (Nat × Nat) :=
  if a.length = 0 ∨ b.length = 0 then []
  else lcsWalk a b (lcsTable b a) (a.length + b.length) 0 0

/-- `our_match_at` and `their_match_at`: for every base line, the position of the side's line
that it is aligned with. -/
def matchAt (baseLen : Nat) (pairs : List (Nat × Nat)) : List (Option Nat) :=
  pairs.foldl (fun arr p => arr.set p.1 (some p.2)) (List.replicate baseLen none)

/-- `our_insertions_before` and `their_insertions_before`: for every base line that is aligned,
the range of the side's lines since the line that was aligned before. A base line that is not
aligned keeps the empty range it starts with. The last range is that of the end. -/
def insertionsBefore (len : Nat) : List (Option Nat) → Nat → List (Nat × Nat)
  | [], prev => [(prev, len)]
  | none :: rest, prev => (0, 0) :: insertionsBefore len rest prev
  | some o :: rest, prev => (prev, o) :: insertionsBefore len rest (o + 1)

/-- One side of a merge, aligned with the base. -/
structure MergeSide where
  lines : List Line
  matchAt : List (Option Nat)
  insertionsBefore : List (Nat × Nat)

/-- The alignment of a side. -/
def alignSide (base lines : List Line) : MergeSide :=
  let arr := matchAt base.length (lcsMatches base lines)
  ⟨lines, arr, insertionsBefore lines.length arr 0⟩

/-- What the side has inserted before the base line. -/
def MergeSide.insertedAt (side : MergeSide) (idx : Nat) : List Line :=
  let (lo, hi) := side.insertionsBefore.getD idx (0, 0)
  Lib.slice side.lines lo hi

/-- Whether the side has kept the base line. -/
def MergeSide.keeps (side : MergeSide) (idx : Nat) : Bool := (side.matchAt.getD idx none).isSome

/-! ### The merge -/

/-- The insertions of the two sides before one base line, and whether they are in conflict. -/
def mergeInsertions (ourIns theirIns : List Line) : List Line × Bool :=
  if ourIns.isEmpty then (theirIns, false)
  else if theirIns.isEmpty then (ourIns, false)
  else if ourIns = theirIns then (ourIns, false)
  else (["<<<<<<< ours"] ++ ourIns ++ ["======="] ++ theirIns ++ [">>>>>>> theirs"], true)

/-- One round of the loop over the base lines and the end. -/
def mergeRound (base : List Line) (ours theirs : MergeSide) (state : List Line × Bool)
    (idx : Nat) : List Line × Bool :=
  let (inserted, clash) := mergeInsertions (ours.insertedAt idx) (theirs.insertedAt idx)
  let kept := match base[idx]? with
    | some line => if ours.keeps idx && theirs.keeps idx then [line] else []
    | none => []
  (state.1 ++ inserted ++ kept, state.2 || clash)

/-- The loop: the lines of the merged text, and whether there is a conflict. -/
def mergeLines (base ours theirs : List Line) : List Line × Bool :=
  (List.range (base.length + 1)).foldl
    (mergeRound base (alignSide base ours) (alignSide base theirs)) ([], false)

/-- The resolution that the merge reports. -/
def mergeResolution (base ours theirs : List Line) (conflict : Bool) : ConflictResolution :=
  if conflict then .manualRequired
  else if ours = theirs then .merged
  else if base = ours then .theirsWins
  else if base = theirs then .oursWins
  else .merged

/-- `semantic_text_merge`. -/
def semanticTextMerge (base ours theirs : String) : String × ConflictResolution :=
  let baseLines := splitLines base
  let ourLines := splitLines ours
  let theirLines := splitLines theirs
  let (result, conflict) := mergeLines baseLines ourLines theirLines
  (joinLines result, mergeResolution baseLines ourLines theirLines conflict)

end GrafeoLoro
