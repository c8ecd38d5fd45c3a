import GrafeoLoro.Proofs.TextMerge

/-!
# `GrafeoLoro.Proofs.MergeSources`: where the lines of a merged text come from

`mergeOrigins` is the loop of the merge again, with the origin of each line that it puts out: a
base line, a line of one side, or a conflict marker. `map_fst_mergeOrigins` says that the lines
are those of the merge.

* `semanticTextMerge_sources`: what each side has added is in the output in its order, a base
  line is put out exactly when both sides keep it, and without a conflict there is nothing else.
* `alignSide_ranges`: the ranges that the loop slices out of the sides are valid.
-/

set_option autoImplicit false

namespace GrafeoLoro.Proofs

open GrafeoLoro GrafeoLoro.Lib

/-- Where a line of the merged text is taken from. -/
inductive Origin where
  | base (idx : Nat)
  | ours (pos : Nat)
  | theirs (pos : Nat)
  | marker
  deriving DecidableEq

/-- The base line that was put out. -/
def Origin.baseIdx : Origin → Option Nat
  | .base idx => some idx
  | _ => none

/-- What the side has inserted before the base line, with the positions in the side. -/
def insertedFrom (side : MergeSide) (idx : Nat) : List (Line × Nat) :=
  let (lo, hi) := side.insertionsBefore.getD idx (0, 0)
  slice side.lines.zipIdx lo hi

/-- The insertions of the two sides before one base line, as `mergeInsertions` puts them out. -/
def originInsertions (ourIns theirIns : List (Line × Nat)) : List (Line × Origin) :=
  let ours := ourIns.map fun p => (p.1, Origin.ours p.2)
  let theirs := theirIns.map fun p => (p.1, Origin.theirs p.2)
  if ourIns.isEmpty then theirs
  else if theirIns.isEmpty then ours
  else if ourIns.map Prod.fst = theirIns.map Prod.fst then ours
  else [("<<<<<<< ours", .marker)] ++ ours ++ [("=======", .marker)] ++ theirs
    ++ [(">>>>>>> theirs", .marker)]

/-- The lines of the merged text with their origins. -/
def mergeOrigins (base ours theirs : List Line) : List (Line × Origin) :=
  (List.range (base.length + 1)).flatMap fun i =>
    originInsertions (insertedFrom (alignSide base ours) i) (insertedFrom (alignSide base theirs) i)
      ++ (keptLine base (alignSide base ours) (alignSide base theirs) i).map fun line =>
          (line, .base i)

/-- The lines of a side that are not aligned with the base, with their positions. -/
def addedLines (base side : List Line) : List (Line × Nat) :=
  unaligned side 0 (alignSide base side).matchAt

/-- The line comes from where its origin says: from a base line that both sides keep, from what a
side has added, or from the markers of a conflict. -/
def ComesFrom (base ours theirs : List Line) (entry : Line × Origin) : Prop :=
  match entry.2 with
  | .base idx => base[idx]? = some entry.1 ∧ (alignSide base ours).keeps idx = true ∧
      (alignSide base theirs).keeps idx = true
  | .ours pos => (entry.1, pos) ∈ addedLines base ours
  | .theirs pos => (entry.1, pos) ∈ addedLines base theirs
  | .marker => (mergeLines base ours theirs).2 = true

/-- The account of a merge: every line of the output has an origin, what the sides have added is
there in its order, and so are the base lines that both sides keep, each once. The ranges that
the loop slices out of the sides are valid. -/
structure MergeAccount (base ours theirs : List Line) : Prop where
  lines : (mergeOrigins base ours theirs).map Prod.fst = (mergeLines base ours theirs).1
  ourLines : ((addedLines base ours).map Prod.fst).Sublist (mergeLines base ours theirs).1
  theirLines : ((addedLines base theirs).map Prod.fst).Sublist (mergeLines base ours theirs).1
  baseLines : (mergeOrigins base ours theirs).filterMap (fun entry => entry.2.baseIdx)
    = (List.range base.length).filter fun i =>
        (alignSide base ours).keeps i && (alignSide base theirs).keeps i
  origins : ∀ entry ∈ mergeOrigins base ours theirs, ComesFrom base ours theirs entry
  ranges : ∀ side ∈ [ours, theirs], ∀ r ∈ (alignSide base side).insertionsBefore,
    r.1 ≤ r.2 ∧ r.2 ≤ side.length

/-! ### The stretches -/

/-- The lines of the stretch with positions. -/
theorem map_fst_insertedFrom (base side : List Line) (i : Nat) :
    (insertedFrom (alignSide base side) i).map Prod.fst = (alignSide base side).insertedAt i := by
  show (slice side.zipIdx _ _).map Prod.fst = slice side _ _
  simp [slice]

/-- The stretch with positions is one of the stretches of the numbered side. -/
theorem insertedFrom_eq (base side : List Line) (i : Nat) :
    insertedFrom (alignSide base side) i
      = (stretches side.zipIdx 0 (alignSide base side).matchAt).getD i [] := by
  rw [← slice_insertionsBefore, List.length_zipIdx]
  rfl

/-- All stretches together are what the side has added. -/
theorem flatMap_insertedFrom (base side : List Line) :
    (List.range (base.length + 1)).flatMap (insertedFrom (alignSide base side))
      = addedLines base side := by
  rw [addedLines, ← (aligned_alignSide base side).unaligned_eq]
  exact List.flatMap_congr fun i _ => insertedFrom_eq base side i

/-- The lines of the merged stretches. -/
theorem map_fst_originInsertions (ourIns theirIns : List (Line × Nat)) :
    (originInsertions ourIns theirIns).map Prod.fst
      = (mergeInsertions (ourIns.map Prod.fst) (theirIns.map Prod.fst)).1 := by
  simp only [originInsertions, mergeInsertions, List.isEmpty_map]
  split_ifs <;> simp [Function.comp_def]

/-- What `ours` has inserted is in the merged stretches. -/
theorem ours_sublist (ourIns theirIns : List Line) :
    ourIns.Sublist (mergeInsertions ourIns theirIns).1 := by
  unfold mergeInsertions
  split_ifs with hours htheirs hsame
  · simp [List.isEmpty_iff.mp hours]
  · exact List.Sublist.refl _
  · exact List.Sublist.refl _
  · simp

/-- What `theirs` has inserted is in the merged stretches. -/
theorem theirs_sublist (ourIns theirIns : List Line) :
    theirIns.Sublist (mergeInsertions ourIns theirIns).1 := by
  unfold mergeInsertions
  split_ifs with hours htheirs hsame
  · exact List.Sublist.refl _
  · simp [List.isEmpty_iff.mp htheirs]
  · exact hsame ▸ List.Sublist.refl _
  · exact (List.sublist_append_right _ theirIns).trans (List.sublist_append_left _ _)

/-- No merged stretch has a base line. -/
theorem baseIdx_originInsertions (ourIns theirIns : List (Line × Nat)) :
    (originInsertions ourIns theirIns).filterMap (fun entry => entry.2.baseIdx) = [] := by
  unfold originInsertions
  split_ifs <;> simp [Origin.baseIdx]

/-- The origins of the merged stretches: a marker only if they clash. -/
theorem mem_originInsertions {ourIns theirIns : List (Line × Nat)} {entry : Line × Origin}
    (h : entry ∈ originInsertions ourIns theirIns) :
    (∃ p ∈ ourIns, entry = (p.1, .ours p.2)) ∨ (∃ p ∈ theirIns, entry = (p.1, .theirs p.2)) ∨
      entry.2 = .marker ∧
        (mergeInsertions (ourIns.map Prod.fst) (theirIns.map Prod.fst)).2 = true := by
  have hours (p) (hp : p ∈ ourIns.map fun p => (p.1, Origin.ours p.2)) :
      ∃ q ∈ ourIns, p = (q.1, .ours q.2) := by
    obtain ⟨q, hq, rfl⟩ := List.mem_map.mp hp
    exact ⟨q, hq, rfl⟩
  have htheirs (p) (hp : p ∈ theirIns.map fun p => (p.1, Origin.theirs p.2)) :
      ∃ q ∈ theirIns, p = (q.1, .theirs q.2) := by
    obtain ⟨q, hq, rfl⟩ := List.mem_map.mp hp
    exact ⟨q, hq, rfl⟩
  simp only [originInsertions] at h
  split_ifs at h with hnone hnone' hsame
  · exact .inr (.inl (htheirs _ h))
  · exact .inl (hours _ h)
  · exact .inl (hours _ h)
  · have hclash : (mergeInsertions (ourIns.map Prod.fst) (theirIns.map Prod.fst)).2 = true := by
      simp [mergeInsertions, hnone, hnone', hsame]
    simp only [List.mem_append, List.mem_singleton] at h
    rcases h with (((h | h) | h) | h) | h
    · exact .inr (.inr ⟨by rw [h], hclash⟩)
    · exact .inl (hours _ h)
    · exact .inr (.inr ⟨by rw [h], hclash⟩)
    · exact .inr (.inl (htheirs _ h))
    · exact .inr (.inr ⟨by rw [h], hclash⟩)

/-! ### The output -/

/-- The lines of `mergeOrigins` are the merged lines. -/
theorem map_fst_mergeOrigins (base ours theirs : List Line) :
    (mergeOrigins base ours theirs).map Prod.fst = (mergeLines base ours theirs).1 := by
  rw [mergeLines_eq, mergeOrigins, List.map_flatMap]
  refine List.flatMap_congr fun i _ => ?_
  simp [map_fst_originInsertions, map_fst_insertedFrom, Function.comp_def]

/-- What a side has added is in the output, if its stretches are in the merged ones. -/
theorem added_sublist {base side ours theirs : List Line}
    (h : ∀ i, ((alignSide base side).insertedAt i).Sublist
      (mergeInsertions ((alignSide base ours).insertedAt i)
        ((alignSide base theirs).insertedAt i)).1) :
    ((addedLines base side).map Prod.fst).Sublist (mergeLines base ours theirs).1 := by
  rw [mergeLines_eq, ← flatMap_insertedFrom, List.map_flatMap]
  refine List.Sublist.flatMap_right _ fun i _ => ?_
  rw [map_fst_insertedFrom]
  exact (h i).trans (List.sublist_append_left _ _)

/-- The base lines in the output are those that both sides keep. -/
theorem baseIdx_mergeOrigins (base ours theirs : List Line) :
    (mergeOrigins base ours theirs).filterMap (fun entry => entry.2.baseIdx)
      = (List.range base.length).filter fun i =>
          (alignSide base ours).keeps i && (alignSide base theirs).keeps i := by
  have hround : ∀ i < base.length,
      (originInsertions (insertedFrom (alignSide base ours) i)
            (insertedFrom (alignSide base theirs) i)
          ++ (keptLine base (alignSide base ours) (alignSide base theirs) i).map fun line =>
              (line, Origin.base i)).filterMap (fun entry => entry.2.baseIdx)
        = [i].filter fun i => (alignSide base ours).keeps i && (alignSide base theirs).keeps i := by
    intro i hi
    have hline : base[i]? = some base[i] := List.getElem?_eq_getElem hi
    rw [List.filterMap_append, baseIdx_originInsertions, keptLine, hline]
    split_ifs with hboth
    · simp [hboth, Origin.baseIdx]
    · simp [hboth]
  have hrounds : (List.range base.length).flatMap (fun i => [i].filter fun i =>
        (alignSide base ours).keeps i && (alignSide base theirs).keeps i)
      = (List.range base.length).filter fun i =>
          (alignSide base ours).keeps i && (alignSide base theirs).keeps i := by
    rw [← List.filter_flatMap, List.flatMap_singleton']
  rw [mergeOrigins, List.filterMap_flatMap, List.range_succ, List.flatMap_append,
    List.flatMap_congr fun i hi => hround i (List.mem_range.mp hi), hrounds]
  -- the end puts out no base line
  simp [baseIdx_originInsertions, keptLine]

/-- Every line comes from where its origin says. -/
theorem comesFrom_mergeOrigins {base ours theirs : List Line} {entry : Line × Origin}
    (h : entry ∈ mergeOrigins base ours theirs) : ComesFrom base ours theirs entry := by
  obtain ⟨i, hi, h⟩ := List.mem_flatMap.mp h
  have hadded (side : List Line) (p) (hp : p ∈ insertedFrom (alignSide base side) i) :
      p ∈ addedLines base side := by
    rw [← flatMap_insertedFrom]
    exact List.mem_flatMap.mpr ⟨i, hi, hp⟩
  cases List.mem_append.mp h with
  | inl hins =>
    rcases mem_originInsertions hins with ⟨p, hp, rfl⟩ | ⟨p, hp, rfl⟩ | ⟨hmarker, hclash⟩
    · exact hadded ours p hp
    · exact hadded theirs p hp
    · rw [map_fst_insertedFrom, map_fst_insertedFrom] at hclash
      unfold ComesFrom
      rw [hmarker, mergeLines_eq]
      exact List.any_eq_true.mpr ⟨i, hi, hclash⟩
  | inr hkept =>
    obtain ⟨line, hline, rfl⟩ := List.mem_map.mp hkept
    unfold keptLine at hline
    split at hline
    · rename_i hboth
      rw [Bool.and_eq_true] at hboth
      exact ⟨Option.mem_toList.mp hline, hboth.1, hboth.2⟩
    · cases hline

/-- The ranges of a side can be sliced out of it. -/
theorem alignSide_ranges (base side : List Line) :
    ∀ r ∈ (alignSide base side).insertionsBefore, r.1 ≤ r.2 ∧ r.2 ≤ side.length :=
  insertionsBefore_le (aligned_alignSide base side)

/-- The merged text is the joined lines of an account: every line has an origin, nothing that a
side has added is lost, and a base line is there exactly when both sides keep it. Markers are
there only when the merge is left to the user. -/
theorem semanticTextMerge_sources (base ours theirs : String) :
    (semanticTextMerge base ours theirs).1
        = joinLines (mergeLines (splitLines base) (splitLines ours) (splitLines theirs)).1 ∧
      ((semanticTextMerge base ours theirs).2 = .manualRequired
        ↔ (mergeLines (splitLines base) (splitLines ours) (splitLines theirs)).2 = true) ∧
      MergeAccount (splitLines base) (splitLines ours) (splitLines theirs) :=
  ⟨rfl, semanticTextMerge_manualRequired,
    { lines := map_fst_mergeOrigins _ _ _
      ourLines := added_sublist fun _ => ours_sublist _ _
      theirLines := added_sublist fun _ => theirs_sublist _ _
      baseLines := baseIdx_mergeOrigins _ _ _
      origins := fun _ => comesFrom_mergeOrigins
      ranges := fun _ _ => alignSide_ranges _ _ }⟩

end GrafeoLoro.Proofs
