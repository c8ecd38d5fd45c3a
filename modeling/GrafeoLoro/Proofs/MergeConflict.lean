import GrafeoLoro.Proofs.TextMerge

/-!
# `GrafeoLoro.Proofs.MergeConflict`: which conflicting changes a text merge reports

A side changes a region of the base: a run of base lines that it does not keep, with the lines
that it has in their place. The merge compares what the two sides have before the same base
line, and a base line that only one side keeps has nothing before it on the other. So two
changed regions that overlap are compared only if they end at the same line, and they clash
only if both put lines in their place.

* `manualRequired_iff_clash`: the merge is left to the user exactly when two stretches clash.
* `clash_iff`, `clash_iff_at`: two stretches clash exactly when two changed regions do, or lines
  that a side merely inserts.
* `conflictComplete_iff`: which text triples with different changed regions around a base line
  are reported. Where the sides do nothing else, those with regions that clash.
* `deletion_against_replacement`: one side deletes a line that the other one replaces, and the
  merge reports no conflict.
-/

set_option autoImplicit false

namespace GrafeoLoro.Proofs

open GrafeoLoro GrafeoLoro.Lib

/-- A changed region of a side: the run of base lines from `start` to `stop` that the side does
not keep, and its lines in their place. -/
structure ChangedRegion where
  start : Nat
  stop : Nat
  lines : List Line
  deriving DecidableEq

/-- The lines of the side between its last kept base line before `idx` and the base line `idx`
itself, or the end. -/
def linesBefore (side : MergeSide) (idx : Nat) : List Line :=
  let lo := ((side.matchAt.take idx).reverse.findSome? id).elim 0 (· + 1)
  let hi := (side.matchAt[idx]?.join).getD side.lines.length
  slice side.lines lo hi

/-- The changed region of the side around a base line that it does not keep. -/
def changedRegion (side : MergeSide) (idx : Nat) : ChangedRegion :=
  let start := idx - ((side.matchAt.take idx).reverse.takeWhile Option.isNone).length
  let stop := idx + ((side.matchAt.drop idx).takeWhile Option.isNone).length
  ⟨start, stop, linesBefore side stop⟩

/-- Neither side keeps the base line. -/
def TwoSided (base ours theirs : List Line) (idx : Nat) : Prop :=
  idx < base.length ∧ (alignSide base ours).keeps idx = false ∧
    (alignSide base theirs).keeps idx = false

/-- Some base line is kept by neither side, and their changed regions around it differ. -/
def DifferentChange (base ours theirs : List Line) : Prop :=
  ∃ idx, TwoSided base ours theirs idx ∧
    changedRegion (alignSide base ours) idx ≠ changedRegion (alignSide base theirs) idx

/-- Before the base line, which both sides keep, or before the end, both sides have lines, and
not the same ones. -/
def ClashAt (base ours theirs : List Line) (idx : Nat) : Prop :=
  (idx = base.length ∨
      (alignSide base ours).keeps idx = true ∧ (alignSide base theirs).keeps idx = true) ∧
    linesBefore (alignSide base ours) idx ≠ [] ∧ linesBefore (alignSide base theirs) idx ≠ [] ∧
    linesBefore (alignSide base ours) idx ≠ linesBefore (alignSide base theirs) idx

/-- Two stretches of the sides clash. -/
def Clash (base ours theirs : List Line) : Prop := ∃ idx, ClashAt base ours theirs idx

/-- The two changed regions around the base line end at the same line, and both sides put lines
in their place, but not the same ones. -/
def RegionsClash (base ours theirs : List Line) (idx : Nat) : Prop :=
  let our := changedRegion (alignSide base ours) idx
  let their := changedRegion (alignSide base theirs) idx
  our.stop = their.stop ∧ our.lines ≠ [] ∧ their.lines ≠ [] ∧ our.lines ≠ their.lines

/-- Two stretches clash, and one of them is a mere insertion: it is at the start, or the side
keeps the base line before it. -/
def InsertsClash (base ours theirs : List Line) : Prop :=
  ∃ idx, ClashAt base ours theirs idx ∧
    (idx = 0 ∨ (alignSide base ours).keeps (idx - 1) = true ∨
      (alignSide base theirs).keeps (idx - 1) = true)

/-- Two stretches clash, and not where both regions around the base line end. -/
def ClashElsewhere (base ours theirs : List Line) (idx : Nat) : Prop :=
  ∃ place, ClashAt base ours theirs place ∧
    ¬ (place = (changedRegion (alignSide base ours) idx).stop ∧
      place = (changedRegion (alignSide base theirs) idx).stop)

/-- The side has lines of its own nowhere but in place of its region around the base line. -/
def OnlyRegion (base side : List Line) (idx : Nat) : Prop :=
  ∀ place, (place = base.length ∨ (alignSide base side).keeps place = true) →
    linesBefore (alignSide base side) place ≠ [] →
    place = (changedRegion (alignSide base side) idx).stop

/-! ### The ranges -/

/-- The end of the last aligned line, with one more place in front. -/
theorem lastEnd_cons (head : Option Nat) (arr : List (Option Nat)) (prev : Nat) :
    ((head :: arr).reverse.findSome? id).elim prev (· + 1)
      = (arr.reverse.findSome? id).elim (head.elim prev (· + 1)) (· + 1) := by
  rw [List.reverse_cons, List.findSome?_append]
  cases arr.reverse.findSome? id with
  | none => simp
  | some o => simp

/-- The range of a base line that is aligned, of one that is not, and of the end. -/
theorem getD_insertionsBefore (len : Nat) (arr : List (Option Nat)) :
    ∀ prev idx : Nat, idx ≤ arr.length →
      (insertionsBefore len arr prev).getD idx (0, 0)
        = match arr[idx]? with
          | some none => (0, 0)
          | some (some o) => (((arr.take idx).reverse.findSome? id).elim prev (· + 1), o)
          | none => (((arr.take idx).reverse.findSome? id).elim prev (· + 1), len) := by
  induction arr with
  | nil =>
    intro prev idx hidx
    have hzero : idx = 0 := by simpa using hidx
    simp [hzero, insertionsBefore]
  | cons head arr ih =>
    intro prev idx hidx
    cases idx with
    | zero =>
      cases head with
      | none => simp [insertionsBefore]
      | some o => simp [insertionsBefore]
    | succ idx =>
      have hle : idx ≤ arr.length := by simpa using hidx
      simp only [List.take_succ_cons, lastEnd_cons, List.getElem?_cons_succ]
      cases head with
      | none => exact ih prev idx hle
      | some o => exact ih (o + 1) idx hle

/-- Before a base line that it keeps, and before the end, a side inserts the lines since the last
base line it keeps. Before one that it does not keep, it inserts nothing. -/
theorem insertedAt_eq_linesBefore {base side : List Line} {idx : Nat} (hidx : idx ≤ base.length) :
    (alignSide base side).insertedAt idx
      = if idx = base.length ∨ (alignSide base side).keeps idx then
          linesBefore (alignSide base side) idx
        else [] := by
  have hlen : (alignSide base side).matchAt.length = base.length := length_matchAt _ _
  have hrange := getD_insertionsBefore side.length (alignSide base side).matchAt 0 idx
    (hlen ▸ hidx)
  show slice side ((insertionsBefore side.length (alignSide base side).matchAt 0).getD idx (0, 0)).1
    ((insertionsBefore side.length (alignSide base side).matchAt 0).getD idx (0, 0)).2 = _
  rw [hrange]
  cases hat : (alignSide base side).matchAt[idx]? with
  | none =>
    have hend : idx = base.length := by
      have hge := List.getElem?_eq_none_iff.mp hat
      omega
    rw [if_pos (.inl hend), linesBefore, hat]
    rfl
  | some entry =>
    have hlt : idx < base.length := hlen ▸ (List.getElem?_eq_some_iff.mp hat).1
    have hkeeps : (alignSide base side).keeps idx = entry.isSome := by
      simp [MergeSide.keeps, List.getD_eq_getElem?_getD, hat]
    cases entry with
    | none =>
      have hnot : ¬ (idx = base.length ∨ (alignSide base side).keeps idx = true) := by
        simp [hkeeps, hlt.ne]
      rw [if_neg hnot]
      exact slice_self _ _
    | some o =>
      rw [if_pos (.inr hkeeps), linesBefore, hat]
      rfl

/-- Where a side inserts something, it keeps the base line, or it is the end. -/
theorem place_of_insertedAt {base side : List Line} {idx : Nat} (hidx : idx ≤ base.length)
    (h : (alignSide base side).insertedAt idx ≠ []) :
    (idx = base.length ∨ (alignSide base side).keeps idx = true) ∧
      (alignSide base side).insertedAt idx = linesBefore (alignSide base side) idx := by
  rw [insertedAt_eq_linesBefore hidx] at h ⊢
  split at h
  · rename_i hplace
    exact ⟨hplace, if_pos hplace⟩
  · exact absurd rfl h

/-- A side keeps base lines only. -/
theorem lt_of_keeps {base side : List Line} {idx : Nat}
    (h : (alignSide base side).keeps idx = true) : idx < base.length := by
  have hlen : (alignSide base side).matchAt.length = base.length := length_matchAt _ _
  by_contra hge
  have hnone : (alignSide base side).matchAt[idx]? = none :=
    List.getElem?_eq_none (by omega)
  simp [MergeSide.keeps, List.getD_eq_getElem?_getD, hnone] at h

/-- A place where a side can have lines of its own is at a base line or the end. -/
theorem place_le {base side : List Line} {place : Nat}
    (h : place = base.length ∨ (alignSide base side).keeps place = true) :
    place ≤ base.length := by
  cases h with
  | inl hend => exact hend.le
  | inr hkeeps => exact (lt_of_keeps hkeeps).le

instance (base ours theirs : List Line) (idx : Nat) :
    Decidable (TwoSided base ours theirs idx) :=
  inferInstanceAs (Decidable (_ ∧ _ ∧ _))

instance (base ours theirs : List Line) (idx : Nat) :
    Decidable (RegionsClash base ours theirs idx) :=
  inferInstanceAs (Decidable (_ ∧ _ ∧ _ ∧ _))

instance (base side : List Line) (idx : Nat) : Decidable (OnlyRegion base side idx) :=
  decidable_of_iff (∀ place < base.length + 1,
      (place = base.length ∨ (alignSide base side).keeps place = true) →
      linesBefore (alignSide base side) place ≠ [] →
      place = (changedRegion (alignSide base side) idx).stop)
    ⟨fun h place hplace => h place (Nat.lt_succ_of_le (place_le hplace)) hplace,
      fun h place _ => h place⟩

/-! ### Clashes -/

/-- Two stretches clash when both have lines, and not the same ones. -/
theorem mergeInsertions_clash {ourIns theirIns : List Line} :
    (mergeInsertions ourIns theirIns).2 = true
      ↔ ourIns ≠ [] ∧ theirIns ≠ [] ∧ ourIns ≠ theirIns := by
  unfold mergeInsertions
  split_ifs with hours htheirs hsame
  · simp [List.isEmpty_iff.mp hours]
  · simp [List.isEmpty_iff.mp htheirs]
  · simp [hsame]
  · have hours : ourIns ≠ [] := fun h => hours (List.isEmpty_iff.mpr h)
    have htheirs : theirIns ≠ [] := fun h => htheirs (List.isEmpty_iff.mpr h)
    simp [hours, htheirs, hsame]

/-- The loop finds a conflict exactly when two stretches clash. -/
theorem mergeLines_conflict_iff (base ours theirs : List Line) :
    (mergeLines base ours theirs).2 = true ↔ Clash base ours theirs := by
  rw [mergeLines_eq, List.any_eq_true]
  simp only [List.mem_range, mergeInsertions_clash]
  constructor
  · intro hsome
    obtain ⟨idx, hidx, hours, htheirs, hne⟩ := hsome
    have hidx : idx ≤ base.length := by omega
    obtain ⟨hourPlace, hourLines⟩ := place_of_insertedAt hidx hours
    obtain ⟨htheirPlace, htheirLines⟩ := place_of_insertedAt hidx htheirs
    rw [hourLines] at hours hne
    rw [htheirLines] at htheirs hne
    refine ⟨idx, ?_, hours, htheirs, hne⟩
    by_cases hend : idx = base.length
    · exact .inl hend
    · exact .inr ⟨hourPlace.resolve_left hend, htheirPlace.resolve_left hend⟩
  · intro hclash
    obtain ⟨idx, hplace, hclash⟩ := hclash
    have hidx : idx ≤ base.length := place_le (hplace.imp_right And.left)
    refine ⟨idx, by omega, ?_⟩
    rw [insertedAt_eq_linesBefore hidx, insertedAt_eq_linesBefore hidx,
      if_pos (hplace.imp_right And.left), if_pos (hplace.imp_right And.right)]
    exact hclash

/-- The merge is left to the user exactly when two stretches clash. -/
theorem manualRequired_iff_clash (base ours theirs : String) :
    (semanticTextMerge base ours theirs).2 = .manualRequired
      ↔ Clash (splitLines base) (splitLines ours) (splitLines theirs) := by
  rw [semanticTextMerge_manualRequired, mergeLines_conflict_iff]

/-! ### Changed regions -/

/-- What comes behind the longest run of a kind is not of this kind. -/
theorem takeWhile_length_cases {α : Type} (p : α → Bool) (l : List α) :
    (l.takeWhile p).length = l.length ∨ ∃ x, l[(l.takeWhile p).length]? = some x ∧ p x = false := by
  induction l with
  | nil => simp
  | cons x l ih =>
    cases hx : p x with
    | true => simpa [hx] using ih
    | false => simp [hx]

/-- A changed region ends at a base line that the side keeps, or at the end. -/
theorem changedRegion_stop {base side : List Line} {idx : Nat} (hidx : idx < base.length) :
    (changedRegion (alignSide base side) idx).stop = base.length ∨
      (alignSide base side).keeps (changedRegion (alignSide base side) idx).stop = true := by
  have hlen : (alignSide base side).matchAt.length = base.length := length_matchAt _ _
  cases takeWhile_length_cases Option.isNone ((alignSide base side).matchAt.drop idx) with
  | inl hall =>
    left
    show idx + _ = base.length
    rw [hall, List.length_drop]
    omega
  | inr hnext =>
    right
    obtain ⟨entry, hentry, hsome⟩ := hnext
    rw [List.getElem?_drop] at hentry
    show ((alignSide base side).matchAt.getD (idx + _) none).isSome = true
    rw [List.getD_eq_getElem?_getD, hentry]
    simpa using hsome

/-- Whether a side keeps a base line, from its alignment. -/
theorem keeps_eq_isSome {base side : List Line} {idx : Nat}
    (hlt : idx < (alignSide base side).matchAt.length) :
    (alignSide base side).keeps idx = ((alignSide base side).matchAt[idx]).isSome := by
  simp [MergeSide.keeps, List.getD_eq_getElem?_getD, hlt]

/-- The changed region around a base line ends right behind it, if the side keeps the next one. -/
theorem changedRegion_last {base side : List Line} {idx : Nat} (hidx : idx < base.length)
    (hlost : (alignSide base side).keeps idx = false)
    (hnext : idx + 1 = base.length ∨ (alignSide base side).keeps (idx + 1) = true) :
    (changedRegion (alignSide base side) idx).stop = idx + 1 := by
  have hlen : (alignSide base side).matchAt.length = base.length := length_matchAt _ _
  have hlt : idx < (alignSide base side).matchAt.length := hlen ▸ hidx
  have hhead : ((alignSide base side).matchAt[idx]).isNone = true := by
    simpa [keeps_eq_isSome hlt] using hlost
  have hrest : ((alignSide base side).matchAt.drop (idx + 1)).takeWhile Option.isNone = [] := by
    cases hnext with
    | inl hend =>
      rw [List.drop_of_length_le (by omega)]
      rfl
    | inr hkeeps =>
      have hlt' : idx + 1 < (alignSide base side).matchAt.length := hlen ▸ lt_of_keeps hkeeps
      have hsome : ¬ ((alignSide base side).matchAt[idx + 1]).isNone = true := by
        simpa [keeps_eq_isSome hlt', Option.isSome_iff_ne_none] using hkeeps
      rw [List.drop_eq_getElem_cons hlt', List.takeWhile_cons_of_neg hsome]
  show idx + (((alignSide base side).matchAt.drop idx).takeWhile Option.isNone).length = idx + 1
  rw [List.drop_eq_getElem_cons hlt, List.takeWhile_cons_of_pos hhead, hrest]
  rfl

/-- Regions that clash are two stretches that do. -/
theorem clashAt_of_regionsClash {base ours theirs : List Line} {idx : Nat}
    (hidx : TwoSided base ours theirs idx) (h : RegionsClash base ours theirs idx) :
    ClashAt base ours theirs (changedRegion (alignSide base ours) idx).stop := by
  obtain ⟨hstop, hours, htheirs, hne⟩ := h
  have hlines : (changedRegion (alignSide base theirs) idx).lines
      = linesBefore (alignSide base theirs) (changedRegion (alignSide base ours) idx).stop := by
    rw [hstop]
    rfl
  rw [hlines] at htheirs hne
  refine ⟨?_, hours, htheirs, hne⟩
  have hourStop : (changedRegion (alignSide base ours) idx).stop = base.length ∨ _ :=
    changedRegion_stop hidx.1
  have htheirStop : (changedRegion (alignSide base theirs) idx).stop = base.length ∨ _ :=
    changedRegion_stop hidx.1
  rw [← hstop] at htheirStop
  by_cases hend : (changedRegion (alignSide base ours) idx).stop = base.length
  · exact .inl hend
  · exact .inr ⟨hourStop.resolve_left hend, htheirStop.resolve_left hend⟩

/-- Stretches that clash where a region of both sides ends are regions that do. -/
theorem regionsClash_of_clashAt {base ours theirs : List Line} {idx stop : Nat}
    (hours : (changedRegion (alignSide base ours) idx).stop = stop)
    (htheirs : (changedRegion (alignSide base theirs) idx).stop = stop)
    (h : ClashAt base ours theirs stop) : RegionsClash base ours theirs idx := by
  have hourLines : (changedRegion (alignSide base ours) idx).lines
      = linesBefore (alignSide base ours) stop := hours ▸ rfl
  have htheirLines : (changedRegion (alignSide base theirs) idx).lines
      = linesBefore (alignSide base theirs) stop := htheirs ▸ rfl
  refine ⟨hours.trans htheirs.symm, ?_⟩
  rw [hourLines, htheirLines]
  exact h.2

/-- Two stretches clash exactly when two changed regions around one base line do, or lines that
a side merely inserts. -/
theorem clash_iff (base ours theirs : List Line) :
    Clash base ours theirs
      ↔ (∃ idx, TwoSided base ours theirs idx ∧ RegionsClash base ours theirs idx) ∨
        InsertsClash base ours theirs := by
  constructor
  · rintro ⟨place, hclash⟩
    by_cases hinsert : place = 0 ∨ (alignSide base ours).keeps (place - 1) = true ∨
        (alignSide base theirs).keeps (place - 1) = true
    · exact .inr ⟨place, hclash, hinsert⟩
    · -- the line before the place is in a region of both sides, which ends here
      simp only [not_or, Bool.not_eq_true] at hinsert
      obtain ⟨hpos, hourLost, htheirLost⟩ := hinsert
      obtain ⟨idx, rfl⟩ := Nat.exists_eq_succ_of_ne_zero hpos
      have hidx : idx < base.length := by
        cases hclash.1 with
        | inl hend => omega
        | inr hkeeps => exact Nat.lt_of_succ_lt (lt_of_keeps hkeeps.1)
      have hours := changedRegion_last hidx hourLost (hclash.1.imp_right And.left)
      have htheirs := changedRegion_last hidx htheirLost (hclash.1.imp_right And.right)
      exact .inl ⟨idx, ⟨hidx, hourLost, htheirLost⟩, regionsClash_of_clashAt hours htheirs hclash⟩
  · intro h
    cases h with
    | inl hregions =>
      obtain ⟨idx, hidx, hclash⟩ := hregions
      exact ⟨_, clashAt_of_regionsClash hidx hclash⟩
    | inr hinserts =>
      obtain ⟨place, hclash, -⟩ := hinserts
      exact ⟨place, hclash⟩

/-- Two stretches clash exactly when the regions around the base line do, or two stretches at
another place. -/
theorem clash_iff_at {base ours theirs : List Line} {idx : Nat}
    (hidx : TwoSided base ours theirs idx) :
    Clash base ours theirs
      ↔ RegionsClash base ours theirs idx ∨ ClashElsewhere base ours theirs idx := by
  constructor
  · rintro ⟨place, hclash⟩
    by_cases hend : place = (changedRegion (alignSide base ours) idx).stop ∧
        place = (changedRegion (alignSide base theirs) idx).stop
    · exact .inl (regionsClash_of_clashAt hend.1.symm hend.2.symm hclash)
    · exact .inr ⟨place, hclash, hend⟩
  · intro h
    cases h with
    | inl hregions => exact ⟨_, clashAt_of_regionsClash hidx hregions⟩
    | inr helsewhere =>
      obtain ⟨place, hclash, -⟩ := helsewhere
      exact ⟨place, hclash⟩

/-- Where the sides do nothing but change a region around the base line, no others clash. -/
theorem not_clashElsewhere {base ours theirs : List Line} {idx : Nat}
    (hours : OnlyRegion base ours idx) (htheirs : OnlyRegion base theirs idx) :
    ¬ ClashElsewhere base ours theirs idx := by
  rintro ⟨place, hclash, hend⟩
  exact hend ⟨hours place (hclash.1.imp_right And.left) hclash.2.1,
    htheirs place (hclash.1.imp_right And.right) hclash.2.2.1⟩

/-- A merge of sides with different changed regions around a base line is left to the user
exactly if the regions around some base line clash, or lines that a side merely inserts. For each
base line that neither side keeps, this is so exactly if the two regions around it clash, or two
stretches at another place, and exactly if the regions clash where the sides have no lines in
another place. -/
theorem conflictComplete_iff (base ours theirs : String) :
    ((DifferentChange (splitLines base) (splitLines ours) (splitLines theirs) →
        (semanticTextMerge base ours theirs).2 = .manualRequired)
      ↔ (∀ idx, TwoSided (splitLines base) (splitLines ours) (splitLines theirs) idx →
            changedRegion (alignSide (splitLines base) (splitLines ours)) idx
              = changedRegion (alignSide (splitLines base) (splitLines theirs)) idx) ∨
          (∃ idx, TwoSided (splitLines base) (splitLines ours) (splitLines theirs) idx ∧
            RegionsClash (splitLines base) (splitLines ours) (splitLines theirs) idx) ∨
          InsertsClash (splitLines base) (splitLines ours) (splitLines theirs)) ∧
    ∀ idx, TwoSided (splitLines base) (splitLines ours) (splitLines theirs) idx →
      ((semanticTextMerge base ours theirs).2 = .manualRequired
        ↔ RegionsClash (splitLines base) (splitLines ours) (splitLines theirs) idx ∨
          ClashElsewhere (splitLines base) (splitLines ours) (splitLines theirs) idx) ∧
      (OnlyRegion (splitLines base) (splitLines ours) idx →
        OnlyRegion (splitLines base) (splitLines theirs) idx →
        ((semanticTextMerge base ours theirs).2 = .manualRequired
          ↔ RegionsClash (splitLines base) (splitLines ours) (splitLines theirs) idx)) := by
  constructor
  · rw [manualRequired_iff_clash, clash_iff]
    constructor
    · intro hcomplete
      by_cases hdiff : DifferentChange (splitLines base) (splitLines ours) (splitLines theirs)
      · exact .inr (hcomplete hdiff)
      · exact .inl fun idx hidx => by_contra fun hne => hdiff ⟨idx, hidx, hne⟩
    · rintro (hsame | hclash) ⟨idx, hidx, hne⟩
      · exact absurd (hsame idx hidx) hne
      · exact hclash
  · intro idx hidx
    rw [manualRequired_iff_clash, clash_iff_at hidx]
    exact ⟨Iff.rfl, fun hours htheirs => or_iff_left (not_clashElsewhere hours htheirs)⟩

/-- Both sides replace the same line, and the merge is left to the user. -/
theorem conflictComplete_both_replace :
    (semanticTextMerge "A\nB\nC" "A\nY\nC" "A\nX\nC").2 = .manualRequired := by
  have htwoSided : TwoSided (splitLines "A\nB\nC") (splitLines "A\nY\nC")
      (splitLines "A\nX\nC") 1 := by decide +kernel
  have hours : OnlyRegion (splitLines "A\nB\nC") (splitLines "A\nY\nC") 1 := by decide +kernel
  have htheirs : OnlyRegion (splitLines "A\nB\nC") (splitLines "A\nX\nC") 1 := by decide +kernel
  have hclash : RegionsClash (splitLines "A\nB\nC") (splitLines "A\nY\nC")
      (splitLines "A\nX\nC") 1 := by decide +kernel
  exact (((conflictComplete_iff _ _ _).2 1 htwoSided).2 hours htheirs).mpr hclash

/-- One side deletes the line that the other one replaces, and the merge reports no conflict. -/
theorem deletion_against_replacement :
    DifferentChange (splitLines "A\nB\nC") (splitLines "A\nC") (splitLines "A\nX\nC") ∧
      semanticTextMerge "A\nB\nC" "A\nC" "A\nX\nC" = ("A\nX\nC", .merged) := by
  constructor
  · have htwoSided : TwoSided (splitLines "A\nB\nC") (splitLines "A\nC")
        (splitLines "A\nX\nC") 1 := by decide +kernel
    exact ⟨1, htwoSided, by decide +kernel⟩
  · decide +kernel

end GrafeoLoro.Proofs
