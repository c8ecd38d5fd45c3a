import GrafeoLoro.Ffi.Merge

/-!
# `GrafeoLoro.Proofs.LcsMatches`: the alignment that a merge works with

The pairs of `lcsMatches` grow in both components and point at equal lines (`lcsMatches_grow`,
`lcsMatches_eq`). So the positions of `matchAt` align the side with the base
(`aligned_alignSide`), and the ranges of `insertionsBefore` are the stretches of this alignment
(`insertedAt_eq`). A text is aligned with itself line by line (`keeps_self`, `insertedAt_self`).
-/

set_option autoImplicit false

namespace GrafeoLoro.Proofs

open GrafeoLoro GrafeoLoro.Lib

/-! ### The walk -/

/-- A pair of the walk from `(i, j)` is not before `(i, j)`, and points at equal lines. -/
theorem lcsWalk_mem {a b : List Line} {dp : List (List Nat)} (fuel : Nat) :
    ∀ i j : Nat, ∀ p ∈ lcsWalk a b dp fuel i j,
      i ≤ p.1 ∧ j ≤ p.2 ∧ ∃ x, a[p.1]? = some x ∧ b[p.2]? = some x := by
  induction fuel with
  | zero =>
    intro i j p hp
    simp [lcsWalk] at hp
  | succ fuel ih =>
    intro i j p hp
    rw [lcsWalk] at hp
    split at hp
    · rename_i x y hx hy
      split at hp
      · rename_i heq
        cases List.mem_cons.mp hp with
        | inl hhead => exact hhead ▸ ⟨le_rfl, le_rfl, x, hx, heq ▸ hy⟩
        | inr hrest =>
          have hp := ih (i + 1) (j + 1) p hrest
          exact ⟨by omega, by omega, hp.2.2⟩
      · split at hp
        · have hp := ih (i + 1) j p hp
          exact ⟨by omega, hp.2⟩
        · have hp := ih i (j + 1) p hp
          exact ⟨hp.1, by omega, hp.2.2⟩
    · simp at hp

/-- The pairs of the walk grow in both components. -/
theorem lcsWalk_grow {a b : List Line} {dp : List (List Nat)} (fuel : Nat) :
    ∀ i j : Nat, (lcsWalk a b dp fuel i j).Pairwise fun p q => p.1 < q.1 ∧ p.2 < q.2 := by
  induction fuel with
  | zero => simp [lcsWalk]
  | succ fuel ih =>
    intro i j
    rw [lcsWalk]
    split
    · split
      · refine List.pairwise_cons.mpr ⟨fun q hq => ?_, ih (i + 1) (j + 1)⟩
        have hlater := lcsWalk_mem fuel _ _ q hq
        exact ⟨hlater.1, hlater.2.1⟩
      · split
        · exact ih (i + 1) j
        · exact ih i (j + 1)
    · exact List.Pairwise.nil

/-- On two equal texts the walk goes down the diagonal. -/
theorem lcsWalk_self {a : List Line} {dp : List (List Nat)} (fuel : Nat) :
    ∀ i : Nat, a.length ≤ i + fuel → ∀ k, i ≤ k → k < a.length →
      (k, k) ∈ lcsWalk a a dp fuel i i := by
  induction fuel with
  | zero =>
    intro i hfuel k hik hk
    omega
  | succ fuel ih =>
    intro i hfuel k hik hk
    have hi : a[i]? = some a[i] := List.getElem?_eq_getElem (by omega)
    simp only [lcsWalk, hi, if_true, List.mem_cons, Prod.mk.injEq, and_self]
    by_cases heq : k = i
    · exact .inl heq
    · exact .inr (ih (i + 1) (by omega) k (by omega) hk)

/-! ### The pairs -/

/-- The pairs point at equal lines. -/
theorem lcsMatches_eq {a b : List Line} {p : Nat × Nat} (hp : p ∈ lcsMatches a b) :
    ∃ x, a[p.1]? = some x ∧ b[p.2]? = some x := by
  unfold lcsMatches at hp
  split at hp
  · simp at hp
  · exact (lcsWalk_mem _ _ _ p hp).2.2

/-- The pairs grow in both components. -/
theorem lcsMatches_grow (a b : List Line) :
    (lcsMatches a b).Pairwise fun p q => p.1 < q.1 ∧ p.2 < q.2 := by
  unfold lcsMatches
  split
  · exact List.Pairwise.nil
  · exact lcsWalk_grow _ _ _

/-- Of two pairs, the one that is later in the first text is later in the second. -/
theorem lcsMatches_lt {a b : List Line} {i j o p : Nat} (hij : i < j)
    (hi : (i, o) ∈ lcsMatches a b) (hj : (j, p) ∈ lcsMatches a b) : o < p := by
  -- the order of the list does not matter for this
  let R (p q : Nat × Nat) : Prop := p.1 < q.1 → p.2 < q.2
  have hgrow := lcsMatches_grow a b
  have hpairs : (lcsMatches a b).Pairwise R := hgrow.imp fun h _ => h.2
  have hflip : (lcsMatches a b).Pairwise (flip R) := hgrow.imp fun h hlt => by omega
  have hself : ∀ p ∈ lcsMatches a b, R p p := fun p _ h => absurd h (lt_irrefl _)
  exact hpairs.forall_of_forall_of_flip hself hflip hi hj hij

/-- A text is aligned with itself line by line. -/
theorem lcsMatches_self {a : List Line} {k : Nat} (hk : k < a.length) :
    (k, k) ∈ lcsMatches a a := by
  have hne : ¬ (a.length = 0 ∨ a.length = 0) := by omega
  rw [lcsMatches, if_neg hne]
  exact lcsWalk_self _ 0 (by omega) k (Nat.zero_le k) hk

/-! ### The positions -/

/-- The writes of a list of pairs whose first components grow: each pair is found at its place,
and the other places stay. -/
theorem getElem?_foldl_set (pairs : List (Nat × Nat)) :
    ∀ arr : List (Option Nat), pairs.Pairwise (fun p q => p.1 < q.1) →
      (∀ p ∈ pairs, p.1 < arr.length) → ∀ i o : Nat,
      (pairs.foldl (fun arr p => arr.set p.1 (some p.2)) arr)[i]? = some (some o)
        ↔ (i, o) ∈ pairs ∨ (∀ p ∈ pairs, p.1 ≠ i) ∧ arr[i]? = some (some o) := by
  induction pairs with
  | nil => simp
  | cons p pairs ih =>
    intro arr hgrow hlen i o
    obtain ⟨hhead, hgrow⟩ := List.pairwise_cons.mp hgrow
    have hlen' : ∀ q ∈ pairs, q.1 < (arr.set p.1 (some p.2)).length := by
      simpa using fun a b hq => hlen (a, b) (List.mem_cons_of_mem _ hq)
    rw [List.foldl_cons, ih _ hgrow hlen' i o, List.getElem?_set]
    by_cases hi : p.1 = i
    · -- the place is written now, and by no later pair
      have hlater : ∀ q ∈ pairs, q.1 ≠ i := fun q hq => by
        have hlt := hhead q hq
        omega
      have hnot : (i, o) ∉ pairs := fun hmem => hlater _ hmem rfl
      have hp : (i, o) = p ↔ p.2 = o := by
        rw [Prod.ext_iff]
        simp [← hi, eq_comm]
      have hlt : i < arr.length := hi ▸ hlen p List.mem_cons_self
      simpa [hi, hnot, hp, hlt] using fun _ => hlater
    · have hp : (i, o) ≠ p := fun heq => hi (congrArg Prod.fst heq).symm
      simp [hi, hp]

/-- A base line is aligned with the position of its pair. -/
theorem getElem?_matchAt {base side : List Line} {i o : Nat} :
    (matchAt base.length (lcsMatches base side))[i]? = some (some o)
      ↔ (i, o) ∈ lcsMatches base side := by
  have hgrow := (lcsMatches_grow base side).imp (fun h => h.1)
  have hlen : ∀ p ∈ lcsMatches base side,
      p.1 < (List.replicate base.length (none : Option Nat)).length := by
    intro p hp
    obtain ⟨x, hx, -⟩ := lcsMatches_eq hp
    simpa using (List.getElem?_eq_some_iff.mp hx).1
  rw [matchAt, getElem?_foldl_set _ _ hgrow hlen]
  simp [List.getElem?_replicate]

/-- There is a position or none for each base line. -/
theorem length_matchAt (n : Nat) (pairs : List (Nat × Nat)) : (matchAt n pairs).length = n := by
  have hfold (arr : List (Option Nat)) :
      (pairs.foldl (fun arr p => arr.set p.1 (some p.2)) arr).length = arr.length := by
    induction pairs generalizing arr with
    | nil => rfl
    | cons p pairs ih => simp [ih]
  simp [matchAt, hfold]

/-- The positions align the side with the base. -/
theorem aligned_alignSide (base side : List Line) :
    Aligned side 0 base (alignSide base side).matchAt := by
  show Aligned side 0 base (matchAt base.length (lcsMatches base side))
  refine aligned_of_increasing base 0 _ (length_matchAt _ _) (Nat.zero_le _) (fun i o hi => ?_)
    (fun i j o p hij hi hj => ?_)
  · obtain ⟨x, hx, hy⟩ := lcsMatches_eq (getElem?_matchAt.mp hi)
    exact ⟨Nat.zero_le o, hy.trans hx.symm⟩
  · exact lcsMatches_lt hij (getElem?_matchAt.mp hi) (getElem?_matchAt.mp hj)

/-! ### The ranges -/

/-- The ranges cut the stretches out of the side, or out of a list of the same length. -/
theorem map_insertionsBefore {α : Type} (side : List α) (arr : List (Option Nat)) :
    ∀ prev : Nat, (insertionsBefore side.length arr prev).map (fun r => slice side r.1 r.2)
      = stretches side prev arr := by
  induction arr with
  | nil => simp [insertionsBefore, stretches]
  | cons head arr ih =>
    intro prev
    cases head with
    | none => simp [insertionsBefore, stretches, ih]
    | some o => simp [insertionsBefore, stretches, ih]

/-- The range at a place cuts out the stretch at this place. -/
theorem slice_insertionsBefore {α : Type} (side : List α) (arr : List (Option Nat)) (prev i : Nat) :
    slice side ((insertionsBefore side.length arr prev).getD i (0, 0)).1
        ((insertionsBefore side.length arr prev).getD i (0, 0)).2
      = (stretches side prev arr).getD i [] := by
  rw [← map_insertionsBefore, List.getD_eq_getElem?_getD, List.getD_eq_getElem?_getD,
    List.getElem?_map]
  cases (insertionsBefore side.length arr prev)[i]? with
  | none => simp
  | some r => rfl

/-- What a side has inserted before a base line is a stretch of the alignment. -/
theorem insertedAt_eq (base side : List Line) (i : Nat) :
    (alignSide base side).insertedAt i
      = (stretches side 0 (alignSide base side).matchAt).getD i [] :=
  slice_insertionsBefore side _ 0 i

/-- Every range can be sliced out of the side. -/
theorem insertionsBefore_le {side base : List Line} {prev : Nat} {arr : List (Option Nat)}
    (h : Aligned side prev base arr) :
    ∀ r ∈ insertionsBefore side.length arr prev, r.1 ≤ r.2 ∧ r.2 ≤ side.length := by
  induction h with
  | nil hle => simpa [insertionsBefore] using hle
  | skip _ ih => simpa [insertionsBefore] using ih
  | @hit prev o x base arr hle hx _ ih =>
    have hlt := (List.getElem?_eq_some_iff.mp hx).1
    have hrange : prev ≤ o ∧ o ≤ side.length := by omega
    simpa [insertionsBefore, hrange] using ih

/-! ### A side that is the base -/

/-- An unchanged side keeps every line. -/
theorem keeps_self {base : List Line} {i : Nat} (hi : i < base.length) :
    (alignSide base base).keeps i = true := by
  have hat := getElem?_matchAt.mpr (lcsMatches_self hi)
  show ((matchAt base.length (lcsMatches base base)).getD i none).isSome = true
  rw [List.getD_eq_getElem?_getD, hat]
  rfl

/-- An unchanged side inserts nothing. -/
theorem insertedAt_self (base : List Line) {i : Nat} (hi : i ≤ base.length) :
    (alignSide base base).insertedAt i = [] := by
  have hnone : unaligned base 0 (alignSide base base).matchAt = [] := by
    refine List.filter_eq_nil_iff.mpr fun p hp => ?_
    have hlt := (List.mem_zipIdx hp).2.1
    have hat := getElem?_matchAt.mpr (lcsMatches_self (a := base) (k := p.2) (by simpa using hlt))
    have hmem : some p.2 ∈ (alignSide base base).matchAt := List.mem_of_getElem? hat
    simpa using hmem
  rw [← (aligned_alignSide base base).unaligned_eq, List.flatMap_eq_nil_iff] at hnone
  rw [insertedAt_eq, stretch_eq_map, hnone i (List.mem_range.mpr (by omega)), List.map_nil]

end GrafeoLoro.Proofs
