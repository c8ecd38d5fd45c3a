import Mathlib.Data.List.Basic

/-!
# `GrafeoLoro.Lib.Alignment`: one list aligned with another

An alignment of a list `side` with a list `base` gives each entry of the base a position of an
equal entry of the side or none, and the positions grow. `Aligned side prev base arr` says so
of the positions `arr`, which are `prev` or above.

`stretches` cuts the side at these positions: before each aligned entry there is a stretch of
entries that are not aligned, and after the last one there is the rest.

* `Aligned.reassemble`: the stretches with the aligned entries between them are the side.
* `Aligned.unaligned_eq`: the stretches alone are the entries of the side that are not aligned.
* `aligned_of_increasing`: positions that grow and point at equal entries are an alignment.

The module names nothing of the bridge.
-/

set_option autoImplicit false

namespace GrafeoLoro.Lib

variable {α : Type}

/-! ### Slices -/

/-- The slice `l[lo..hi]`. -/
def slice (l : List α) (lo hi : Nat) : List α := (l.take hi).drop lo

@[simp] theorem slice_self (l : List α) (lo : Nat) : slice l lo lo = [] := by
  simp [slice]

@[simp] theorem slice_length (l : List α) (lo : Nat) : slice l lo l.length = l.drop lo := by
  simp [slice]

/-- A slice, and what is behind it. -/
theorem slice_append_drop (l : List α) {lo hi : Nat} (h : lo ≤ hi) :
    slice l lo hi ++ l.drop hi = l.drop lo := by
  show (l.take hi).drop lo ++ l.drop hi = l.drop lo
  have hsplit : l.drop lo = (l.take hi ++ l.drop hi).drop lo := by rw [List.take_append_drop]
  rw [hsplit, List.drop_append]
  by_cases hlen : hi ≤ l.length
  · have hzero : lo - (l.take hi).length = 0 := by
      simp
      omega
    rw [hzero, List.drop_zero]
  · have hnil : l.drop hi = [] := List.drop_eq_nil_of_le (by omega)
    simp [hnil]

/-- A list from one of its entries on. -/
theorem drop_of_getElem? {l : List α} {o : Nat} {x : α} (h : l[o]? = some x) :
    l.drop o = x :: l.drop (o + 1) := by
  obtain ⟨hlt, rfl⟩ := List.getElem?_eq_some_iff.mp h
  exact List.drop_eq_getElem_cons hlt

/-- The entries of a slice, with their positions. -/
theorem mem_slice {l : List α} {lo hi : Nat} {x : α} (h : x ∈ slice l lo hi) :
    ∃ k, lo ≤ k ∧ k < hi ∧ l[k]? = some x := by
  obtain ⟨k, hk⟩ := List.mem_iff_getElem?.mp h
  rw [slice, List.getElem?_drop, List.getElem?_take] at hk
  split at hk
  · rename_i hlt
    exact ⟨lo + k, by omega, hlt, hk⟩
  · cases hk

/-- The entries of a list from some position on. -/
theorem mem_drop {l : List α} {lo : Nat} {x : α} (h : x ∈ l.drop lo) :
    ∃ k, lo ≤ k ∧ l[k]? = some x := by
  obtain ⟨k, hk⟩ := List.mem_iff_getElem?.mp h
  rw [List.getElem?_drop] at hk
  exact ⟨lo + k, by omega, hk⟩

/-- A numbered list numbers each entry with its position. -/
theorem snd_of_zipIdx {l : List α} {k : Nat} {p : α × Nat} (h : l.zipIdx[k]? = some p) :
    p.2 = k := by
  rw [List.getElem?_zipIdx] at h
  obtain ⟨x, -, rfl⟩ := Option.map_eq_some_iff.mp h
  simp

/-! ### Alignments -/

/-- The positions `arr` align the side, from `prev` on, with the base. -/
inductive Aligned (side : List α) : Nat → List α → List (Option Nat) → Prop where
  | nil {prev : Nat} (hle : prev ≤ side.length) : Aligned side prev [] []
  | skip {prev : Nat} {x : α} {base : List α} {arr : List (Option Nat)}
      (rest : Aligned side prev base arr) : Aligned side prev (x :: base) (none :: arr)
  | hit {prev o : Nat} {x : α} {base : List α} {arr : List (Option Nat)} (hle : prev ≤ o)
      (hx : side[o]? = some x) (rest : Aligned side (o + 1) base arr) :
      Aligned side prev (x :: base) (some o :: arr)

/-- What the side has before each entry of the base that is aligned, and at its end. -/
def stretches (side : List α) : Nat → List (Option Nat) → List (List α)
  | prev, [] => [side.drop prev]
  | prev, none :: arr => [] :: stretches side prev arr
  | prev, some o :: arr => slice side prev o :: stretches side (o + 1) arr

/-- The stretches of a list whose entries are mapped. -/
theorem stretches_map {β : Type} (f : α → β) (side : List α) (arr : List (Option Nat)) :
    ∀ prev : Nat, stretches (side.map f) prev arr = (stretches side prev arr).map (List.map f) := by
  induction arr with
  | nil => simp [stretches]
  | cons head arr ih =>
    intro prev
    cases head with
    | none => simp [stretches, ih]
    | some o => simp [stretches, ih, slice]

/-- A stretch is cut out of the numbered side in the same way. -/
theorem stretch_eq_map (side : List α) (prev : Nat) (arr : List (Option Nat)) (i : Nat) :
    (stretches side prev arr).getD i []
      = ((stretches side.zipIdx prev arr).getD i []).map Prod.fst := by
  have hside : side = side.zipIdx.map Prod.fst := (List.zipIdx_map_fst 0 side).symm
  have hall : stretches side prev arr = (stretches side.zipIdx prev arr).map (List.map Prod.fst) := by
    rw [← stretches_map, ← hside]
  rw [hall, List.getD_eq_getElem?_getD, List.getElem?_map, List.getD_eq_getElem?_getD]
  cases (stretches side.zipIdx prev arr)[i]? with
  | none => rfl
  | some l => rfl

/-- The entries of the side from `prev` on that are not aligned, with their positions. -/
def unaligned (side : List α) (prev : Nat) (arr : List (Option Nat)) : List (α × Nat) :=
  (side.zipIdx.drop prev).filter fun p => decide (some p.2 ∉ arr)

/-- Concatenation over the first numbers, with the first one apart. -/
theorem flatMap_range_succ (n : Nat) (f : Nat → List α) :
    (List.range (n + 1)).flatMap f = f 0 ++ (List.range n).flatMap fun i => f (i + 1) := by
  rw [List.range_succ_eq_map, List.flatMap_cons, List.flatMap_map]

namespace Aligned

variable {side base : List α} {prev : Nat} {arr : List (Option Nat)}

/-- An alignment has a position or none for each entry of the base. -/
theorem length_eq (h : Aligned side prev base arr) : arr.length = base.length := by
  induction h with
  | nil => rfl
  | skip _ ih => simp [ih]
  | hit _ _ _ ih => simp [ih]

/-- The positions are not below `prev`. -/
theorem le_of_mem (h : Aligned side prev base arr) {o : Nat} (ho : some o ∈ arr) : prev ≤ o := by
  induction h with
  | nil => simp at ho
  | skip _ ih => exact ih (by simpa using ho)
  | hit hle _ _ ih =>
    cases List.mem_cons.mp ho with
    | inl heq =>
      cases heq
      exact hle
    | inr hmem =>
      have hlater := ih hmem
      omega

/-- The stretches and the aligned entries between them are the side. -/
theorem reassemble (h : Aligned side prev base arr) :
    (List.range (base.length + 1)).flatMap (fun i =>
        (stretches side prev arr).getD i []
          ++ if (arr.getD i none).isSome then base[i]?.toList else [])
      = side.drop prev := by
  induction h with
  | nil => simp [stretches]
  | skip _ ih =>
    rw [flatMap_range_succ]
    simpa [stretches] using ih
  | @hit prev o x base arr hle hx _ ih =>
    rw [flatMap_range_succ]
    have hrest : side.drop o = x :: side.drop (o + 1) := drop_of_getElem? hx
    rw [← slice_append_drop side hle, hrest, ← ih]
    simp [stretches]

/-- The entries that are not aligned, around the first position. -/
theorem unaligned_hit {o : Nat} {x : α} (hle : prev ≤ o) (hx : side[o]? = some x)
    (hlater : ∀ p, some p ∈ arr → o < p) :
    unaligned side prev (some o :: arr) = slice side.zipIdx prev o ++ unaligned side (o + 1) arr := by
  -- before the position, no entry is aligned
  have hbefore : (slice side.zipIdx prev o).filter (fun p => decide (some p.2 ∉ some o :: arr))
      = slice side.zipIdx prev o := by
    refine List.filter_eq_self.mpr fun p hp => decide_eq_true fun hmem => ?_
    obtain ⟨k, -, hlt, hk⟩ := mem_slice hp
    have hpos := snd_of_zipIdx hk
    cases List.mem_cons.mp hmem with
    | inl heq =>
      have heq := Option.some.inj heq
      omega
    | inr hmem =>
      have hlt := hlater _ hmem
      omega
  -- behind it, the position itself is none of those looked for
  have hafter : (side.zipIdx.drop (o + 1)).filter (fun p => decide (some p.2 ∉ some o :: arr))
      = (side.zipIdx.drop (o + 1)).filter (fun p => decide (some p.2 ∉ arr)) := by
    refine List.filter_congr fun p hp => ?_
    obtain ⟨k, hle, hk⟩ := mem_drop hp
    have hpos := snd_of_zipIdx hk
    have hne : p.2 ≠ o := by omega
    simp [hne]
  have hentry : side.zipIdx[o]? = some (x, o) := by simp [List.getElem?_zipIdx, hx]
  rw [unaligned, ← slice_append_drop _ hle, drop_of_getElem? hentry, List.filter_append, hbefore,
    List.filter_cons_of_neg (by simp), hafter]
  rfl

/-- The stretches are the entries that are not aligned. -/
theorem unaligned_eq (h : Aligned side prev base arr) :
    (List.range (base.length + 1)).flatMap (fun i => (stretches side.zipIdx prev arr).getD i [])
      = unaligned side prev arr := by
  induction h with
  | nil => simp [stretches, unaligned]
  | skip _ ih =>
    rw [flatMap_range_succ]
    simpa [stretches, unaligned] using ih
  | hit hle hx rest ih =>
    rw [flatMap_range_succ, unaligned_hit hle hx fun p hp => rest.le_of_mem hp, ← ih]
    simp [stretches]

end Aligned

/-- The positions grow. -/
def Increasing (arr : List (Option Nat)) : Prop :=
  ∀ i j o p : Nat, i < j → arr[i]? = some (some o) → arr[j]? = some (some p) → o < p

/-- Positions that grow and point at entries equal to those of the base are an alignment. -/
theorem aligned_of_increasing {side : List α} (base : List α) :
    ∀ (prev : Nat) (arr : List (Option Nat)), arr.length = base.length → prev ≤ side.length →
      (∀ i o : Nat, arr[i]? = some (some o) → prev ≤ o ∧ side[o]? = base[i]?) →
      Increasing arr → Aligned side prev base arr := by
  induction base with
  | nil =>
    intro prev arr hlen hprev _ _
    rw [List.length_eq_zero_iff.mp hlen]
    exact .nil hprev
  | cons x base ih =>
    intro prev arr hlen hprev hat hmono
    cases arr with
    | nil => simp at hlen
    | cons head arr =>
      have hlen' : arr.length = base.length := by simpa using hlen
      have hmono' : Increasing arr := fun i j o p hij hi hj =>
        hmono (i + 1) (j + 1) o p (by omega) hi hj
      cases head with
      | none => exact .skip (ih prev arr hlen' hprev (fun i o hi => hat (i + 1) o hi) hmono')
      | some o =>
        obtain ⟨hle, hx⟩ := hat 0 o rfl
        have hx : side[o]? = some x := hx
        have hlt := (List.getElem?_eq_some_iff.mp hx).1
        refine .hit hle hx (ih (o + 1) arr hlen' hlt (fun i p hi => ?_) hmono')
        exact ⟨hmono 0 (i + 1) o p (by omega) rfl hi, (hat (i + 1) p hi).2⟩

end GrafeoLoro.Lib
