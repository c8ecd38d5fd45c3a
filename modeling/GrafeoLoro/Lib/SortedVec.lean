import Mathlib.Data.List.Destutter
import Mathlib.Data.List.Sort
import Mathlib.Order.Lattice

/-!
# `GrafeoLoro.Lib.SortedVec`: a set kept as a strictly increasing list

`binarySearch` finds the index of an element, or the index at which it belongs. On a strictly
increasing list an insert at that index, and a removal at it, keep the list strictly increasing.

* `binarySearch_of_mem`, `binarySearch_of_not_mem`: what the search returns.
* `pairwise_insertIdx_rank`, `mem_insertIdx_rank`: the insert.
* `pairwise_eraseIdx`, `mem_eraseIdx_rank`: the removal.
* `mem_destutter_ne`: what is left without the repetitions.

The module names nothing of the bridge.
-/

set_option autoImplicit false

namespace GrafeoLoro.Lib

variable {α : Type} [LinearOrder α]

/-- The number of elements before the first that is not below `x`. -/
def rank : List α → α → Nat
  | [], _ => 0
  | y :: ys, x => if y < x then rank ys x + 1 else 0

/-- `binary_search` of a sorted vector: the index of `x`, or the index at which it belongs. -/
def binarySearch (xs : List α) (x : α) : Except Nat Nat :=
  if xs[rank xs x]? = some x then .ok (rank xs x) else .error (rank xs x)

theorem rank_le_length (xs : List α) (x : α) : rank xs x ≤ xs.length := by
  induction xs with
  | nil => simp [rank]
  | cons y ys ih =>
    rw [rank, List.length_cons]
    split
    · omega
    · omega

/-- In a strictly increasing list an element stands at its rank. -/
theorem getElem?_rank {xs : List α} (hs : xs.Pairwise (· < ·)) (x : α) :
    xs[rank xs x]? = some x ↔ x ∈ xs := by
  induction xs with
  | nil => simp
  | cons y ys ih =>
    obtain ⟨hy, hys⟩ := List.pairwise_cons.mp hs
    rw [rank, List.mem_cons]
    split
    · rename_i hlt
      rw [List.getElem?_cons_succ, ih hys]
      have hne : x ≠ y := fun heq => lt_irrefl y (heq ▸ hlt)
      simp [hne]
    · rename_i hge
      have hnot : x ∉ ys := fun hx => hge (hy x hx)
      rw [List.getElem?_cons_zero, Option.some.injEq]
      simp [hnot, eq_comm]

theorem rank_lt_length {xs : List α} (hs : xs.Pairwise (· < ·)) {x : α} (hx : x ∈ xs) :
    rank xs x < xs.length := by
  have hget := (getElem?_rank hs x).mpr hx
  exact (List.getElem?_eq_some_iff.mp hget).1

theorem binarySearch_of_mem {xs : List α} (hs : xs.Pairwise (· < ·)) {x : α} (hx : x ∈ xs) :
    binarySearch xs x = .ok (rank xs x) := by
  rw [binarySearch, if_pos ((getElem?_rank hs x).mpr hx)]

theorem binarySearch_of_not_mem {xs : List α} (hs : xs.Pairwise (· < ·)) {x : α}
    (hx : x ∉ xs) : binarySearch xs x = .error (rank xs x) := by
  rw [binarySearch, if_neg fun h => hx ((getElem?_rank hs x).mp h)]

/-- An insert adds one member. -/
theorem mem_insertIdx_rank (xs : List α) (x z : α) :
    z ∈ xs.insertIdx (rank xs x) x ↔ z = x ∨ z ∈ xs :=
  List.mem_insertIdx (rank_le_length xs x)

/-- An insert of a new element at its rank keeps the list strictly increasing. -/
theorem pairwise_insertIdx_rank {xs : List α} (hs : xs.Pairwise (· < ·)) {x : α} (hx : x ∉ xs) :
    (xs.insertIdx (rank xs x) x).Pairwise (· < ·) := by
  induction xs with
  | nil => simp [rank]
  | cons y ys ih =>
    obtain ⟨hy, hys⟩ := List.pairwise_cons.mp hs
    obtain ⟨hne, hnot⟩ := not_or.mp (mt List.mem_cons.mpr hx)
    rw [rank]
    split
    · rename_i hlt
      rw [List.insertIdx_succ_cons, List.pairwise_cons]
      refine ⟨fun z hz => ?_, ih hys hnot⟩
      rcases (mem_insertIdx_rank ys x z).mp hz with rfl | hz
      · exact hlt
      · exact hy z hz
    · rename_i hge
      -- `x` goes to the front, below `y` and all behind it
      have hlt : x < y := lt_of_le_of_ne (not_lt.mp hge) hne
      rw [List.insertIdx_zero, List.pairwise_cons]
      refine ⟨fun z hz => ?_, hs⟩
      rcases List.mem_cons.mp hz with rfl | hz
      · exact hlt
      · exact hlt.trans (hy z hz)

/-- A removal keeps the list strictly increasing. -/
theorem pairwise_eraseIdx {xs : List α} (hs : xs.Pairwise (· < ·)) (i : Nat) :
    (xs.eraseIdx i).Pairwise (· < ·) :=
  hs.sublist (List.eraseIdx_sublist xs i)

/-- A removal at the rank of an element takes that element away, and no other. -/
theorem mem_eraseIdx_rank {xs : List α} (hs : xs.Pairwise (· < ·)) {x : α} (hx : x ∈ xs) (z : α) :
    z ∈ xs.eraseIdx (rank xs x) ↔ z ≠ x ∧ z ∈ xs := by
  induction xs with
  | nil => cases hx
  | cons y ys ih =>
    obtain ⟨hy, hys⟩ := List.pairwise_cons.mp hs
    rw [rank]
    split
    · rename_i hlt
      have hx' : x ∈ ys := by
        rcases List.mem_cons.mp hx with rfl | hx'
        · exact absurd hlt (lt_irrefl x)
        · exact hx'
      rw [List.eraseIdx_cons_succ, List.mem_cons, List.mem_cons, ih hys hx']
      have hne : z = y → z ≠ x := fun hz heq => by
        rw [← heq, hz] at hlt
        exact lt_irrefl y hlt
      tauto
    · rename_i hge
      have heq : x = y := by
        rcases List.mem_cons.mp hx with heq | hx'
        · exact heq
        · exact absurd (hy x hx') hge
      subst heq
      have hne : z ∈ ys → z ≠ x := fun hz heq => lt_irrefl x (heq ▸ hy z hz)
      rw [List.eraseIdx_cons_zero, List.mem_cons]
      tauto

/-- A list without the repetitions in a row has the elements that it had. -/
theorem mem_destutter_ne (xs : List α) (x : α) : x ∈ xs.destutter (· ≠ ·) ↔ x ∈ xs := by
  cases xs with
  | nil => rfl
  | cons y ys =>
    rw [List.destutter_cons']
    induction ys generalizing y with
    | nil => rfl
    | cons z zs ih =>
      by_cases hyz : y = z
      · rw [List.destutter'_cons_neg _ (not_not.mpr hyz), ih, hyz]
        simp
      · rw [List.destutter'_cons_pos _ hyz, List.mem_cons, ih, List.mem_cons (a := x) (b := y)]

end GrafeoLoro.Lib
