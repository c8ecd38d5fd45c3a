import Mathlib.Data.List.Basic

/-!
# `GrafeoLoro.Lib.Lcs`: the length of a longest common subsequence

`lcsLength` is the recurrence that a table for the longest common subsequence is filled by: equal
heads are taken, and otherwise one of the heads is dropped.

* `length_le_lcsLength`: no common subsequence is longer. Equal heads can be taken, because a common
  subsequence that does not use them loses at most its first element.
* `exists_lcs`: some common subsequence has this length.

The module names nothing of the bridge.
-/

set_option autoImplicit false

namespace GrafeoLoro.Lib

variable {α : Type} [DecidableEq α]

/-- The length of a longest common subsequence. -/
def lcsLength : List α → List α → Nat
  | [], _ => 0
  | _ :: _, [] => 0
  | x :: a, y :: b =>
    if x = y then lcsLength a b + 1
    else max (lcsLength a (y :: b)) (lcsLength (x :: a) b)
termination_by a b => a.length + b.length

@[simp] theorem lcsLength_nil_left (b : List α) : lcsLength [] b = 0 := by
  rw [lcsLength]

@[simp] theorem lcsLength_nil_right (a : List α) : lcsLength a [] = 0 := by
  cases a with
  | nil => exact lcsLength_nil_left []
  | cons x a => rw [lcsLength]

/-- The recurrence. -/
theorem lcsLength_cons (x y : α) (a b : List α) :
    lcsLength (x :: a) (y :: b)
      = if x = y then lcsLength a b + 1
        else max (lcsLength a (y :: b)) (lcsLength (x :: a) b) := by
  rw [lcsLength]

/-- No common subsequence is longer. -/
theorem length_le_lcsLength {a b c : List α} (ha : c.Sublist a) (hb : c.Sublist b) :
    c.length ≤ lcsLength a b := by
  induction a, b using lcsLength.induct generalizing c with
  | case1 b =>
    rw [List.sublist_nil.mp ha]
    exact Nat.zero_le _
  | case2 x a =>
    rw [List.sublist_nil.mp hb]
    exact Nat.zero_le _
  | case3 a y b ih =>
    -- without its first element the subsequence avoids both heads
    have htail := ih ha.tail hb.tail
    rw [List.length_tail] at htail
    rw [lcsLength_cons, if_pos rfl]
    omega
  | case4 x a y b hne ihleft ihright =>
    rw [lcsLength_cons, if_neg hne]
    cases c with
    | nil => exact Nat.zero_le _
    | cons z c =>
      -- the first element differs from one of the heads, which can be dropped
      by_cases hz : z = x
      · have hzy : z ≠ y := by
          rw [hz]
          exact hne
        exact Nat.le_trans (ihright ha (hb.of_cons_of_ne hzy)) (Nat.le_max_right _ _)
      · exact Nat.le_trans (ihleft (ha.of_cons_of_ne hz) hb) (Nat.le_max_left _ _)

/-- Some common subsequence has this length. -/
theorem exists_lcs (a b : List α) :
    ∃ c : List α, c.Sublist a ∧ c.Sublist b ∧ c.length = lcsLength a b := by
  induction a, b using lcsLength.induct with
  | case1 b => exact ⟨[], List.nil_sublist _, List.nil_sublist _, by simp⟩
  | case2 x a => exact ⟨[], List.nil_sublist _, List.nil_sublist _, by simp⟩
  | case3 a y b ih =>
    obtain ⟨c, ha, hb, hlen⟩ := ih
    refine ⟨y :: c, ha.cons_cons y, hb.cons_cons y, ?_⟩
    rw [lcsLength_cons, if_pos rfl, List.length_cons, hlen]
  | case4 x a y b hne ihleft ihright =>
    rw [lcsLength_cons, if_neg hne]
    -- the longer of the two candidates
    cases Nat.le_total (lcsLength a (y :: b)) (lcsLength (x :: a) b) with
    | inl hright =>
      obtain ⟨c, ha, hb, hlen⟩ := ihright
      exact ⟨c, ha, hb.cons y, by rw [hlen, Nat.max_eq_right hright]⟩
    | inr hleft =>
      obtain ⟨c, ha, hb, hlen⟩ := ihleft
      exact ⟨c, ha.cons x, hb, by rw [hlen, Nat.max_eq_left hleft]⟩

end GrafeoLoro.Lib
