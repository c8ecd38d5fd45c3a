import Mathlib.Algebra.BigOperators.Group.Finset.Piecewise
import Mathlib.Algebra.Order.BigOperators.Group.Finset
import Mathlib.Data.Fintype.Card

/-!
# `GrafeoLoro.Lib.Reserve`: a counter that is checked first and added to later

Workers share a counter and a limit. A worker checks that its amount fits, and adds the amount in
a step of its own, so that several workers can pass the check before one of them adds.

* `sum_update_add`: a sum over the workers after one of them has changed.
* `Reserve.Step.bounded`: with amounts of at most `most`, the counter and what is still to be added
  exceed the limit by at most `most` for each worker but one.

The module names nothing of the bridge.
-/

set_option autoImplicit false

namespace GrafeoLoro.Lib

variable {T : Type} [Fintype T] [DecidableEq T]

/-- The sum after one of its terms has changed. -/
theorem sum_update_add (f : T → Nat) (t : T) (n : Nat) :
    ∑ i, Function.update f t n i + f t = ∑ i, f i + n := by
  have hrest := Finset.sum_update_of_mem (Finset.mem_univ t) f n
  have hsplit := Finset.sum_eq_add_sum_sdiff_singleton_of_mem (Finset.mem_univ t) f
  omega

/-- The counter, and for each worker what it has checked and not added. -/
structure Reserve (T : Type) where
  used : Nat
  pending : T → Nat

namespace Reserve

/-- What the counter comes to when all that is checked has been added. -/
def total (r : Reserve T) : Nat := r.used + ∑ t, r.pending t

/-- One step of a worker. -/
inductive Step (limit most : Nat) : Reserve T → Reserve T → Prop where
  | check {r : Reserve T} {t : T} {n : Nat} (hfree : r.pending t = 0) (hmost : n ≤ most)
      (hfits : r.used + n ≤ limit) :
      Step limit most r { r with pending := Function.update r.pending t n }
  | add {r : Reserve T} {t : T} :
      Step limit most r ⟨r.used + r.pending t, Function.update r.pending t 0⟩
  | take {r : Reserve T} {n : Nat} (hn : n ≤ r.used) :
      Step limit most r { r with used := r.used - n }

/-- No worker has more than `most` to add, and all of them together exceed the limit by no more
than `most` for each worker but one. -/
structure Bounded (limit most : Nat) (r : Reserve T) : Prop where
  each : ∀ t, r.pending t ≤ most
  total : r.total ≤ limit + (Fintype.card T - 1) * most

variable {limit most : Nat} {r u : Reserve T}

/-- A worker with nothing to add leaves the others. -/
theorem sum_pending_le (heach : ∀ t, r.pending t ≤ most) {t : T} (hfree : r.pending t = 0) :
    ∑ i, r.pending i ≤ (Fintype.card T - 1) * most := by
  rw [Finset.sum_eq_add_sum_sdiff_singleton_of_mem (Finset.mem_univ t), hfree, Nat.zero_add]
  calc ∑ i ∈ Finset.univ \ {t}, r.pending i
      ≤ (Finset.univ \ {t}).card • most := Finset.sum_le_card_nsmul _ _ _ fun i _ => heach i
    _ = (Fintype.card T - 1) * most := by
      rw [Finset.card_sdiff_of_subset (Finset.subset_univ _), Finset.card_univ,
        Finset.card_singleton, Nat.nsmul_eq_mul]

/-- The bound survives every step. -/
theorem Step.bounded (hstep : Step limit most r u) (h : r.Bounded limit most) :
    u.Bounded limit most := by
  cases hstep with
  | @check t n hfree hmost hfits =>
    have hsum := sum_update_add r.pending t n
    have hothers := sum_pending_le h.each hfree
    refine ⟨fun i => ?_, ?_⟩
    · rcases eq_or_ne i t with rfl | hne
      · simpa using hmost
      · simpa [hne] using h.each i
    · -- the check says nothing of the others, and each of them can still add `most`
      unfold Reserve.total
      simp only
      omega
  | @add t =>
    have hsum := sum_update_add r.pending t 0
    have htotal := h.total
    unfold Reserve.total at htotal
    refine ⟨fun i => ?_, ?_⟩
    · rcases eq_or_ne i t with rfl | hne
      · simp
      · simpa [hne] using h.each i
    · unfold Reserve.total
      simp only
      omega
  | take hn =>
    have htotal := h.total
    unfold Reserve.total at htotal
    refine ⟨h.each, ?_⟩
    unfold Reserve.total
    simp only
    omega

end Reserve

end GrafeoLoro.Lib
