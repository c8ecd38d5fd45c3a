import Mathlib.Data.List.Perm.Basic

/-!
# `GrafeoLoro.Lib.Interleave`: interleavings of several lists

`Interleaved ls out` says that `out` takes the elements of the lists `ls`, each list in its own
order, and the lists in any order in between. The steps of concurrent workers interleave so.

* `Interleaved.perm`: an interleaving has the elements of the lists, each as often.
* `interleaved_flatten`, `Interleaved.of_perm`: one list after the other, in any order of the lists.

The module names nothing of the bridge.
-/

set_option autoImplicit false

namespace GrafeoLoro.Lib

variable {α : Type}

/-- `out` interleaves the lists: each step takes the first element of one of them. -/
inductive Interleaved : List (List α) → List α → Prop where
  | done {ls : List (List α)} (h : ∀ l ∈ ls, l = []) : Interleaved ls []
  | take {ls rest : List (List α)} {x : α} {l out : List α} (hfirst : ls.Perm ((x :: l) :: rest))
    (h : Interleaved (l :: rest) out) : Interleaved ls (x :: out)

/-- An interleaving has the elements of the lists. -/
theorem Interleaved.perm {ls : List (List α)} {out : List α} (h : Interleaved ls out) :
    out.Perm ls.flatten := by
  induction h with
  | done h => rw [List.flatten_eq_nil_iff.mpr h]
  | take hfirst h ih => exact (ih.cons _).trans hfirst.flatten.symm

/-- The order of the lists does not matter. -/
theorem Interleaved.of_perm {ls ls' : List (List α)} {out : List α} (hperm : ls.Perm ls')
    (h : Interleaved ls out) : Interleaved ls' out := by
  cases h with
  | done h => exact .done fun l hl => h l (hperm.mem_iff.mpr hl)
  | take hfirst h => exact .take (hperm.symm.trans hfirst) h

/-- An empty list more adds nothing. -/
theorem Interleaved.cons_nil {ls : List (List α)} {out : List α} (h : Interleaved ls out) :
    Interleaved ([] :: ls) out := by
  induction h with
  | done h => exact .done (by simpa using h)
  | take hfirst h ih =>
    -- the empty list goes behind the one that is taken from
    have hbehind := (hfirst.cons []).trans (.swap _ _ _)
    exact .take hbehind (ih.of_perm (.swap _ _ _))

/-- The lists one after the other. -/
theorem interleaved_flatten (ls : List (List α)) : Interleaved ls ls.flatten := by
  induction ls with
  | nil => exact .done (by simp)
  | cons l rest ih =>
    induction l with
    | nil => exact ih.cons_nil
    | cons x l ihl => exact .take (.refl _) ihl

end GrafeoLoro.Lib
