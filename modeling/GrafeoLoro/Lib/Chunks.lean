import Mathlib.Data.List.Basic

/-!
# `GrafeoLoro.Lib.Chunks`: a list cut into chunks

`chunks size l` cuts a list into chunks of `size` elements. The last chunk can be shorter. No
chunk is empty, and the chunks in a row are the list.

The module names nothing of the bridge.
-/

set_option autoImplicit false

namespace GrafeoLoro.Lib

variable {α : Type}

/-- Chunks of `size` elements, for a positive `size`. -/
def chunks (size : Nat) : List α → List (List α)
  | [] => []
  | x :: rest => (x :: rest.take (size - 1)) :: chunks size (rest.drop (size - 1))
termination_by l => l.length
decreasing_by
  rw [List.length_drop, List.length_cons]
  omega

@[simp] theorem chunks_nil (size : Nat) : chunks size ([] : List α) = [] := by
  rw [chunks]

/-- The first chunk and the chunks after it. -/
theorem chunks_cons (size : Nat) (x : α) (rest : List α) :
    chunks size (x :: rest)
      = (x :: rest.take (size - 1)) :: chunks size (rest.drop (size - 1)) := by
  rw [chunks]

/-- No chunk is empty. -/
theorem ne_nil_of_mem_chunks (size : Nat) (l : List α) :
    ∀ chunk ∈ chunks size l, chunk ≠ [] := by
  induction l using chunks.induct size with
  | case1 =>
    intro chunk hchunk
    rw [chunks_nil] at hchunk
    cases hchunk
  | case2 x rest ih =>
    intro chunk hchunk
    rw [chunks_cons] at hchunk
    cases List.mem_cons.mp hchunk with
    | inl heq =>
      rw [heq]
      exact List.cons_ne_nil _ _
    | inr hrest => exact ih chunk hrest

/-- The chunks in a row are the list. -/
theorem flatten_chunks (size : Nat) (l : List α) : (chunks size l).flatten = l := by
  induction l using chunks.induct size with
  | case1 => simp
  | case2 x rest ih =>
    rw [chunks_cons, List.flatten_cons, ih, List.cons_append, List.take_append_drop]

end GrafeoLoro.Lib
