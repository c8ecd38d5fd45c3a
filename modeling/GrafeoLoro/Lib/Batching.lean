import Mathlib.Data.List.Induction

/-!
# `GrafeoLoro.Lib.Batching`: items that leave in batches

A batcher collects items in a buffer. The buffer leaves as one batch when it has `size` items, and
at every tick. An empty buffer does not leave. Items and ticks come in any order.

* `Batching.conserved_run`: the batches in a row and then the buffer are the items.
* `Batching.sized_run`: no batch is empty or has more than `size` items, and the buffer has fewer.

The module names nothing of the bridge.
-/

set_option autoImplicit false

namespace GrafeoLoro.Lib

variable {α : Type}

/-- The buffer and the batches that left, from the start. -/
structure Batching (α : Type) where
  buffer : List α
  flushed : List (List α)

/-- What a batcher reacts to. -/
inductive BatchEvent (α : Type) where
  | item (x : α)
  | tick

namespace Batching

/-- The buffer leaves, unless it is empty. -/
def drain (b : Batching α) : Batching α :=
  match b.buffer with
  | [] => b
  | x :: rest => ⟨[], b.flushed ++ [x :: rest]⟩

/-- One more item. The buffer leaves when it has `size` items. -/
def push (size : Nat) (x : α) (b : Batching α) : Batching α :=
  let b := { b with buffer := b.buffer ++ [x] }
  if b.buffer.length < size then b else b.drain

/-- The batcher after one event. -/
def step (size : Nat) (b : Batching α) : BatchEvent α → Batching α
  | .item x => b.push size x
  | .tick => b.drain

/-- The batcher after the events. -/
def run (size : Nat) (events : List (BatchEvent α)) : Batching α :=
  events.foldl (step size) ⟨[], []⟩

/-- The items among the events. -/
def items (events : List (BatchEvent α)) : List α :=
  events.flatMap fun
    | .item x => [x]
    | .tick => []

/-- The batcher after one more event. -/
theorem run_concat (size : Nat) (events : List (BatchEvent α)) (event : BatchEvent α) :
    run size (events ++ [event]) = (run size events).step size event := by
  unfold run
  rw [List.foldl_append]
  rfl

/-! ### Conservation -/

/-- All items of a batcher, in order. -/
def contents (b : Batching α) : List α := b.flushed.flatten ++ b.buffer

/-- A drain moves the buffer behind the batches. -/
theorem contents_drain (b : Batching α) : b.drain.contents = b.contents := by
  unfold drain
  split
  · rfl
  · rename_i x rest hbuffer
    simp [contents, hbuffer]

/-- A new item is behind the others. -/
theorem contents_push (size : Nat) (x : α) (b : Batching α) :
    (b.push size x).contents = b.contents ++ [x] := by
  have hadd : contents { b with buffer := b.buffer ++ [x] } = b.contents ++ [x] := by
    simp [contents]
  unfold push
  dsimp only
  split
  · exact hadd
  · rw [contents_drain, hadd]

/-- The batches in a row and then the buffer are the items. -/
theorem conserved_run (size : Nat) (events : List (BatchEvent α)) :
    (run size events).contents = items events := by
  induction events using List.reverseRecOn with
  | nil => rfl
  | append_singleton events event ih =>
    have hitems : items (events ++ [event]) = items events ++ items [event] := by
      unfold items
      rw [List.flatMap_append]
    rw [run_concat, hitems]
    cases event with
    | item x =>
      rw [step, contents_push, ih]
      rfl
    | tick =>
      rw [step, contents_drain, ih]
      exact (List.append_nil _).symm

/-! ### Sizes -/

/-- The buffer has fewer than `size` items, and no batch is empty or has more than `size`. -/
structure Sized (size : Nat) (b : Batching α) : Prop where
  buffer : b.buffer.length < size
  flushed : ∀ batch ∈ b.flushed, 1 ≤ batch.length ∧ batch.length ≤ size

/-- A buffer of at most `size` items can leave. -/
theorem sized_drain {size : Nat} (hsize : 1 ≤ size) {b : Batching α}
    (hbuffer : b.buffer.length ≤ size)
    (hflushed : ∀ batch ∈ b.flushed, 1 ≤ batch.length ∧ batch.length ≤ size) :
    Sized size b.drain := by
  unfold drain
  split
  · rename_i hempty
    constructor
    case buffer =>
      rw [hempty]
      exact hsize
    case flushed => exact hflushed
  · rename_i x rest hfull
    constructor
    case buffer => exact hsize
    case flushed =>
      intro batch hbatch
      cases List.mem_append.mp hbatch with
      | inl hold => exact hflushed batch hold
      | inr hnew =>
        -- the new batch is the buffer
        rw [List.mem_singleton.mp hnew, ← hfull]
        refine ⟨?_, hbuffer⟩
        rw [hfull, List.length_cons]
        omega

/-- One event keeps the sizes. -/
theorem sized_step {size : Nat} (hsize : 1 ≤ size) {b : Batching α} (hb : Sized size b)
    (event : BatchEvent α) : Sized size (b.step size event) := by
  have hbuffer := hb.buffer
  cases event with
  | item x =>
    rw [step, push]
    dsimp only
    split
    · rename_i hroom
      exact ⟨hroom, hb.flushed⟩
    · -- one item more than fewer than `size` is at most `size`
      have hgrown : (b.buffer ++ [x]).length ≤ size := by
        rw [List.length_append, List.length_singleton]
        omega
      exact sized_drain hsize hgrown hb.flushed
  | tick => exact sized_drain hsize (Nat.le_of_lt hbuffer) hb.flushed

/-- No batch is empty or has more than `size` items, and the buffer has fewer. -/
theorem sized_run {size : Nat} (hsize : 1 ≤ size) (events : List (BatchEvent α)) :
    Sized size (run size events) := by
  induction events using List.reverseRecOn with
  | nil =>
    constructor
    case buffer => exact hsize
    case flushed =>
      intro batch hbatch
      cases hbatch
  | append_singleton events event ih =>
    rw [run_concat]
    exact sized_step hsize ih event

end Batching

end GrafeoLoro.Lib
