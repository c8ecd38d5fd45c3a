import GrafeoLoro.Lib.Batching
import GrafeoLoro.Proofs.Pipeline

/-!
# `GrafeoLoro.Proofs.BatcherConservation`: what the batcher flushes

The buffer and the flushed batches of `MutationBatcher::run` are those of an abstract batcher that
gets each received op as an item and each tick, and the shutdown, as a tick (`batching_run`). So
what holds of the abstract batcher for all orders of items and ticks holds of every run.

* `batcher_conserves`: the flushed batches and the buffer are the received ops, and their sizes.
-/

set_option autoImplicit false

namespace GrafeoLoro.Proofs

open GrafeoLoro GrafeoLoro.Lib

variable {Op : Type} {batchSize : Nat}

/-- The ops that the batcher received in the steps of a run, in order. -/
def receivedOps (h : List (Pipeline Op × PipelineAction Op)) : List Op :=
  h.flatMap fun p =>
    match p.2 with
    | .batcherRecv => p.1.batchChannel.head?.toList
    | _ => []

/-- The abstract batcher inside a state. -/
def batching (s : Pipeline Op) : Batching Op := ⟨s.buffer, s.flushed⟩

/-- What the abstract batcher reacts to in one step. -/
def batchEvents (p : Pipeline Op × PipelineAction Op) : List (BatchEvent Op) :=
  match p.2 with
  | .batcherRecv => p.1.batchChannel.head?.toList.map .item
  | .batcherTick | .batcherShutdown => [.tick]
  | _ => []

/-- The drain of the loop is the drain of the abstract batcher. -/
theorem batching_drain (s : Pipeline Op) (last : Bool) (idle : BatcherLoop) :
    batching (s.drain last idle) = (batching s).drain := by
  unfold Pipeline.drain Batching.drain batching
  cases s.buffer with
  | nil => rfl
  | cons op rest => rfl

/-- The `recv` arm is one more item. -/
theorem batching_receive (s : Pipeline Op) (op : Op) (rest : List Op) :
    batching (s.receive batchSize op rest) = (batching s).push batchSize op := by
  unfold Pipeline.receive Batching.push
  dsimp only
  split
  · rename_i hroom
    exact (if_pos hroom).symm
  · rename_i hfull
    rw [batching_drain]
    exact (if_neg hfull).symm

/-- One step of the inbound path is the events of that step. -/
theorem batching_step {s u : Pipeline Op} {a : PipelineAction Op}
    (h : s.next batchSize a = some u) :
    batching u = (batchEvents (s, a)).foldl (Batching.step batchSize) (batching s) := by
  cases next_cases h with
  | send | workerRecv | workerForward | workerForwardErr | workerShutdown | workerJoin => rfl
  | flushOk | flushErr | signal => rfl
  | batcherShutdown | batcherTick => exact batching_drain s _ _
  | batcherRecv _ _ hchannel =>
    rw [batching_receive, batchEvents, hchannel]
    rfl

/-- A run of the inbound path is a run of the abstract batcher. -/
theorem batching_run {h : List (Pipeline Op × PipelineAction Op)} {t : Pipeline Op}
    (hexec : Exec (Pipeline.next batchSize) .init h t) :
    batching t = Batching.run batchSize (h.flatMap batchEvents) := by
  induction hexec with
  | nil => rfl
  | snoc _ hstep ih =>
    rw [batching_step hstep, ih, Batching.run, Batching.run, List.flatMap_append,
      List.foldl_append, List.flatMap_singleton]

/-- The items of the abstract batcher are the received ops. -/
theorem items_batchEvents (h : List (Pipeline Op × PipelineAction Op)) :
    Batching.items (h.flatMap batchEvents) = receivedOps h := by
  unfold Batching.items receivedOps
  rw [List.flatMap_assoc]
  apply List.flatMap_congr
  rintro ⟨s, a⟩ _
  cases a with
  | batcherRecv =>
    simp only [batchEvents]
    cases s.batchChannel.head? with
    | none => rfl
    | some op => rfl
  | _ => rfl

/-- In every run of the inbound path, for every batch size of at least one: the flushed batches
in a row and then the buffer are the ops that the batcher received, in order. Every flushed batch
has at least one op and at most `batchSize`, and the buffer has fewer. -/
theorem batcher_conserves (hsize : 1 ≤ batchSize)
    {h : List (Pipeline Op × PipelineAction Op)} {t : Pipeline Op}
    (hexec : Exec (Pipeline.next batchSize) .init h t) :
    t.flushed.flatten ++ t.buffer = receivedOps h ∧
      (∀ batch ∈ t.flushed, 1 ≤ batch.length ∧ batch.length ≤ batchSize) ∧
      t.buffer.length < batchSize := by
  have hrun := batching_run hexec
  have hconserved : (batching t).contents = receivedOps h := by
    rw [hrun, Batching.conserved_run, items_batchEvents]
  have hsized : (batching t).Sized batchSize := by
    rw [hrun]
    exact Batching.sized_run hsize _
  exact ⟨hconserved, hsized.flushed, hsized.buffer⟩

/-- Three ops and a batch size of two: the first two leave by size, and the third by a tick. -/
theorem batcher_conserves_three :
    ∃ h t, Exec (Pipeline.next 2) (Pipeline.init : Pipeline Nat) h t ∧
      t.flushed = [[1, 2], [3]] ∧ receivedOps h = [1, 2, 3] := by
  have hrun : runActions (Pipeline.next 2) (Pipeline.init : Pipeline Nat)
      [.send 1, .send 2, .send 3, .workerRecv, .workerForward, .batcherRecv, .workerRecv,
        .workerForward, .batcherRecv, .flushOk, .workerRecv, .workerForward, .batcherRecv,
        .batcherTick]
      = some { Pipeline.init with
          batcher := .flushing false, sent := [1, 2, 3], flushed := [[1, 2], [3]] } := rfl
  obtain ⟨h, hexec, _⟩ := exec_of_run hrun
  have hconserved := (batcher_conserves (by decide) hexec).1
  exact ⟨h, _, hexec, rfl, hconserved.symm⟩

end GrafeoLoro.Proofs
