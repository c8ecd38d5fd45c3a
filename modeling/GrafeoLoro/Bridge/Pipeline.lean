import GrafeoLoro.Constants
import GrafeoLoro.Lib.Exec

/-!
# `GrafeoLoro.Bridge.Pipeline`: the inbound worker and the batcher loop

The model of the two tasks of the inbound path, `SyncEngine::spawn_inbound_worker`
(`src/bridge/sync_engine.rs`) and `MutationBatcher::run` (`src/bridge/batcher.rs`), as a step
function over the channels between them. An op goes

  inbound channel → worker → batcher channel → buffer → a flush.

One step is one `select!` of a task, one `batch_tx.send`, the end of one `flush_inner`, one
op accepted by the inbound channel, or the shutdown signal. A `select!` is biased, so an arm
is taken only when no arm before it is ready. Whether a flush succeeds is open: `flushOk` and
`flushErr` are both possible (an op that fails, a Grafeo error, a timeout).

`sent` lists the ops that the inbound channel accepted, and `flushed` the batches that were
passed to `flush_inner`, both from the start of the run. The engine keeps a sender of the
inbound channel, so the channel is not closed while the worker runs.
-/

set_option autoImplicit false

namespace GrafeoLoro

/-- Where the inbound worker is. -/
inductive Worker (Op : Type) where
  /-- At its `select!`. -/
  | atSelect
  /-- Awaiting `batch_tx.send(op)`. -/
  | forwarding (op : Op)
  /-- Out of the loop, awaiting the batcher's handle. -/
  | joining
  | exited

/-- Where `MutationBatcher::run` is. -/
inductive BatcherLoop where
  /-- At its `select!`. -/
  | atSelect
  /-- Awaiting `flush_inner`. `last` tells the flush of the shutdown arm. -/
  | flushing (last : Bool)
  /-- `run` has returned, and its receiver is dropped. -/
  | exited
  deriving DecidableEq

/-- The state of the inbound path. -/
structure Pipeline (Op : Type) where
  inbound : List Op
  worker : Worker Op
  batchChannel : List Op
  buffer : List Op
  batcher : BatcherLoop
  shutdown : Bool
  sent : List Op
  flushed : List (List Op)

/-- One step of the inbound path. -/
inductive PipelineAction (Op : Type) where
  /-- The inbound channel accepts an op. -/
  | send (op : Op)
  | workerRecv
  | workerForward
  /-- `batch_tx.send` fails because the batcher's receiver is gone. -/
  | workerForwardErr
  | workerShutdown
  | workerJoin
  | batcherRecv
  | batcherTick
  | batcherShutdown
  | flushOk
  | flushErr
  /-- `SyncEngine::shutdown`. -/
  | signal

namespace Pipeline

variable {Op : Type}

/-- Empty channels, both tasks at their `select!`. -/
def init : Pipeline Op := ⟨[], .atSelect, [], [], .atSelect, false, [], []⟩

/-- The op between the worker's `recv` and its `send`. -/
def hand (s : Pipeline Op) : List Op :=
  match s.worker with
  | .forwarding op => [op]
  | _ => []

/-- Take the buffer and pass it to `flush_inner`. An empty buffer is not flushed, and the loop
goes on at `idle`. -/
def drain (s : Pipeline Op) (last : Bool) (idle : BatcherLoop) : Pipeline Op :=
  match s.buffer with
  | [] => { s with batcher := idle }
  | op :: rest =>
    { s with
        buffer := []
        batcher := .flushing last
        flushed := s.flushed ++ [op :: rest] }

/-- The `recv` arm: push the op, and flush when the buffer has `batchSize` ops. -/
def receive (batchSize : Nat) (s : Pipeline Op) (op : Op) (rest : List Op) : Pipeline Op :=
  let s := { s with batchChannel := rest, buffer := s.buffer ++ [op] }
  if s.buffer.length < batchSize then s else s.drain false .atSelect

/-- The steps of the two tasks, the senders and the shutdown signal. -/
def next (batchSize : Nat) (s : Pipeline Op) : PipelineAction Op → Option (Pipeline Op)
  | .send op =>
    match s.worker with
    | .exited => none
    | _ =>
      if s.inbound.length < channelCapacity then
        some { s with inbound := s.inbound ++ [op], sent := s.sent ++ [op] }
      else none
  | .workerRecv =>
    match s.worker, s.shutdown, s.inbound with
    | .atSelect, false, op :: rest => some { s with inbound := rest, worker := .forwarding op }
    | _, _, _ => none
  | .workerForward =>
    match s.worker, s.batcher with
    | .forwarding _, .exited => none
    | .forwarding op, _ =>
      if s.batchChannel.length < channelCapacity then
        some { s with batchChannel := s.batchChannel ++ [op], worker := .atSelect }
      else none
    | _, _ => none
  | .workerForwardErr =>
    match s.worker, s.batcher with
    | .forwarding _, .exited => some { s with worker := .joining }
    | _, _ => none
  | .workerShutdown =>
    match s.worker, s.shutdown with
    | .atSelect, true => some { s with worker := .joining }
    | _, _ => none
  | .workerJoin =>
    match s.worker, s.batcher with
    | .joining, .exited => some { s with worker := .exited }
    | _, _ => none
  | .batcherShutdown =>
    match s.batcher, s.shutdown with
    | .atSelect, true => some (s.drain true .exited)
    | _, _ => none
  | .batcherRecv =>
    match s.batcher, s.shutdown, s.batchChannel with
    | .atSelect, false, op :: rest => some (s.receive batchSize op rest)
    | _, _, _ => none
  | .batcherTick =>
    match s.batcher, s.shutdown, s.batchChannel with
    | .atSelect, false, [] => some (s.drain false .atSelect)
    | _, _, _ => none
  | .flushOk =>
    match s.batcher with
    | .flushing false => some { s with batcher := .atSelect }
    | .flushing true => some { s with batcher := .exited }
    | _ => none
  | .flushErr =>
    -- `?` leaves `run` on the first error, in the loop and in the shutdown arm alike
    match s.batcher with
    | .flushing _ => some { s with batcher := .exited }
    | _ => none
  | .signal => some { s with shutdown := true }

end Pipeline

end GrafeoLoro
