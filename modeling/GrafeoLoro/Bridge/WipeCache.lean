import GrafeoLoro.Bridge.Queue
import GrafeoLoro.Lib.Exec
import Mathlib.Logic.Function.Basic

/-!
# `GrafeoLoro.Bridge.WipeCache`: a cache wipe among other threads

The lineage methods of `SyncEngine` (`src/bridge/sync_engine.rs`) over one `EpochTracker` and one
`OfflineOpQueue`. `wipe_cache` is three steps: it bumps the epoch, takes the lock of the queue
and drains it, and takes the lock again and resets the retry counter. The other methods are one
step each. Any number of threads call the methods in any order, and a thread is in one wipe at
most.

The state records what the threads cannot see. `bumps` counts the bumps. A queued op knows how
many bumps there were when it was enqueued, and how many of them its caller had seen. `returned`
and `discarded` are the ops that left the queue through `drain_offline_queue` and through a
wipe.
-/

set_option autoImplicit false

namespace GrafeoLoro

/-- An op in the queue. -/
structure QueuedOp where
  bytes : List UInt8
  /-- The bumps before it was enqueued. -/
  enqueuedAt : Nat
  /-- The bumps that its caller had seen by then. -/
  observed : Nat

/-- Where a thread is in `wipe_cache`, with the number of its bump. -/
inductive WipePhase where
  | bumped (n : Nat)
  | drained (n : Nat)

/-- The lineage state of an engine. -/
structure Lineage where
  tracker : EpochTracker
  queue : OfflineOpQueue
  wiping : Nat → Option WipePhase
  bumps : Nat
  queued : List QueuedOp
  /-- The bumps that a thread has seen: it read the epoch after them. -/
  observed : Nat → Nat
  /-- The bumps before the last successful match of a thread. -/
  matched : Nat → Nat
  /-- The bumps that found an op in the queue and that no drain has followed. -/
  dirty : List Nat
  /-- The most bumps seen by a caller whose op was accepted after the last drain. -/
  newest : Nat
  returned : List (QueuedOp × Nat)
  discarded : List (QueuedOp × Nat)

/-- One step of a thread. -/
inductive LineageAction where
  | lineageEpoch (thread : Nat)
  | checkEpochMatch (thread : Nat) (remoteEpoch : LineageEpoch)
  | enqueueOfflineOp (thread : Nat) (opBytes : List UInt8)
  | drainOfflineQueue (thread : Nat)
  | wipeBump (thread : Nat)
  | wipeDrain (thread : Nat)
  | wipeReset (thread : Nat)

namespace Lineage

/-- An engine with any epoch and any queue, before the first step. -/
def init (tracker : EpochTracker) (queue : OfflineOpQueue) : Lineage where
  tracker
  queue
  wiping := fun _ => none
  bumps := 0
  queued := queue.ops.map fun bytes => ⟨bytes, 0, 0⟩
  observed := fun _ => 0
  matched := fun _ => 0
  dirty := []
  newest := 0
  returned := []
  discarded := []

/-- The thread reads the epoch. -/
def observe (s : Lineage) (thread : Nat) : Lineage :=
  { s with observed := Function.update s.observed thread s.bumps }

/-- The queue is drained. -/
def drained (s : Lineage) : Lineage :=
  { s with queue := s.queue.drain.2, queued := [], dirty := [], newest := 0 }

/-- `lineage_epoch`. -/
def lineageEpoch (s : Lineage) (thread : Nat) : LineageEpoch × Lineage :=
  (s.tracker.current, s.observe thread)

/-- `check_epoch_match`. The error names the local epoch, so the thread sees it either way. -/
def checkEpochMatch (s : Lineage) (thread : Nat) (remoteEpoch : LineageEpoch) :
    Except EpochMismatchError Unit × Lineage :=
  match s.tracker.checkMatch remoteEpoch with
  | .ok _ => (.ok (), { s.observe thread with
      matched := Function.update s.matched thread s.bumps })
  | .error e => (.error e, s.observe thread)

/-- `enqueue_offline_op`. -/
def enqueueOfflineOp (s : Lineage) (thread : Nat) (opBytes : List UInt8) :
    Except GrafeoLoroError Unit × Lineage :=
  match s.queue.enqueue opBytes with
  | (.ok _, queue) => (.ok (), { s with
      queue
      queued := s.queued ++ [⟨opBytes, s.bumps, s.observed thread⟩]
      newest := max s.newest (s.observed thread) })
  | (.error e, queue) => (.error e, { s with queue })

/-- `drain_offline_queue`. -/
def drainOfflineQueue (s : Lineage) (thread : Nat) : List (List UInt8) × Lineage :=
  (s.queue.drain.1, { s.drained with
    returned := s.returned ++ s.queued.map fun op => (op, s.matched thread) })

/-- The first step of `wipe_cache`. A bump that panics ends the call. -/
def wipeBump (overflowChecks : Bool) (s : Lineage) (thread : Nat) : Lineage :=
  let (newEpoch, tracker) := s.tracker.wipe overflowChecks
  { s with
    tracker
    bumps := s.bumps + 1
    dirty := if s.queued.isEmpty then s.dirty else (s.bumps + 1) :: s.dirty
    wiping := Function.update s.wiping thread (newEpoch.map fun _ => .bumped (s.bumps + 1)) }

/-- The second step of `wipe_cache`. -/
def wipeDrain (s : Lineage) (thread n : Nat) : Lineage :=
  { s.drained with
    discarded := s.discarded ++ s.queued.map fun op => (op, n)
    wiping := Function.update s.wiping thread (some (.drained n)) }

/-- The third step of `wipe_cache`. The thread gets the new epoch back. -/
def wipeReset (s : Lineage) (thread n : Nat) : Lineage :=
  { s with
    queue := s.queue.resetRetry
    observed := Function.update s.observed thread (max (s.observed thread) n)
    wiping := Function.update s.wiping thread none }

/-- The steps. A thread in a wipe calls nothing else. -/
def next (overflowChecks : Bool) (s : Lineage) : LineageAction → Option Lineage
  | .lineageEpoch thread =>
    if (s.wiping thread).isNone then some (s.lineageEpoch thread).2 else none
  | .checkEpochMatch thread remoteEpoch =>
    if (s.wiping thread).isNone then some (s.checkEpochMatch thread remoteEpoch).2 else none
  | .enqueueOfflineOp thread opBytes =>
    if (s.wiping thread).isNone then some (s.enqueueOfflineOp thread opBytes).2 else none
  | .drainOfflineQueue thread =>
    if (s.wiping thread).isNone then some (s.drainOfflineQueue thread).2 else none
  | .wipeBump thread =>
    if (s.wiping thread).isNone then some (s.wipeBump overflowChecks thread) else none
  | .wipeDrain thread =>
    match s.wiping thread with
    | some (.bumped n) => some (s.wipeDrain thread n)
    | _ => none
  | .wipeReset thread =>
    match s.wiping thread with
    | some (.drained n) => some (s.wipeReset thread n)
    | _ => none

end Lineage

end GrafeoLoro
