import GrafeoLoro.Error

/-!
# `GrafeoLoro.Bridge.Queue`: the offline queue and the lineage epoch

The model of `src/bridge/queue.rs`. `OfflineOpQueue` is a first-in first-out queue of
serialized ops with a cap on its bytes, and `OfflineOpQueue.next` is a queue under a sequence of
calls. `EpochTracker` is the lineage epoch, an atomic `u64`.

`fetch_add` wraps around at `u64::MAX`. The `+ 1` that `bump` adds to its result panics there
in a build with overflow checks, and wraps in one without. `overflowChecks` tells the two
builds apart, and a panic is the value `none`. The atomic has its new value by then.

`reconnect` is the handshake as the documentation of the crate asks for it: on a mismatch the
client wipes and tries again.
-/

set_option autoImplicit false

namespace GrafeoLoro

/-- `LineageEpoch`. -/
abbrev LineageEpoch : Type := UInt64

/-- `EpochMismatchError`: the two epochs of a handshake that failed. -/
structure EpochMismatchError where
  localEpoch : LineageEpoch
  remoteEpoch : LineageEpoch
  deriving DecidableEq, Repr

/-- `EpochTracker`. -/
@[ext] structure EpochTracker where
  epoch : LineageEpoch
  deriving DecidableEq, Repr

namespace EpochTracker

/-- A tracker at epoch 0. -/
def new : EpochTracker := ⟨0⟩

/-- `EpochTracker::current`. -/
def current (t : EpochTracker) : LineageEpoch := t.epoch

/-- `EpochTracker::check_match`. -/
def checkMatch (t : EpochTracker) (remoteEpoch : LineageEpoch) :
    Except EpochMismatchError Unit :=
  if t.epoch = remoteEpoch then .ok () else .error ⟨t.epoch, remoteEpoch⟩

/-- The largest `u64`. -/
def maxEpoch : LineageEpoch := 0xFFFFFFFFFFFFFFFF

/-- `EpochTracker::bump`: the new epoch, or a panic, and the tracker after it. -/
def bump (overflowChecks : Bool) (t : EpochTracker) : Option LineageEpoch × EpochTracker :=
  (if overflowChecks = true ∧ t.epoch = maxEpoch then none else some (t.epoch + 1),
    ⟨t.epoch + 1⟩)

/-- `EpochTracker::wipe`, an alias of `bump`. -/
def wipe (overflowChecks : Bool) (t : EpochTracker) : Option LineageEpoch × EpochTracker :=
  t.bump overflowChecks

end EpochTracker

/-- At most `rounds` rounds of the handshake with one remote epoch: on a mismatch wipe, and
check again. A panic of the wipe ends it with `none`. -/
def reconnect (overflowChecks : Bool) (remoteEpoch : LineageEpoch) :
    Nat → EpochTracker → Option (Except EpochMismatchError Unit)
  | 0, t => some (t.checkMatch remoteEpoch)
  | rounds + 1, t =>
    match t.checkMatch remoteEpoch with
    | .ok _ => some (.ok ())
    | .error _ =>
      match t.wipe overflowChecks with
      | (some _, t') => reconnect overflowChecks remoteEpoch rounds t'
      | (none, _) => none

/-- `OfflineOpQueue`. -/
@[ext] structure OfflineOpQueue where
  ops : List (List UInt8)
  totalBytes : Nat
  capBytes : Nat
  retryCount : UInt32

namespace OfflineOpQueue

/-- `OfflineOpQueue::DEFAULT_CAP`: 10 MB. -/
def defaultCap : Nat := 10 * 1024 * 1024

/-- Number of values of a `usize`. -/
def usizeSize : Nat := 0x10000000000000000

/-- `OfflineOpQueue::new`. -/
def new : OfflineOpQueue := ⟨[], 0, defaultCap, 0⟩

/-- `OfflineOpQueue::with_cap`. -/
def withCap (capBytes : Nat) : OfflineOpQueue := ⟨[], 0, capBytes, 0⟩

/-- `OfflineOpQueue::enqueue`. An op that does not fit under the cap changes nothing. -/
def enqueue (opBytes : List UInt8) (q : OfflineOpQueue) :
    Except GrafeoLoroError Unit × OfflineOpQueue :=
  let newTotal := q.totalBytes + opBytes.length
  if usizeSize ≤ newTotal then
    (.error (.bridge s!"offline queue overflow: byte count overflow (current={q.totalBytes}, adding={opBytes.length})"),
      q)
  else if q.capBytes < newTotal then
    (.error (.bridge s!"offline queue overflow: cap={q.capBytes} bytes, current={q.totalBytes}, adding={opBytes.length} bytes"),
      q)
  else (.ok (), { q with totalBytes := newTotal, ops := q.ops ++ [opBytes] })

/-- `OfflineOpQueue::drain`: all queued ops in order. The retry counter stays. -/
def drain (q : OfflineOpQueue) : List (List UInt8) × OfflineOpQueue :=
  (q.ops, { q with ops := [], totalBytes := 0 })

/-- `OfflineOpQueue::depth`. -/
def depth (q : OfflineOpQueue) : Nat := q.ops.length

/-- `OfflineOpQueue::bytes_used`. -/
def bytesUsed (q : OfflineOpQueue) : Nat := q.totalBytes

/-- `OfflineOpQueue::retry_bump`: the new count, which stays at `u32::MAX`. -/
def retryBump (q : OfflineOpQueue) : UInt32 × OfflineOpQueue :=
  let retryCount := if q.retryCount = 0xFFFFFFFF then q.retryCount else q.retryCount + 1
  (retryCount, { q with retryCount })

/-- `OfflineOpQueue::reset_retry`. -/
def resetRetry (q : OfflineOpQueue) : OfflineOpQueue := { q with retryCount := 0 }

end OfflineOpQueue

/-- A call that changes a queue. -/
inductive QueueCall where
  | enqueue (opBytes : List UInt8)
  | drain
  | retryBump
  | resetRetry
  deriving DecidableEq

/-- The queue after a call. -/
def OfflineOpQueue.next (q : OfflineOpQueue) : QueueCall → Option OfflineOpQueue
  | .enqueue opBytes => some (q.enqueue opBytes).2
  | .drain => some q.drain.2
  | .retryBump => some q.retryBump.2
  | .resetRetry => some q.resetRetry

end GrafeoLoro
