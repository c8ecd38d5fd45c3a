import GrafeoLoro.Runtime.MemoryCeiling
import Mathlib.Logic.Function.Basic

/-!
# `GrafeoLoro.Runtime.SharedCeiling`: a memory budget that several threads share

All methods of `MemoryCeiling` (`src/runtime/mod.rs`) take `&self`. The counter is an atomic and
the idle documents are behind a lock, so the calls of several threads interleave at each load and
at each `fetch_add`, `fetch_sub` and `store` of the counter, and at the lock. `CeilingPhase` says
which of these comes next in a call. What a thread does under the lock without the counter is part
of the step before or after. All operations of the counter are `Relaxed`, and a load is taken to
read the newest value, as on hardware with coherent caches.

`tryAlloc_steps` and `release_steps` (`Proofs/CeilingCalls.lean`) say that a call which nothing
comes in between is `MemoryCeiling.tryAlloc` or `MemoryCeiling.release`.
-/

set_option autoImplicit false

namespace GrafeoLoro

/-- Where a thread is in a call. -/
inductive CeilingPhase (w : Nat) where
  /-- The last call has returned. `result` is what it returned if it was a `try_alloc`. -/
  | ready (result : Option Bool)
  /-- `try_alloc_inner` has loaded `current`. -/
  | loaded (bytes current : BitVec w) (retry : Bool)
  /-- `evict_to_fit` waits for the lock. -/
  | lock (bytes : BitVec w)
  /-- `evict_to_fit` has the lock and is before the condition of its loop. -/
  | evicting (bytes freed : BitVec w)
  /-- `evict_to_fit` has the lock and is in the body of its loop. -/
  | evictFirst (bytes freed : BitVec w)
  /-- `evict_to_fit` has returned, and `try_alloc_inner` loads the counter again. -/
  | reload (bytes : BitVec w)
  /-- `release` has seen an underflow. -/
  | reset
  deriving DecidableEq, Repr

/-- A ceiling and the threads that share it. The source does not keep `held`, the bytes that were
allocated and neither released nor registered as idle. -/
structure SharedCeiling (w : Nat) (T : Type) where
  ceiling : MemoryCeiling w
  lock : Option T
  phases : T → CeilingPhase w
  held : Nat

/-- One step of a thread. -/
inductive ThreadAction (w : Nat) (T : Type) where
  /-- The call of `try_alloc`, up to the first load. -/
  | tryAlloc (t : T) (bytes : BitVec w)
  /-- The call of `release`, up to the `fetch_sub`. -/
  | release (t : T) (bytes : BitVec w)
  | registerIdle (t : T) (key : UInt64) (sizeBytes : BitVec w) (lastAccessMs : UInt64)
  | evictIdle (t : T)
  /-- The next step of the call that the thread is in. -/
  | advance (t : T)
  deriving DecidableEq, Repr

/-- The size that is registered under a key. -/
def MemoryCeiling.slotBytes {w : Nat} (c : MemoryCeiling w) (key : UInt64) : Nat :=
  match c.idle.find? fun d => d.key == key with
  | some d => d.sizeBytes.toNat
  | none => 0

namespace SharedCeiling

variable {w : Nat} {T : Type} [DecidableEq T]

/-- A new ceiling, with no thread in a call. -/
def start (T : Type) (budgetBytes : BitVec w) : SharedCeiling w T :=
  ⟨.new budgetBytes, none, fun _ => .ready none, 0⟩

/-- The thread `t` goes on to `phase`. -/
def goto (s : SharedCeiling w T) (t : T) (phase : CeilingPhase w) : SharedCeiling w T :=
  { s with phases := Function.update s.phases t phase }

/-- The next step of the call that `t` is in. -/
def advance (s : SharedCeiling w T) (t : T) : Option (SharedCeiling w T) :=
  match s.phases t with
  | .ready _ => none
  | .loaded bytes current retry =>
    let c := s.ceiling.note (current.uaddOverflow bytes)
    if current + bytes ≤ c.budgetBytes then
      let added := c.note (c.currentBytes.uaddOverflow bytes)
      some ({ s with
        ceiling := { added with currentBytes := c.currentBytes + bytes }
        held := s.held + bytes.toNat }.goto t (.ready (some true)))
    else if retry then some ({ s with ceiling := c }.goto t (.ready (some false)))
    else some ({ s with ceiling := c }.goto t (.lock bytes))
  | .lock bytes =>
    match s.lock with
    | some _ => none
    | none =>
      if s.ceiling.idle.isEmpty then some (s.goto t (.reload bytes))
      else some ({ s with
        lock := some t
        ceiling := { s.ceiling with idle := s.ceiling.sortedIdle } }.goto t (.evicting bytes 0))
  | .evicting bytes freed =>
    if s.ceiling.idle.isEmpty then some ({ s with lock := none }.goto t (.reload bytes))
    else
      let c := s.ceiling.note (s.ceiling.currentUsage.uaddOverflow bytes)
      if c.budgetBytes < c.currentUsage + bytes then
        some ({ s with ceiling := c }.goto t (.evictFirst bytes freed))
      else some ({ s with ceiling := c, lock := none }.goto t (.reload bytes))
  | .evictFirst bytes freed =>
    match s.ceiling.idle with
    -- `remove(0)` would panic, and the condition of the loop excludes this.
    | [] => none
    | evicted :: rest =>
      let prev := s.ceiling.currentBytes
      let actuallyFreed := if prev < evicted.sizeBytes then prev else evicted.sizeBytes
      let c := (s.ceiling.evict evicted.sizeBytes).note (freed.uaddOverflow actuallyFreed)
      some ({ s with ceiling := { c with idle := rest } }.goto t
        (.evicting bytes (freed + actuallyFreed)))
  | .reload bytes => some (s.goto t (.loaded bytes s.ceiling.currentUsage true))
  | .reset =>
    some ({ s with ceiling := { s.ceiling with currentBytes := 0 } }.goto t (.ready none))

/-- The steps of the threads. A call starts when the thread is in no other, and what takes the
lock waits until it is free. -/
def next (s : SharedCeiling w T) : ThreadAction w T → Option (SharedCeiling w T)
  | .tryAlloc t bytes =>
    match s.phases t with
    | .ready _ => some (s.goto t (.loaded bytes s.ceiling.currentUsage false))
    | _ => none
  | .release t bytes =>
    match s.phases t with
    | .ready _ =>
      let prev := s.ceiling.currentBytes
      let c := { s.ceiling with
        currentBytes := prev - bytes
        clamped := s.ceiling.clamped || decide (prev < bytes) }
      some ({ s with ceiling := c, held := s.held - bytes.toNat }.goto t
        (if prev < bytes then .reset else .ready none))
    | _ => none
  | .registerIdle t key sizeBytes lastAccessMs =>
    match s.phases t, s.lock with
    | .ready _, none =>
      some ({ s with
        ceiling := s.ceiling.registerIdle key sizeBytes lastAccessMs
        held := s.held + s.ceiling.slotBytes key - sizeBytes.toNat }.goto t (.ready none))
    | _, _ => none
  | .evictIdle t =>
    match s.phases t, s.lock with
    | .ready _, none => some ({ s with ceiling := s.ceiling.evictIdle.2 }.goto t (.ready none))
    | _, _ => none
  | .advance t => s.advance t

end SharedCeiling

end GrafeoLoro
