import GrafeoLoro.Lib.Bytes
import GrafeoLoro.Lib.Exec
import GrafeoLoro.Lib.Maps
import GrafeoLoro.Types.Events
import Mathlib.Algebra.Group.Nat.Defs

/-!
# `GrafeoLoro.Ffi.BatcherRegistry`: the batcher slots behind the FFI

The model of `batcher_register`, `batcher_enqueue`, `batcher_flush` and `batcher_on_flush`
(`src/ffi/mod.rs`). Any number of threads call them. One step is one section that no other thread
can interleave with: `NEXT_HANDLE.fetch_add`, the insert of the new slot, a whole `batcher_enqueue`
(it holds the registry lock to its end), the drain of a `batcher_flush`, and its callbacks.

`bincode` is a parameter: the op of some bytes, or the text of its error. A `usize` has 64 bits.
A step that panics is `none`. That includes a `Vec` or a `HashMap` of more than `isize::MAX`
elements, and more calls in progress than that, since each of them has a stack.
-/

set_option autoImplicit false

namespace GrafeoLoro

open GrafeoLoro.Lib

/-- `isize::MAX`. -/
def isizeMax : Nat := 2 ^ 63 - 1

/-- The statics of the registry, and the calls in progress. `Cb` are the callbacks. -/
structure BatcherRegistry (Cb : Type) where
  /-- `BATCHER_REGISTRY`: the pending ops of each slot. -/
  registry : Option (HashMap UInt64 (List LoroOp))
  /-- `NEXT_HANDLE`. -/
  nextHandle : UInt64
  /-- `FLUSH_CALLBACKS`. -/
  flushCallbacks : List Cb
  /-- The `batcher_register` calls that have their id and not yet their slot. -/
  registering : List UInt64
  /-- The `batcher_flush` calls that have drained their slot and not yet fired the callbacks. -/
  flushing : List (UInt64 × List LoroOp)
  /-- Every call of a callback, with its payload. -/
  fired : List (Cb × List UInt8)

/-- One section of a call. -/
inductive BatcherAction (Cb : Type) where
  /-- `batcher_register`, the `fetch_add`. -/
  | registerFetch
  /-- `batcher_register`, the insert of the call at this place. -/
  | registerInsert (i : Nat)
  | enqueue (handle : UInt64) (opBytes : List UInt8)
  /-- `batcher_flush`, the drain. -/
  | flushDrain (handle : UInt64)
  /-- `batcher_flush`, the callbacks of the call at this place. -/
  | flushFire (i : Nat)
  /-- `batcher_on_flush`. -/
  | onFlush (callback : Cb)

/-- The payload of a flush: the epoch, which is zero, and the number of ops. -/
def flushPayload (opCount : UInt64) : List UInt8 := u64ToBe 0 ++ u64ToBe opCount

namespace BatcherRegistry

variable {Cb : Type}

/-- The statics at the start of the program. -/
def init : BatcherRegistry Cb := ⟨none, 0, [], [], [], []⟩

/-- The slots that are registered. -/
def slots (s : BatcherRegistry Cb) : HashMap UInt64 (List LoroOp) := s.registry.getD ∅

/-- The lookup of a slot, with the errors of `batcher_enqueue` and `batcher_flush`. -/
def slot (handle : UInt64) (s : BatcherRegistry Cb) : Except String (List LoroOp) :=
  match s.registry with
  | none => .error "batcher registry not initialised"
  | some map =>
    match map.lookup handle with
    | none => .error s!"unknown BatcherHandle: {handle}"
    | some pending => .ok pending

/-- The slot with other pending ops. -/
def putSlot (handle : UInt64) (pending : List LoroOp) (s : BatcherRegistry Cb) :
    BatcherRegistry Cb :=
  { s with registry := some (s.slots.insert handle pending) }

/-- `batcher_enqueue`. -/
def batcherEnqueue (decode : List UInt8 → Except String LoroOp) (handle : UInt64)
    (opBytes : List UInt8) (s : BatcherRegistry Cb) : Except String (BatcherRegistry Cb) :=
  match decode opBytes with
  | .error e => .error s!"bincode decode LoroOp: {e}"
  | .ok op => do
    let pending ← s.slot handle
    return s.putSlot handle (pending ++ [op])

/-- The first block of `batcher_flush`. -/
def drainSlot (handle : UInt64) (s : BatcherRegistry Cb) : Except String (BatcherRegistry Cb) := do
  let pending ← s.slot handle
  return { s.putSlot handle [] with flushing := s.flushing ++ [(handle, pending)] }

/-- The steps of all threads. A call that returns an error is a step too. -/
def next (decode : List UInt8 → Except String LoroOp) (s : BatcherRegistry Cb) :
    BatcherAction Cb → Option (BatcherRegistry Cb)
  | .registerFetch =>
    if s.registering.length < isizeMax then
      some { s with
        nextHandle := s.nextHandle + 1
        registering := s.registering ++ [s.nextHandle] }
    else none
  | .registerInsert i =>
    match s.registering[i]? with
    | some id =>
      if s.slots.keys.card < isizeMax then
        some { s.putSlot id [] with registering := s.registering.eraseIdx i }
      else none
    | none => none
  | .enqueue handle opBytes =>
    match s.batcherEnqueue decode handle opBytes with
    | .ok t =>
      -- the `push` panics when the `Vec` cannot grow
      if ((t.slots.lookup handle).getD []).length ≤ isizeMax then some t else none
    | .error _ => some s
  | .flushDrain handle =>
    match s.drainSlot handle with
    | .ok t => some t
    | .error _ => some s
  | .flushFire i =>
    match s.flushing[i]? with
    | some (_, drained) =>
      let payload := flushPayload (UInt64.ofNat drained.length)
      some { s with
        flushing := s.flushing.eraseIdx i
        fired := s.fired ++ s.flushCallbacks.map fun cb => (cb, payload) }
    | none => none
  | .onFlush callback => some { s with flushCallbacks := s.flushCallbacks ++ [callback] }

end BatcherRegistry

end GrafeoLoro
