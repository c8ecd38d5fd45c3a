import Mathlib.Data.List.Sort

/-!
# `GrafeoLoro.Runtime.MemoryCeiling`: the memory budget and its idle documents

The model of `MemoryCeiling` (`src/runtime/mod.rs`), for calls one after the other. A `usize` is a
`BitVec w`, with any width `w`. The atomic `fetch_add` and `fetch_sub` wrap around, and so do
`current + bytes` and `freed +=` in a build without overflow checks. In a build with them the
latter two panic.

The source does not keep `wrapped` and `clamped`. The first says whether an addition or an eviction
has wrapped around so far. The second says whether a `release` has taken the counter below zero,
which the source notices and repairs.
-/

set_option autoImplicit false

namespace GrafeoLoro

/-- `IdleDoc`. -/
structure IdleDoc (w : Nat) where
  key : UInt64
  sizeBytes : BitVec w
  lastAccessMs : UInt64
  deriving DecidableEq, Repr

/-- `MemoryCeiling`. -/
structure MemoryCeiling (w : Nat) where
  budgetBytes : BitVec w
  currentBytes : BitVec w
  idle : List (IdleDoc w)
  wrapped : Bool
  clamped : Bool
  deriving DecidableEq, Repr

namespace MemoryCeiling

variable {w : Nat}

/-- `MemoryCeiling::new`. -/
def new (budgetBytes : BitVec w) : MemoryCeiling w := ⟨budgetBytes, 0, [], false, false⟩

/-- `current_usage`. -/
def currentUsage (c : MemoryCeiling w) : BitVec w := c.currentBytes

/-- One addition or subtraction more, which may have wrapped around. -/
def note (c : MemoryCeiling w) (overflow : Bool) : MemoryCeiling w :=
  { c with wrapped := c.wrapped || overflow }

/-- The idle documents, the oldest first: `sort_by_key` keeps the order of equal keys. -/
def sortedIdle (c : MemoryCeiling w) : List (IdleDoc w) :=
  c.idle.insertionSort fun d d' => d.lastAccessMs ≤ d'.lastAccessMs

/-- `try_alloc_inner`. -/
def tryAllocInner (bytes : BitVec w) (c : MemoryCeiling w) : Bool × MemoryCeiling w :=
  let current := c.currentUsage
  let c := c.note (current.uaddOverflow bytes)
  if current + bytes ≤ c.budgetBytes then
    (true, { c with currentBytes := c.currentBytes + bytes })
  else (false, c)

/-- `fetch_sub` of an evicted size. -/
def evict (c : MemoryCeiling w) (sizeBytes : BitVec w) : MemoryCeiling w :=
  { c.note (c.currentBytes.usubOverflow sizeBytes) with
    currentBytes := c.currentBytes - sizeBytes }

/-- The loop of `evict_to_fit`, over the documents that are still idle. -/
def evictLoop (bytes : BitVec w) :
    List (IdleDoc w) → BitVec w → MemoryCeiling w → BitVec w × MemoryCeiling w
  | [], freed, c => (freed, { c with idle := [] })
  | evicted :: rest, freed, c =>
    let checked := c.note (c.currentUsage.uaddOverflow bytes)
    if c.budgetBytes < c.currentUsage + bytes then
      let prev := checked.currentBytes
      let actuallyFreed := if prev < evicted.sizeBytes then prev else evicted.sizeBytes
      evictLoop bytes rest (freed + actuallyFreed)
        ((checked.evict evicted.sizeBytes).note (freed.uaddOverflow actuallyFreed))
    else (freed, { checked with idle := evicted :: rest })

/-- `evict_to_fit`: the bytes it freed. -/
def evictToFit (bytes : BitVec w) (c : MemoryCeiling w) : BitVec w × MemoryCeiling w :=
  if c.idle.isEmpty then (0, c) else evictLoop bytes c.sortedIdle 0 c

/-- `try_alloc`. -/
def tryAlloc (bytes : BitVec w) (c : MemoryCeiling w) : Bool × MemoryCeiling w :=
  match c.tryAllocInner bytes with
  | (true, c) => (true, c)
  | (false, c) => (c.evictToFit bytes).2.tryAllocInner bytes

/-- `release`: an underflow resets the counter to 0. -/
def release (bytes : BitVec w) (c : MemoryCeiling w) : MemoryCeiling w :=
  let prev := c.currentBytes
  let c := { c with currentBytes := prev - bytes }
  if prev < bytes then { c with currentBytes := 0, clamped := true } else c

/-- `register_idle`: the first slot with the key is updated, or there is a new one. -/
def registerIdle (key : UInt64) (sizeBytes : BitVec w) (lastAccessMs : UInt64)
    (c : MemoryCeiling w) : MemoryCeiling w :=
  let doc : IdleDoc w := ⟨key, sizeBytes, lastAccessMs⟩
  match c.idle.findIdx? fun d => d.key == key with
  | some i => { c with idle := c.idle.set i doc }
  | none => { c with idle := c.idle ++ [doc] }

/-- `evict_idle`: the bytes it freed. -/
def evictIdle (c : MemoryCeiling w) : BitVec w × MemoryCeiling w :=
  match c.sortedIdle with
  | [] => (0, c)
  | evicted :: rest =>
    let prev := c.currentBytes
    (if prev < evicted.sizeBytes then prev else evicted.sizeBytes,
      { c.evict evicted.sizeBytes with idle := rest })

end MemoryCeiling

/-- A call that changes a ceiling. -/
inductive CeilingCall (w : Nat) where
  | tryAlloc (bytes : BitVec w)
  | release (bytes : BitVec w)
  | registerIdle (key : UInt64) (sizeBytes : BitVec w) (lastAccessMs : UInt64)
  | evictIdle
  deriving DecidableEq, Repr

/-- The ceiling after a call. -/
def MemoryCeiling.next {w : Nat} (c : MemoryCeiling w) : CeilingCall w → Option (MemoryCeiling w)
  | .tryAlloc bytes => some (c.tryAlloc bytes).2
  | .release bytes => some (c.release bytes)
  | .registerIdle key sizeBytes lastAccessMs => some (c.registerIdle key sizeBytes lastAccessMs)
  | .evictIdle => some c.evictIdle.2

end GrafeoLoro
