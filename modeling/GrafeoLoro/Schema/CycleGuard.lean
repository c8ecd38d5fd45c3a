import GrafeoLoro.Lib.Chain
import GrafeoLoro.Types.Values

/-!
# `GrafeoLoro.Schema.CycleGuard`: the native parent-pointer map

The model of `CycleGuard` (`src/schema/tree.rs`). The guard holds one parent for each node, under
string keys. `would_create_cycle` walks up from the new parent in a `loop` without a bound and
without a visited set. Here `fuel` bounds its rounds, and `none` says that they were not enough.

`CycleGuard.next` is a guard under a sequence of calls. A call of `apply_move` is a step when it
returns, and its `fuel` says how long it was given.
-/

set_option autoImplicit false

namespace GrafeoLoro

open GrafeoLoro.Lib

/-- `CycleError` of the schema layer. -/
structure CycleError where
  node : String
  newParent : String
  deriving DecidableEq, Repr

/-- `CycleGuard`: the parent of each node. No entry is a root. -/
structure CycleGuard where
  parentOf : HashMap String String
  deriving DecidableEq

namespace CycleGuard

/-- `CycleGuard::new`. -/
def new : CycleGuard := ⟨∅⟩

/-- `would_create_cycle`: a walk up from the new parent, to the node or to a root. -/
def wouldCreateCycle (guard : CycleGuard) (fuel : Nat) (node newParent : String) : Option Bool :=
  if node = newParent then some true
  else climb guard.parentOf.lookup node fuel newParent

/-- `apply_move`: the parent pointer is written if that closes no cycle. -/
def applyMove (guard : CycleGuard) (fuel : Nat) (node newParent : String) :
    Option (Except CycleError Unit × CycleGuard) :=
  match guard.wouldCreateCycle fuel node newParent with
  | none => none
  | some true => some (.error ⟨node, newParent⟩, guard)
  | some false => some (.ok (), ⟨guard.parentOf.insert node newParent⟩)

/-- `record_parent_unchecked`. -/
def recordParentUnchecked (guard : CycleGuard) (node parent : String) : CycleGuard :=
  ⟨guard.parentOf.insert node parent⟩

/-- `detach`: the node is a root again. -/
def detach (guard : CycleGuard) (node : String) : CycleGuard := ⟨guard.parentOf.erase node⟩

/-- The `all_nodes` of `roots`: the two ends of every parent pointer. -/
def allNodes (guard : CycleGuard) : Finset String :=
  (guard.parentOf.entries.map fun e => e.1).toFinset ∪
    (guard.parentOf.entries.map fun e => e.2).toFinset

/-- `roots`: the ends of parent pointers that have no parent. -/
def roots (guard : CycleGuard) : Finset String :=
  guard.allNodes.filter fun n => (guard.parentOf.lookup n).isNone

end CycleGuard

/-- A call that changes a guard. -/
inductive GuardCall where
  | applyMove (fuel : Nat) (node newParent : String)
  | detach (node : String)
  | recordParentUnchecked (node parent : String)

/-- The guard after a call that returns. -/
def CycleGuard.next (guard : CycleGuard) : GuardCall → Option CycleGuard
  | .applyMove fuel node newParent => (guard.applyMove fuel node newParent).map Prod.snd
  | .detach node => some (guard.detach node)
  | .recordParentUnchecked node parent => some (guard.recordParentUnchecked node parent)

end GrafeoLoro
