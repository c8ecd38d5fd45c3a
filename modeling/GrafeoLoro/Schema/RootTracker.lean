import GrafeoLoro.Schema.CycleGuard

/-!
# `GrafeoLoro.Schema.RootTracker`: the incremental root set

The model of `RootTracker` (`src/schema/mod.rs`). The tracker keeps the set of the nodes with an
incoming edge and the set of the roots, and a hook for each mutation updates both.

`TrackedGraph` is a tracker beside the graph that its hooks mirror. `TreeRoots` is a tracker
beside a `CycleGuard`, with every tree mutation applied to both.
-/

set_option autoImplicit false

namespace GrafeoLoro

open GrafeoLoro.Lib

/-- `RootTracker`. -/
structure RootTracker where
  hasParent : Finset String
  roots : Finset String
  deriving DecidableEq

namespace RootTracker

/-- `RootTracker::new`. -/
def new : RootTracker := ⟨∅, ∅⟩

/-- `register_node`. -/
def registerNode (tracker : RootTracker) (node : String) : RootTracker :=
  if node ∈ tracker.hasParent then tracker
  else { tracker with roots := insert node tracker.roots }

/-- `unregister_node`. -/
def unregisterNode (tracker : RootTracker) (node : String) : RootTracker :=
  { roots := tracker.roots.erase node, hasParent := tracker.hasParent.erase node }

/-- `on_edge_inserted`. -/
def onEdgeInserted (tracker : RootTracker) (child _parent : String) : RootTracker :=
  { hasParent := insert child tracker.hasParent, roots := tracker.roots.erase child }

/-- `on_edge_removed`: the child becomes a root, whether it was ever registered or not. -/
def onEdgeRemoved (tracker : RootTracker) (child _parent : String) : RootTracker :=
  { hasParent := tracker.hasParent.erase child, roots := insert child tracker.roots }

/-- `is_root`. -/
def isRoot (tracker : RootTracker) (node : String) : Bool := decide (node ∈ tracker.roots)

end RootTracker

/-! ### A tracker beside a graph -/

/-- A tracker, the nodes that are registered now, and the live incoming edge of each child. -/
structure TrackedGraph where
  tracker : RootTracker
  registered : Finset String
  liveParent : HashMap String String
  deriving DecidableEq

/-- A call of a hook. -/
inductive TrackerCall where
  | registerNode (node : String)
  | unregisterNode (node : String)
  | onEdgeInserted (child parent : String)
  | onEdgeRemoved (child parent : String)

namespace TrackedGraph

/-- No node and no edge. -/
def init : TrackedGraph := ⟨.new, ∅, ∅⟩

/-- The calls that mirror a graph. An edge can be inserted where the child has no live one, and
removed while it is live, whether its ends are registered or not. -/
def next (s : TrackedGraph) : TrackerCall → Option TrackedGraph
  | .registerNode node =>
    some { s with
      tracker := s.tracker.registerNode node
      registered := insert node s.registered }
  | .unregisterNode node =>
    some { s with
      tracker := s.tracker.unregisterNode node
      registered := s.registered.erase node }
  | .onEdgeInserted child parent =>
    if s.liveParent.lookup child = none then
      some { s with
        tracker := s.tracker.onEdgeInserted child parent
        liveParent := s.liveParent.insert child parent }
    else none
  | .onEdgeRemoved child parent =>
    if s.liveParent.lookup child = some parent then
      some { s with
        tracker := s.tracker.onEdgeRemoved child parent
        liveParent := s.liveParent.erase child }
    else none

end TrackedGraph

/-! ### A tracker beside a guard -/

/-- A guard and a tracker, the nodes that are registered with the tracker, and those that have
taken part in a successful `apply_move`. -/
structure TreeRoots where
  guard : CycleGuard
  tracker : RootTracker
  registered : Finset String
  moved : Finset String
  deriving DecidableEq

/-- A tree mutation, or the registration of a node. -/
inductive TreeRootsAction where
  | register (node : String)
  | applyMove (fuel : Nat) (node newParent : String)
  | detach (node : String)

namespace TreeRoots

/-- No node. -/
def init : TreeRoots := ⟨.new, .new, ∅, ∅⟩

/-- The tracker after the node's edge from its old parent, if there was one, was removed. -/
def edgeRemoved (s : TreeRoots) (node : String) : RootTracker :=
  match s.guard.parentOf.lookup node with
  | some old => s.tracker.onEdgeRemoved node old
  | none => s.tracker

/-- A mutation is applied to the guard, and its edges are mirrored to the tracker. A move that the
guard rejects changes no edge. -/
def next (s : TreeRoots) : TreeRootsAction → Option TreeRoots
  | .register node =>
    some { s with
      tracker := s.tracker.registerNode node
      registered := insert node s.registered }
  | .applyMove fuel node newParent =>
    if node ∈ s.registered ∧ newParent ∈ s.registered then
      match s.guard.applyMove fuel node newParent with
      | none => none
      | some (.error _, guard) => some { s with guard }
      | some (.ok (), guard) =>
        some { s with
          guard
          tracker := (s.edgeRemoved node).onEdgeInserted node newParent
          moved := insert node (insert newParent s.moved) }
    else none
  | .detach node =>
    some { s with guard := s.guard.detach node, tracker := s.edgeRemoved node }

end TreeRoots

end GrafeoLoro
