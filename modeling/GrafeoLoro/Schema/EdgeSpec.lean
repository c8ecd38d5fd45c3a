import GrafeoLoro.Lib.ThreeColor
import GrafeoLoro.Schema.CycleGuard

/-!
# `GrafeoLoro.Schema.EdgeSpec`: the pre-commit check of an edge batch

The model of `validate_acyclic` (`src/schema/edge.rs`). The batch becomes a hash map from each
source to the hash set of its targets, and a depth-first search looks for a cycle. The search
iterates over the hash set of the nodes and, once for each node, over its hash set of targets.
A `SetOrder` is the order of such an iteration, which may be any.

`fuel` bounds the rounds of one search, and `none` says that they were not enough.
-/

set_option autoImplicit false

namespace GrafeoLoro

open GrafeoLoro.Lib

/-- The order in which a hash set is iterated. -/
structure SetOrder (α : Type) where
  iter : Finset α → List α
  nodup : ∀ s, (iter s).Nodup
  mem_iter : ∀ s x, x ∈ iter s ↔ x ∈ s

/-- `EdgeSpec`. The check does not read the label. -/
structure EdgeSpec where
  src : String
  dst : String
  label : String
  deriving DecidableEq, Repr

/-- The loop that builds the adjacency map and the set of the nodes. It rejects a self-loop. -/
def buildAdjacency : List EdgeSpec → HashMap String (Finset String) → Finset String →
    Except CycleError (HashMap String (Finset String) × Finset String)
  | [], adj, nodes => .ok (adj, nodes)
  | e :: edges, adj, nodes =>
    -- The first self-loop ends the loop, before any search.
    if e.src = e.dst then .error ⟨e.dst, e.src⟩
    else
      buildAdjacency edges (adj.insert e.src (insert e.dst ((adj.lookup e.src).getD ∅)))
        (insert e.dst (insert e.src nodes))

/-- The neighbours of a node, in the order of its hash set. -/
def neighbors (order : String → SetOrder String) (adj : HashMap String (Finset String))
    (node : String) : List String :=
  (order node).iter ((adj.lookup node).getD ∅)

/-- `validate_acyclic`. The edge that closes a cycle is reported with its target as the `node` and
its source as the `new_parent`. -/
def validateAcyclic (nodesOrder : SetOrder String) (order : String → SetOrder String) (fuel : Nat)
    (edges : List EdgeSpec) : Option (Except CycleError Unit) :=
  if edges.isEmpty then some (.ok ())
  else
    match buildAdjacency edges ∅ ∅ with
    | .error e => some (.error e)
    | .ok (adj, nodes) =>
      -- The edge goes from the top frame, `cur`, to a gray node, `next`.
      (findBackEdge (neighbors order adj) fuel (nodesOrder.iter nodes) fun _ => .white).map
        fun res => res.mapError fun (cur, next) => ⟨next, cur⟩

end GrafeoLoro
