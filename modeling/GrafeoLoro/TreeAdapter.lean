import GrafeoLoro.Bridge.GrafeoTx
import GrafeoLoro.Lib.Chain
import GrafeoLoro.Lib.Preorder

/-!
# `GrafeoLoro.TreeAdapter`: the tree of the `CHILD` edges

The model of `TreeAdapter` (`src/tree_adapter/mod.rs`). The adapter walks over the id maps of the
bridge and changes nothing: an edit is an op for `apply_loro_op`. Each call of `parent` or
`children` iterates over `edge_id_map`, a hash map.

The walks have no bound of their own. Here `fuel` bounds their rounds, and `none` says that they
were not enough. `debug` is the `Debug` form of a node id.
-/

set_option autoImplicit false

namespace GrafeoLoro

open GrafeoLoro.Lib

/-- `TreeAdapter`: the maps, and the order in which a read for a node meets the keys of
`edge_id_map`. The order is arbitrary, and a walk reads for each node once. -/
structure TreeAdapter where
  maps : BridgeMaps
  edgeKeys : NodeId → List EdgeKey
  nodup : ∀ node, (edgeKeys node).Nodup
  mem_edgeKeys : ∀ node key, key ∈ edgeKeys node ↔ key ∈ maps.edgeIdMap

namespace TreeAdapter

variable (debug : NodeId → String) (t : TreeAdapter)

/-- `node_key`. -/
def nodeKey (node : NodeId) : Except GrafeoLoroError String :=
  match t.maps.nodeKeyMap.lookup node with
  | some loroKey => .ok loroKey
  | none => .error (.bridge s!"unknown node id: {debug node}")

/-- `node_id`. -/
def nodeId (loroKey : String) : Except GrafeoLoroError NodeId :=
  match t.maps.nodeIdMap.lookup loroKey with
  | some id => .ok id
  | none => .error (.bridge ("unknown node key: " ++ debugStr loroKey))

/-- `parent`: the source of the first `CHILD` edge into the node. -/
def parent (node : NodeId) : Except GrafeoLoroError (Option NodeId) :=
  match t.nodeKey debug node with
  | .error e => .error e
  | .ok nodeKey =>
    match (t.edgeKeys node).find? fun (_, dstKey, label) =>
        label == treeEdgeLabel && dstKey == nodeKey with
    -- The `?` after the scan: a source without an id is an error.
    | some (srcKey, _, _) => (t.nodeId srcKey).map some
    | none => .ok none

/-- `children`: the targets of the `CHILD` edges from the node. A target without an id is left
out. -/
def children (node : NodeId) : Except GrafeoLoroError (List NodeId) :=
  match t.nodeKey debug node with
  | .error e => .error e
  | .ok nodeKey =>
    let childKeys := (t.edgeKeys node).filterMap fun (srcKey, dstKey, label) =>
      if label == treeEdgeLabel && srcKey == nodeKey then some dstKey else none
    -- Here a key without an id is no error.
    .ok (childKeys.filterMap fun childKey => (t.nodeId childKey).toOption)

/-- `descendants`: a depth-first search. The children of a node go on the stack in reverse, so the
first one is on top. -/
def descendants (fuel : Nat) (node : NodeId) : Option (List NodeId) :=
  match t.children debug node with
  -- The early return. Later in the walk such a node only has no children.
  | .error _ => some []
  | .ok children =>
    preorder (fun n => (t.children debug n).toOption.getD []) fuel children [node]

/-- `ancestors`: a walk up. It ends at a root, at an error, and before a node that it has met. -/
def ancestors (fuel : Nat) (node : NodeId) : Option (List NodeId) :=
  climbAll (fun n => (t.parent debug n).toOption.join) fuel [node] node

/-- `create_child_op`. The parent is not part of the op. -/
def createChildOp (_parent : NodeId) (childLoroKey label : String) : LoroOp :=
  .upsertNode childLoroKey [label] ∅

/-- `move_op`. -/
def moveOp (nodeLoroKey oldParentLoroKey newParentLoroKey : String) : LoroOp :=
  .treeMove nodeLoroKey oldParentLoroKey newParentLoroKey

/-- `indent_op`: under the previous sibling, which the caller names. -/
def indentOp (nodeLoroKey parentLoroKey previousSiblingLoroKey : String) : LoroOp :=
  moveOp nodeLoroKey parentLoroKey previousSiblingLoroKey

/-- `outdent_op`: under the grandparent, which the caller names. -/
def outdentOp (nodeLoroKey parentLoroKey grandparentLoroKey : String) : LoroOp :=
  moveOp nodeLoroKey parentLoroKey grandparentLoroKey

end TreeAdapter

end GrafeoLoro
