import GrafeoLoro.Bridge.Batcher
import GrafeoLoro.Lib.SingleWalk

/-!
# `GrafeoLoro.Fuzz.Consistency`: oracles of the fuzz target

The loop of the fuzz target `consistency` (`fuzz/fuzz_targets/consistency.rs`). Each op gets a
session of its own and goes through `apply_loro_op`, whose error is ignored. Next to it the target
keeps two sets of live keys, which follow from the op alone. Its checks I1 and I2 compare the sets
with the id maps of the bridge. Its check I14 searches the `CHILD` edges of the store.

The document and the epochs of the target are left out: they play no part in I1 and I2.
-/

set_option autoImplicit false

namespace GrafeoLoro

open GrafeoLoro.Lib

/-- A scalar of a fuzz op. -/
inductive FuzzValue where
  | null
  | bool (b : Bool)
  | i64 (i : Int64)
  | f64 (bits : UInt64)
  | str (s : String)

/-- An op as the fuzzer makes it up. Its properties are a list, and keys may repeat. -/
inductive FuzzOp where
  | upsertNode (loroKey : String) (labels : List String) (properties : List (String × FuzzValue))
  | upsertEdge (srcKey dstKey label : String) (properties : List (String × FuzzValue))
  | deleteNode (loroKey : String)
  | deleteEdge (srcKey dstKey label : String)
  | treeMove (nodeKey oldParentKey newParentKey : String)

/-- `to_graph_value`. -/
def FuzzValue.toGraphValue : FuzzValue → GraphValue
  | .null => .null
  | .bool b => .bool b
  | .i64 i => .integer i
  | .f64 bits => .float bits
  | .str s => .string s

/-- `collect` into a map: the last value of a key wins. -/
def collectProperties (properties : List (String × FuzzValue)) : Table String GraphValue :=
  insertEach ∅ (properties.map fun e => ⟨e.1, e.2.toGraphValue⟩)

/-- `convert_fuzz_op`. -/
def convertFuzzOp : FuzzOp → LoroOp
  | .upsertNode loroKey labels properties =>
    .upsertNode loroKey labels (collectProperties properties)
  | .upsertEdge srcKey dstKey label properties =>
    .upsertEdge srcKey dstKey label (collectProperties properties)
  | .deleteNode loroKey => .deleteNode loroKey
  | .deleteEdge srcKey dstKey label => .deleteEdge srcKey dstKey label
  | .treeMove nodeKey oldParentKey newParentKey => .treeMove nodeKey oldParentKey newParentKey

/-- The bridge and the sets of live keys. -/
structure FuzzState where
  bridge : Bridge
  liveNodeKeys : Finset String
  liveEdgeKeys : Finset EdgeKey
  opCount : Nat

namespace FuzzState

/-- The fresh state of an iteration. -/
def init : FuzzState := ⟨Bridge.empty, ∅, ∅, 0⟩

/-- The live nodes after an op. -/
def mirrorNodes (live : Finset String) : FuzzOp → Finset String
  | .upsertNode loroKey _ _ => insert loroKey live
  | .deleteNode loroKey => live.erase loroKey
  | _ => live

/-- The live edges after an op. -/
def mirrorEdges (live : Finset EdgeKey) : FuzzOp → Finset EdgeKey
  | .upsertEdge srcKey dstKey label _ => insert (srcKey, dstKey, label) live
  | .deleteEdge srcKey dstKey label => live.erase (srcKey, dstKey, label)
  | .treeMove nodeKey oldParentKey newParentKey =>
    insert (newParentKey, nodeKey, treeEdgeLabel)
      (live.erase (oldParentKey, nodeKey, treeEdgeLabel))
  | _ => live

/-- `prepare_commit` and `commit`, if they succeed. Otherwise the dropped session undoes its
writes, and the id maps stay as they are. -/
def commitOrDrop (fault : Nat → Bool) (before : Store) (b : Bridge) : Bridge :=
  match prepareCommit fault b.store with
  | (.error _, store) => dropSession before { b with store }
  | (.ok _, store) =>
    match commit fault store with
    | (.error _, store) => dropSession before { b with store }
    | (.ok _, store) => { b with store }

/-- One round of the loop. A session that cannot begin is a panic. -/
def next (fault : Nat → Bool) (s : FuzzState) (op : FuzzOp) : Option FuzzState :=
  match beginTransaction fault s.bridge.store with
  | (.error _, _) => none
  | (.ok _, store) =>
    let applied := (applyLoroOp fault (convertFuzzOp op) { s.bridge with store }).2
    some {
      bridge := commitOrDrop fault s.bridge.store applied
      liveNodeKeys := mirrorNodes s.liveNodeKeys op
      liveEdgeKeys := mirrorEdges s.liveEdgeKeys op
      opCount := s.opCount + 1 }

/-- `check_i1_tree_state_parity`. -/
def checkI1TreeStateParity (s : FuzzState) : Bool :=
  s.bridge.maps.nodeIdMap.keys = s.liveNodeKeys

/-- `check_i2_edge_state_parity`. -/
def checkI2EdgeStateParity (s : FuzzState) : Bool :=
  s.bridge.maps.edgeIdMap.keys = s.liveEdgeKeys

end FuzzState

/-! ### The check of the tree -/

/-- The children of a node, each with its edge. -/
def childrenOf (store : Store) (node : NodeId) : List (NodeId × EdgeId) :=
  getNeighborsOutgoingByType store node treeEdgeLabel

/-- The search of I14 from one root: whether it ends without a node that it took before. Each node
that it takes but the root is the end of an edge, which bounds its rounds. -/
def searchTree (store : Store) (root : NodeId) : Option Bool :=
  meetsNone (childrenOf store) (store.edges.entries.length + 2) [root] []

/-- `check_i14_tree_move_serializability`. `nodeIds` are the values of `node_id_map` in the order
in which the map is read. A node that is met twice is a panic. -/
def checkI14TreeMoveSerializability (store : Store) : List NodeId → Option Bool
  | [] => some true
  | root :: rest =>
    match searchTree store root with
    | some true => checkI14TreeMoveSerializability store rest
    | res => res

end GrafeoLoro
