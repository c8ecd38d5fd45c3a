import GrafeoLoro.Constants
import GrafeoLoro.Grafeo.Session
import GrafeoLoro.Lib.Inverse
import GrafeoLoro.Types.Events

/-!
# `GrafeoLoro.Bridge.GrafeoTx`: the id maps and `apply_loro_op`

The model of `src/bridge/grafeo_tx.rs`. `BridgeMaps` holds the forward and inverse id maps.
`applyLoroOp` applies one op to a session and to the maps. A `Bridge` is the pair of the
two. Every function returns the bridge next to its result, on an error too: the maps are
shared state, and an error of a later op does not undo an earlier write.
`validateTextBijection` is the runtime check of the node maps.
-/

set_option autoImplicit false

namespace GrafeoLoro

open GrafeoLoro.Lib

/-- The four id maps of the bridge. -/
@[ext] structure BridgeMaps where
  nodeIdMap : HashMap String NodeId
  nodeKeyMap : HashMap NodeId String
  edgeIdMap : HashMap EdgeKey EdgeId
  edgeKeyMap : HashMap EdgeId EdgeKey

namespace BridgeMaps

/-- Fresh empty maps. -/
def new : BridgeMaps := ⟨∅, ∅, ∅, ∅⟩

/-- Record a node binding in both directions. A prior binding of either side is
overwritten. -/
def insertNode (maps : BridgeMaps) (loroKey : String) (id : NodeId) : BridgeMaps :=
  { maps with
      nodeIdMap := maps.nodeIdMap.insert loroKey id
      nodeKeyMap := maps.nodeKeyMap.insert id loroKey }

/-- Remove a node binding by its key. -/
def removeNode (maps : BridgeMaps) (loroKey : String) : Option NodeId × BridgeMaps :=
  match maps.nodeIdMap.lookup loroKey with
  | none => (none, maps)
  | some id =>
    (some id,
      { maps with
          nodeIdMap := maps.nodeIdMap.erase loroKey
          nodeKeyMap := maps.nodeKeyMap.erase id })

/-- Record an edge binding in both directions. -/
def insertEdge (maps : BridgeMaps) (key : EdgeKey) (id : EdgeId) : BridgeMaps :=
  { maps with
      edgeIdMap := maps.edgeIdMap.insert key id
      edgeKeyMap := maps.edgeKeyMap.insert id key }

/-- Remove an edge binding by its key. -/
def removeEdge (maps : BridgeMaps) (key : EdgeKey) : Option EdgeId × BridgeMaps :=
  match maps.edgeIdMap.lookup key with
  | none => (none, maps)
  | some id =>
    (some id,
      { maps with
          edgeIdMap := maps.edgeIdMap.erase key
          edgeKeyMap := maps.edgeKeyMap.erase id })

/-- Remove an edge binding by its id. -/
def removeEdgeById (maps : BridgeMaps) (id : EdgeId) : Option EdgeKey × BridgeMaps :=
  match maps.edgeKeyMap.lookup id with
  | none => (none, maps)
  | some key =>
    (some key,
      { maps with
          edgeKeyMap := maps.edgeKeyMap.erase id
          edgeIdMap := maps.edgeIdMap.erase key })

end BridgeMaps

/-- The store of a session together with the shared id maps. -/
structure Bridge where
  store : Store
  maps : BridgeMaps

/-- Empty store and empty maps. -/
def Bridge.empty : Bridge := ⟨Store.empty, BridgeMaps.new⟩

/-- The result of a bridge function together with the bridge after it. -/
abbrev BridgeResult : Type := Except GrafeoLoroError Unit × Bridge

/-- The properties of an op, converted for Grafeo. -/
def grafeoProps (properties : List (Σ _ : String, GraphValue)) : List (Σ _ : String, Value) :=
  properties.map fun e => ⟨e.1, gvalToGrafeoValue e.2⟩

/-- The loop that writes the properties of an op one by one. `set` is the session call.
The first error ends the loop. -/
def setProperties (set : String → Value → Store → SessionResult Unit) :
    List (Σ _ : String, GraphValue) → Store → SessionResult Unit
  | [], s => (.ok (), s)
  | e :: rest, s =>
    match set e.1 (gvalToGrafeoValue e.2) s with
    | (.ok _, s') => setProperties set rest s'
    | (.error err, s') => (.error err, s')

section
variable (fault : Nat → Bool)

/-- `apply_upsert_node`. On a hit, the properties are set on the bound node. On a miss, a
node is created and bound. -/
def applyUpsertNode (loroKey : String) (labels : List String)
    (properties : Table String GraphValue) (b : Bridge) : BridgeResult :=
  match b.maps.nodeIdMap.lookup loroKey with
  | some id =>
    let (res, store) := setProperties (setNodeProperty fault id) properties.entries b.store
    (res, { b with store })
  | none =>
    match createNodeWithProps fault labels (grafeoProps properties.entries) b.store with
    | (.ok id, store) => (.ok (), ⟨store, b.maps.insertNode loroKey id⟩)
    | (.error e, store) => (.error e, { b with store })

/-- The text of the error for an edge op with an unbound endpoint. -/
def unknownNodeKeys (srcKey dstKey : String) : String :=
  "unknown node key(s): src=" ++ debugStr srcKey ++ " dst=" ++ debugStr dstKey

/-- `apply_upsert_edge`. Both endpoints must be bound. On a hit, the properties are set on
the bound edge. On a miss, an edge is created and bound. -/
def applyUpsertEdge (srcKey dstKey label : String) (properties : Table String GraphValue)
    (b : Bridge) : BridgeResult :=
  match b.maps.nodeIdMap.lookup srcKey, b.maps.nodeIdMap.lookup dstKey with
  | some srcId, some dstId =>
    match b.maps.edgeIdMap.lookup (srcKey, dstKey, label) with
    | some eid =>
      let (res, store) := setProperties (setEdgeProperty fault eid) properties.entries b.store
      (res, { b with store })
    | none =>
      match createEdgeWithProps fault srcId dstId label (grafeoProps properties.entries)
          b.store with
      | (.ok eid, store) => (.ok (), ⟨store, b.maps.insertEdge (srcKey, dstKey, label) eid⟩)
      | (.error e, store) => (.error e, { b with store })
  | _, _ => (.error (.bridge (unknownNodeKeys srcKey dstKey)), b)

/-- The `DeleteNode` arm: a missing key is a no-op. -/
def applyDeleteNode (loroKey : String) (b : Bridge) : Bridge :=
  match b.maps.removeNode loroKey with
  | (some id, maps) => ⟨(deleteNode id b.store).2, maps⟩
  | (none, _) => b

/-- The `DeleteEdge` arm: a missing key is a no-op. -/
def applyDeleteEdge (key : EdgeKey) (b : Bridge) : Bridge :=
  match b.maps.removeEdge key with
  | (some id, maps) => ⟨(deleteEdge id b.store).2, maps⟩
  | (none, _) => b

/-- `apply_tree_move`. The op is a no-op unless the node and the new parent are bound. It
deletes the bound edge from the old parent, and creates an edge from the new parent unless
one is bound. -/
def applyTreeMove (nodeKey oldParentKey newParentKey : String) (b : Bridge) : Bridge :=
  match b.maps.nodeIdMap.lookup nodeKey, b.maps.nodeIdMap.lookup newParentKey with
  | some nodeId, some newParentId =>
    let b := applyDeleteEdge (oldParentKey, nodeKey, treeEdgeLabel) b
    match b.maps.edgeIdMap.lookup (newParentKey, nodeKey, treeEdgeLabel) with
    | some _ => b
    | none =>
      let (eid, store) := createEdge newParentId nodeId treeEdgeLabel b.store
      ⟨store, b.maps.insertEdge (newParentKey, nodeKey, treeEdgeLabel) eid⟩
  | _, _ => b

/-- `apply_loro_op`: apply one op to the session and to the maps. -/
def applyLoroOp (op : LoroOp) (b : Bridge) : BridgeResult :=
  match op with
  | .upsertNode loroKey labels properties => applyUpsertNode fault loroKey labels properties b
  | .upsertEdge srcKey dstKey label properties =>
    applyUpsertEdge fault srcKey dstKey label properties b
  | .deleteNode loroKey => (.ok (), applyDeleteNode loroKey b)
  | .deleteEdge srcKey dstKey label => (.ok (), applyDeleteEdge (srcKey, dstKey, label) b)
  | .treeMove nodeKey oldParentKey newParentKey =>
    (.ok (), applyTreeMove nodeKey oldParentKey newParentKey b)

/-- Ops applied one after the other. An op that fails leaves what it did, and the next op
follows. -/
def runOps : List LoroOp → Bridge → Bridge
  | [], b => b
  | op :: rest, b => runOps rest (applyLoroOp fault op b).2

end

/-! ### The runtime check of the node maps -/

/-- `BijectionError`. -/
inductive BijectionError where
  | missingInverse (loroKey : String) (id : NodeId)
  | missingForward (loroKey : String) (id : NodeId)
  | duplicateId (id : NodeId) (keyA keyB : String)
  | duplicateKey (loroKey : String) (idA idB : NodeId)

/-- The loop of check 1: the inverse map sends the id of every forward entry back. -/
def checkForward (inverse : HashMap NodeId String) :
    List (Σ _ : String, NodeId) → Except BijectionError Unit
  | [] => .ok ()
  | ⟨loroKey, id⟩ :: rest =>
    match inverse.lookup id with
    | some invKey =>
      if invKey = loroKey then checkForward inverse rest
      else .error (.duplicateId id loroKey invKey)
    | none => .error (.missingInverse loroKey id)

/-- The loop of check 2: the forward map sends the key of every inverse entry back. -/
def checkInverse (forward : HashMap String NodeId) :
    List (Σ _ : NodeId, String) → Except BijectionError Unit
  | [] => .ok ()
  | ⟨id, loroKey⟩ :: rest =>
    match forward.lookup loroKey with
    | some fwdId =>
      if fwdId = id then checkInverse forward rest
      else .error (.duplicateKey loroKey id fwdId)
    | none => .error (.missingForward loroKey id)

/-- `validate_text_bijection`, on the two node maps in the orders in which they are
iterated. -/
def validateTextBijection (forward : Table String NodeId) (inverse : Table NodeId String) :
    Except BijectionError Unit :=
  match checkForward inverse.toFinmap forward.entries with
  | .error e => .error e
  | .ok () => checkInverse forward.toFinmap inverse.entries

end GrafeoLoro
