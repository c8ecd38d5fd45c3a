import GrafeoLoro.Bridge.EpochChannel
import GrafeoLoro.Bridge.SyncEngine
import GrafeoLoro.Bridge.GrafeoTx

/-!
# `GrafeoLoro.Bridge.ChangeEvent`: from Grafeo events to Loro

`apply_change_event_to_loro` of `src/bridge/sync_engine.rs`. It writes one change event of
Grafeo into the root maps `V` and `E` of the document, and it keeps the id maps in step.

`LoroDoc` is what the function sees of a document: the entries of the two root maps. A child
container of an entry stays where it is, and an insert over the entry makes it unreachable.
`fails` tells whether Loro refuses the write of the event, and a refused write changes
nothing.
-/

set_option autoImplicit false

namespace GrafeoLoro

open GrafeoLoro.Lib

/-- `grafeo::cdc::EntityId`. -/
inductive EntityId where
  | node (id : NodeId)
  | edge (id : EdgeId)
  | triple
  | other

/-- `grafeo::cdc::ChangeKind`. -/
inductive ChangeKind where
  | create | update | delete | other
  deriving DecidableEq

/-- What a change event says about its entity. An update of an edge has no endpoints. -/
structure EntityChange where
  entityId : EntityId
  kind : ChangeKind
  after : Option (Table String Value)
  srcId : Option NodeId
  dstId : Option NodeId
  edgeType : Option String

/-- The root maps `V` and `E` of a document. -/
structure LoroDoc where
  vertices : HashMap String ValueOrContainer
  edges : HashMap String ValueOrContainer

/-- The properties that a write starts from: the entries of a plain map, and none when the
entry is anything else. -/
def currentProperties : Option ValueOrContainer → Table String LoroValue
  | some (.value (.map m)) => insertEach ∅ (m.map fun e => ⟨e.1, e.2⟩)
  | _ => ∅

/-- The value that a write stores: the properties of the event over the current ones. -/
def mergeAfter (stored : Option ValueOrContainer) (after : Option (Table String Value)) :
    ValueOrContainer :=
  let changed := mapValues grafeoValueToLval (after.getD ∅)
  let merged := insertEach (currentProperties stored) changed.entries
  .value (.map (merged.entries.map fun e => (e.1, e.2)))

/-- `lookup_edge_endpoints`: the edge key of a change that names its endpoints, when both are
bound. -/
def lookupEdgeEndpoints (change : EntityChange) (maps : BridgeMaps) : Option EdgeKey :=
  match change.srcId, change.dstId, change.edgeType with
  | some srcId, some dstId, some label =>
    match maps.nodeKeyMap.lookup srcId, maps.nodeKeyMap.lookup dstId with
    | some srcKey, some dstKey => some (srcKey, dstKey, label)
    | _, _ => none
  | _, _, _ => none

/-- The result of the function, the document and the id maps after it. -/
abbrev ChangeResult : Type := Except GrafeoLoroError Unit × LoroDoc × BridgeMaps

section
variable (fails : Bool)

/-- The read-modify-write of an entry of `V`. -/
def writeVertex (key : String) (change : EntityChange) (doc : LoroDoc) (maps : BridgeMaps) :
    ChangeResult :=
  if fails then (.error .loro, doc, maps)
  else
    let entry := mergeAfter (doc.vertices.lookup key) change.after
    (.ok (), { doc with vertices := doc.vertices.insert key entry }, maps)

/-- The read-modify-write of an entry of `E`. `bound` are the id maps after it. -/
def writeEdge (key : EdgeKey) (change : EntityChange) (doc : LoroDoc)
    (maps bound : BridgeMaps) : ChangeResult :=
  if fails then (.error .loro, doc, maps)
  else
    let loroKey := encodeEdgeKey key
    let entry := mergeAfter (doc.edges.lookup loroKey) change.after
    (.ok (), { doc with edges := doc.edges.insert loroKey entry }, bound)

/-- The arm of a node create or update: an unbound node is skipped. -/
def applyNodeWrite (id : NodeId) (change : EntityChange) (doc : LoroDoc) (maps : BridgeMaps) :
    ChangeResult :=
  match maps.nodeKeyMap.lookup id with
  | some key => writeVertex fails key change doc maps
  | none => (.ok (), doc, maps)

/-- The arm of a node delete: the entry of `V` goes, and the binding with it. The result of
the delete is ignored. -/
def applyNodeDelete (id : NodeId) (doc : LoroDoc) (maps : BridgeMaps) : ChangeResult :=
  match maps.nodeKeyMap.lookup id with
  | some key =>
    let doc := if fails then doc else { doc with vertices := doc.vertices.erase key }
    (.ok (), doc, (maps.removeNode key).2)
  | none => (.ok (), doc, maps)

/-- The arm of an edge create: the key comes from the endpoints, and the edge is bound. -/
def applyEdgeCreate (id : EdgeId) (change : EntityChange) (doc : LoroDoc)
    (maps : BridgeMaps) : ChangeResult :=
  match lookupEdgeEndpoints change maps with
  | some key => writeEdge fails key change doc maps (maps.insertEdge key id)
  | none => (.ok (), doc, maps)

/-- The arm of an edge update: the key comes from the binding. -/
def applyEdgeUpdate (id : EdgeId) (change : EntityChange) (doc : LoroDoc)
    (maps : BridgeMaps) : ChangeResult :=
  match maps.edgeKeyMap.lookup id with
  | some key => writeEdge fails key change doc maps maps
  | none => (.ok (), doc, maps)

/-- The arm of an edge delete: the binding goes first, and the entry of `E` with it. -/
def applyEdgeDelete (id : EdgeId) (doc : LoroDoc) (maps : BridgeMaps) : ChangeResult :=
  match maps.removeEdgeById id with
  | (some key, maps) =>
    let doc := if fails then doc else { doc with edges := doc.edges.erase (encodeEdgeKey key) }
    (.ok (), doc, maps)
  | (none, maps) => (.ok (), doc, maps)

/-- `apply_change_event_to_loro`. -/
def applyChangeEventToLoro (event : ChangeEvent EntityChange) (doc : LoroDoc)
    (maps : BridgeMaps) : ChangeResult :=
  match event.payload.entityId, event.payload.kind with
  | .node id, .create | .node id, .update => applyNodeWrite fails id event.payload doc maps
  | .node id, .delete => applyNodeDelete fails id doc maps
  | .edge id, .create => applyEdgeCreate fails id event.payload doc maps
  | .edge id, .update => applyEdgeUpdate fails id event.payload doc maps
  | .edge id, .delete => applyEdgeDelete fails id doc maps
  | _, _ => (.ok (), doc, maps)

end

end GrafeoLoro
