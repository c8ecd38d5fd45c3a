import GrafeoLoro.Bridge.ChangeEvent
import GrafeoLoro.Lib.Exec

/-!
# `GrafeoLoro.Bridge.TwoWay`: both directions with changes on their way

The document and the store have users of their own. A commit of the document goes through the
Loro subscriber (`SyncEngine::init_loro_subscriber`), and its ops wait until the batcher applies
them with `apply_loro_op`. A commit of Grafeo goes through the CDC poller, and its events wait
until the outbound worker applies them with `apply_change_event_to_loro` (`src/bridge/`). Both
queues are first in, first out.

The users write entries of the root map `V`, and nodes. No Grafeo call and no Loro call fails.
The commits of the bridge itself make no new ops and no new events: the origin filter and the
epoch filter drop them.
-/

set_option autoImplicit false

namespace GrafeoLoro

open GrafeoLoro.Lib

/-- The document, the store with the id maps, and the changes on their way. -/
structure TwoWay where
  doc : LoroDoc
  bridge : Bridge
  /-- The ops that the subscriber sent and the batcher has not applied. -/
  inbound : List LoroOp
  /-- The events that the poller sent and the outbound worker has not applied. -/
  outbound : List (ChangeEvent EntityChange)

/-- One step: a commit of a user, or the next change of a queue. -/
inductive TwoWayAction where
  | loroWrite (key : String) (m : Table String LoroValue)
  | loroDelete (key : String)
  | grafeoCreate (epoch : EpochId) (labels : List String) (props : Table String Value)
  | grafeoSet (epoch : EpochId) (id : NodeId) (p : String) (v : Value)
  | grafeoDelete (epoch : EpochId) (id : NodeId)
  /-- The batcher applies the next op. -/
  | inbound
  /-- The outbound worker applies the next event. -/
  | outbound

/-- The event of a change of a node. -/
def nodeEvent (epoch : EpochId) (id : NodeId) (kind : ChangeKind)
    (after : Option (Table String Value)) : ChangeEvent EntityChange :=
  ⟨epoch, ⟨.node id, kind, after, none, none, none⟩⟩

namespace TwoWay

/-- An empty document and an empty bridge. -/
def init : TwoWay := ⟨⟨∅, ∅⟩, Bridge.empty, [], []⟩

/-- A commit that changes one entry of `V`, with the ops of its event. -/
def loroCommit (key : String) (updated : Option ValueOrContainer) (s : TwoWay) : TwoWay :=
  { s with
    doc := { s.doc with
      vertices := match updated with
        | some entry => s.doc.vertices.insert key entry
        | none => s.doc.vertices.erase key }
    inbound := s.inbound ++ translateDiffEvent (vertexEvent "" key updated) }

/-- A commit of a Grafeo session, with its event. -/
def grafeoCommit (store : Store) (event : ChangeEvent EntityChange) (s : TwoWay) : TwoWay :=
  { s with bridge := { s.bridge with store := store }, outbound := s.outbound ++ [event] }

/-- The steps of the users and of the two workers. -/
def next (s : TwoWay) : TwoWayAction → Option TwoWay
  | .loroWrite key m =>
    some (s.loroCommit key (some (.value (.map (m.entries.map fun e => (e.1, e.2))))))
  | .loroDelete key => if key ∈ s.doc.vertices then some (s.loroCommit key none) else none
  | .grafeoCreate epoch labels props =>
    let store := s.bridge.store
    some (s.grafeoCommit (store.addNode labels props.entries)
      (nodeEvent epoch store.nextNode .create (some props)))
  | .grafeoSet epoch id p v =>
    if nodeExists s.bridge.store id then
      some (s.grafeoCommit (s.bridge.store.putNodeProperty id p v)
        (nodeEvent epoch id .update (some (AList.singleton p v))))
    else none
  | .grafeoDelete epoch id =>
    if nodeExists s.bridge.store id then
      some (s.grafeoCommit (deleteNode id s.bridge.store).2 (nodeEvent epoch id .delete none))
    else none
  | .inbound =>
    match s.inbound with
    | op :: rest =>
      some { s with bridge := (applyLoroOp (fun _ => false) op s.bridge).2, inbound := rest }
    | [] => none
  | .outbound =>
    match s.outbound with
    | event :: rest =>
      let result := applyChangeEventToLoro false event s.doc s.bridge.maps
      some { s with
        doc := result.2.1
        bridge := ⟨s.bridge.store, result.2.2⟩
        outbound := rest }
    | [] => none

end TwoWay

end GrafeoLoro
