import GrafeoLoro.Bridge.ChangeEvent
import GrafeoLoro.Lib.Exec

/-!
# `GrafeoLoro.Bridge.SyncRun`: both directions on one set of id maps

The inbound thread calls `apply_loro_op` and the outbound worker calls
`apply_change_event_to_loro`. They share the id maps. `SyncState` is the bridge with the
document, and a run takes calls of the two functions in any order, each as one step. Between
two calls, other sessions can leave any store and other writers any document.
-/

set_option autoImplicit false

namespace GrafeoLoro

open GrafeoLoro.Lib

/-- The bridge and the document. -/
structure SyncState where
  bridge : Bridge
  doc : LoroDoc

/-- One step of a run. -/
inductive SyncAction where
  | inbound (fault : Nat → Bool) (op : LoroOp)
  | outbound (fails : Bool) (event : ChangeEvent EntityChange)
  /-- Other sessions of Grafeo and other writers of the document, a rollback included. -/
  | outside (store : Store) (doc : LoroDoc)

namespace SyncState

/-- Any store and any document, with empty id maps. -/
def init (store : Store) (doc : LoroDoc) : SyncState := ⟨⟨store, BridgeMaps.new⟩, doc⟩

/-- The id maps. -/
def maps (s : SyncState) : BridgeMaps := s.bridge.maps

/-- The state after an inbound op. -/
def inbound (fault : Nat → Bool) (op : LoroOp) (s : SyncState) : SyncState :=
  { s with bridge := (applyLoroOp fault op s.bridge).2 }

/-- The state after an outbound event. -/
def outbound (fails : Bool) (event : ChangeEvent EntityChange) (s : SyncState) : SyncState :=
  let result := applyChangeEventToLoro fails event s.doc s.maps
  ⟨⟨s.bridge.store, result.2.2⟩, result.2.1⟩

/-- The steps of a run. -/
def next (s : SyncState) : SyncAction → Option SyncState
  | .inbound fault op => some (s.inbound fault op)
  | .outbound fails event => some (s.outbound fails event)
  | .outside store doc => some ⟨⟨store, s.maps⟩, doc⟩

end SyncState

end GrafeoLoro
