import GrafeoLoro.Bridge.GrafeoTx
import GrafeoLoro.Lib.Exec

/-!
# `GrafeoLoro.Bridge.NodeLocks`: the node maps lock by lock

`insert_node` and `remove_node` take the write lock of `node_id_map`, release it, and take the
write lock of `node_key_map`. Here each acquisition is one step. The inbound thread inserts a
key that is unbound, with an id that Grafeo has just created. The outbound worker removes any
key. Each of the two is one thread, so it has one call in progress at most.
-/

set_option autoImplicit false

namespace GrafeoLoro

open GrafeoLoro.Lib

/-- The two node maps and the calls in progress. -/
structure NodeLocks where
  nodeIdMap : HashMap String NodeId
  nodeKeyMap : HashMap NodeId String
  /-- The `insert_node` that has written the forward map only. -/
  inserting : Option (String × NodeId)
  /-- The `remove_node` that has left the forward map only. -/
  removing : Option (String × NodeId)
  /-- The ids that Grafeo has created so far. -/
  created : List NodeId

/-- One lock acquisition. -/
inductive LockStep where
  | insertForward (loroKey : String) (id : NodeId)
  | insertInverse
  | removeForward (loroKey : String)
  | removeInverse

namespace NodeLocks

/-- Empty maps and no call. -/
def init : NodeLocks := ⟨∅, ∅, none, none, []⟩

/-- No call is in progress. -/
def Idle (s : NodeLocks) : Prop := s.inserting = none ∧ s.removing = none

/-- The steps of the two threads. -/
def next (s : NodeLocks) : LockStep → Option NodeLocks
  | .insertForward loroKey id =>
    if s.inserting = none ∧ s.nodeIdMap.lookup loroKey = none ∧ id ∉ s.created then
      some { s with
        nodeIdMap := s.nodeIdMap.insert loroKey id
        inserting := some (loroKey, id)
        created := id :: s.created }
    else none
  | .insertInverse =>
    match s.inserting with
    | some (loroKey, id) =>
      some { s with nodeKeyMap := s.nodeKeyMap.insert id loroKey, inserting := none }
    | none => none
  | .removeForward loroKey =>
    if s.removing = none then
      match s.nodeIdMap.lookup loroKey with
      | some id =>
        some { s with nodeIdMap := s.nodeIdMap.erase loroKey, removing := some (loroKey, id) }
      | none => some s
    else none
  | .removeInverse =>
    match s.removing with
    | some (_, id) => some { s with nodeKeyMap := s.nodeKeyMap.erase id, removing := none }
    | none => none

end NodeLocks

end GrafeoLoro
