import GrafeoLoro.Constants
import GrafeoLoro.Grafeo.Session
import GrafeoLoro.Lib.Exec
import GrafeoLoro.Lib.Search

/-!
# `GrafeoLoro.Schema.TreeMove`: reparenting under snapshot isolation

The model of `sync_tree_move_to_grafeo` (`src/schema/tree.rs`). A move validates its nodes,
returns at once when the parents are equal, opens a transaction, rejects a cycle with a
breadth-first search on the transaction's snapshot, and then deletes the old edge and creates
the new one. `TreeMoves` is any number of such moves at once on one store. A transaction reads
the snapshot of its begin, its writes take effect at its commit, and Grafeo detects no
conflict between direct reads and writes.

`debug` is the `Debug` form of a node id. The probe of the nodes and the begin are one step of
`TreeMoves`, because a move deletes no node.
-/

set_option autoImplicit false

namespace GrafeoLoro

open GrafeoLoro.Lib

section
variable (debug : NodeId → String)

/-- The checks before the transaction. `some` is an early return. -/
def probeTreeMove (nodeId oldParent newParent : NodeId) (store : Store) :
    Option (Except GrafeoLoroError Unit) :=
  if !nodeExists store nodeId then some (.error (.bridge ("unknown node_id: " ++ debug nodeId)))
  else if !nodeExists store newParent then
    some (.error (.bridge ("unknown new_parent: " ++ debug newParent)))
  else if oldParent = newParent then some (.ok ())
  else none

/-- `would_create_cycle_in_tx`: a search upward from the new parent, along incoming edges. A
round of the search visits one node, and only sources of edges are ever queued. -/
def wouldCreateCycleInTx (session : Store) (nodeId newParent : NodeId) : Bool :=
  nodeId == newParent ||
    search (fun cur => (getNeighborsIncoming session cur).map Prod.fst) nodeId
      (session.edges.entries.length + 2) [newParent] [newParent]

/-- The edge from the old parent, if the session sees one: the first match among its outgoing
`CHILD` edges. -/
def oldParentEdge (session : Store) (oldParent nodeId : NodeId) : Option EdgeId :=
  ((getNeighborsOutgoingByType session oldParent treeEdgeLabel).find? fun e =>
    e.1 == nodeId).map Prod.snd

/-- The writes of a move: delete the old edge, if one was found, and create the new one. -/
def reparent (oldEdge : Option EdgeId) (nodeId newParent : NodeId) (store : Store) : Store :=
  let store := match oldEdge with
    | some eid => (deleteEdge eid store).2
    | none => store
  (createEdge newParent nodeId treeEdgeLabel store).2

/-- `sync_tree_move_to_grafeo`, run alone. -/
def syncTreeMoveToGrafeo (fault : Nat → Bool) (nodeId oldParent newParent : NodeId)
    (store : Store) : SessionResult Unit :=
  match probeTreeMove debug nodeId oldParent newParent store with
  | some res => (res, store)
  | none =>
    match call fault store () id with
    | (.error e, store) => (.error e, store)
    | (.ok (), session) =>
      if wouldCreateCycleInTx session nodeId newParent then
        (.error (.treeMoveCreatesCycle nodeId newParent), session)
      else
        let written := reparent (oldParentEdge session oldParent nodeId) nodeId newParent session
        match prepareCommit fault written with
        | (.error e, after) => (.error e, Store.rollback session after)
        | (.ok (), prepared) =>
          match commit fault prepared with
          | (.error e, after) => (.error e, Store.rollback session after)
          | (.ok (), committed) => (.ok (), committed)

end

/-- Where one move is. -/
inductive MovePhase where
  | begun
  /-- The cycle check has passed. -/
  | checked
  | finished (res : Except GrafeoLoroError Unit)

/-- One move with the snapshot of its transaction. -/
structure MoveTx where
  nodeId : NodeId
  oldParent : NodeId
  newParent : NodeId
  snapshot : Store
  phase : MovePhase

/-- The committed store and the moves so far. -/
structure TreeMoves where
  committed : Store
  moves : List MoveTx

/-- One step of one move. -/
inductive TreeMoveAction where
  /-- A call: the probe, and the begin of the transaction. -/
  | begin (nodeId oldParent newParent : NodeId)
  | check (i : Nat)
  | commit (i : Nat)
  /-- A begin, prepare or commit that fails. -/
  | fail (i : Nat)

namespace TreeMoves

/-- No move yet. -/
def init (store : Store) : TreeMoves := ⟨store, []⟩

/-- The move `i` is in the phase `phase` from now on. -/
def setPhase (s : TreeMoves) (i : Nat) (m : MoveTx) (phase : MovePhase) : TreeMoves :=
  { s with moves := s.moves.set i { m with phase } }

/-- The steps of the moves. -/
def next (debug : NodeId → String) (s : TreeMoves) : TreeMoveAction → Option TreeMoves
  | .begin nodeId oldParent newParent =>
    let phase := match probeTreeMove debug nodeId oldParent newParent s.committed with
      | some res => .finished res
      | none => .begun
    some { s with moves := s.moves ++ [⟨nodeId, oldParent, newParent, s.committed, phase⟩] }
  | .check i =>
    match s.moves[i]? with
    | some m =>
      match m.phase with
      | .begun =>
        if wouldCreateCycleInTx m.snapshot m.nodeId m.newParent then
          some (s.setPhase i m
            (.finished (.error (.treeMoveCreatesCycle m.nodeId m.newParent))))
        else some (s.setPhase i m .checked)
      | _ => none
    | none => none
  | .commit i =>
    match s.moves[i]? with
    | some m =>
      match m.phase with
      | .checked =>
        let committed := reparent (oldParentEdge m.snapshot m.oldParent m.nodeId) m.nodeId
          m.newParent s.committed
        some { s.setPhase i m (.finished (.ok ())) with committed }
      | _ => none
    | none => none
  | .fail i =>
    match s.moves[i]? with
    | some m =>
      match m.phase with
      | .finished _ => none
      | _ => some (s.setPhase i m (.finished (.error .grafeo)))
    | none => none

end TreeMoves

end GrafeoLoro
