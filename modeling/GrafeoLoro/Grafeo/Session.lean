import GrafeoLoro.Lib.Maps
import GrafeoLoro.Types.Values

/-!
# `GrafeoLoro.Grafeo.Session`: the execution layer as the bridge uses it

Grafeo is a third-party store. The bridge reads and writes it through a `Session`, and this
module states what the bridge relies on:

* a create call hands out an id that no earlier call handed out (`nextNode`, `nextEdge`);
* `deleteNode` leaves no live edge at the node;
* a property write to an id that does not exist changes nothing and does not fail;
* a session that is dropped before its commit undoes its writes (`Store.rollback`). The ids
  it handed out stay used.

That `deleteNode` takes the edges at the node with it is an assumption: `grafeo-engine` 0.5.42
keeps them in the store until they are deleted on their own. What the modules over this one say
about live edges holds for a store that meets it.

A call that returns a `Result` can fail. `fault n` says whether the `n`-th such call fails,
so a theorem for every `fault` covers every pattern of failures. `create_edge`,
`delete_node` and `delete_edge` do not return a `Result` and never fail.
-/

set_option autoImplicit false

namespace GrafeoLoro

open GrafeoLoro.Lib

/-- `grafeo::NodeId`. -/
abbrev NodeId : Type := Nat

/-- `grafeo::EdgeId`. -/
abbrev EdgeId : Type := Nat

/-- A node of the store. -/
structure Node where
  labels : List String
  properties : HashMap String Value

/-- An edge of the store. -/
structure Edge where
  src : NodeId
  dst : NodeId
  label : String
  properties : HashMap String Value

/-- The store as one session sees it. `calls` counts the fallible calls so far. -/
structure Store where
  nodes : Table NodeId Node
  edges : Table EdgeId Edge
  nextNode : NodeId
  nextEdge : EdgeId
  calls : Nat

namespace Store

/-- The empty store. -/
def empty : Store := ⟨∅, ∅, 0, 0, 0⟩

/-- One more fallible call was made. -/
def tick (s : Store) : Store := { s with calls := s.calls + 1 }

/-- The store with a new node under the next id. -/
def addNode (s : Store) (labels : List String) (props : List (Σ _ : String, Value)) : Store :=
  { s with
      nodes := s.nodes.insert s.nextNode ⟨labels, insertAll ∅ props⟩
      nextNode := s.nextNode + 1 }

/-- The store with a new edge under the next id. -/
def addEdge (s : Store) (src dst : NodeId) (label : String)
    (props : List (Σ _ : String, Value)) : Store :=
  { s with
      edges := s.edges.insert s.nextEdge ⟨src, dst, label, insertAll ∅ props⟩
      nextEdge := s.nextEdge + 1 }

/-- The store without the node `id` and without the edges at it. `grafeo-engine` 0.5.42 keeps
these edges, so this is the assumption that no live edge is left at a deleted node. -/
def dropNode (s : Store) (id : NodeId) : Store :=
  { s with
      nodes := s.nodes.erase id
      edges := filterEntries (fun e => e.2.src != id && e.2.dst != id) s.edges }

/-- The store without the edge `id`. -/
def dropEdge (s : Store) (id : EdgeId) : Store := { s with edges := s.edges.erase id }

/-- The store with one property of the node `id` written. -/
def putNodeProperty (s : Store) (id : NodeId) (k : String) (v : Value) : Store :=
  match s.nodes.lookup id with
  | some n => { s with nodes := s.nodes.insert id { n with properties := n.properties.insert k v } }
  | none => s

/-- The store with one property of the edge `id` written. -/
def putEdgeProperty (s : Store) (id : EdgeId) (k : String) (v : Value) : Store :=
  match s.edges.lookup id with
  | some e => { s with edges := s.edges.insert id { e with properties := e.properties.insert k v } }
  | none => s

/-- The store after the session that led from `before` to `after` was dropped. -/
def rollback (before after : Store) : Store :=
  { after with nodes := before.nodes, edges := before.edges }

end Store

/-- The result of a fallible call together with the store after it. -/
abbrev SessionResult (α : Type) : Type := Except GrafeoLoroError α × Store

section
variable (fault : Nat → Bool)

/-- A fallible call that returns `a` and moves the store by `f` unless it fails. -/
def call {α : Type} (s : Store) (a : α) (f : Store → Store) : SessionResult α :=
  if fault s.calls then (.error .grafeo, s.tick) else (.ok a, f s.tick)

/-- `Session::create_node_with_props`. -/
def createNodeWithProps (labels : List String) (props : List (Σ _ : String, Value))
    (s : Store) : SessionResult NodeId :=
  call fault s s.nextNode fun s => s.addNode labels props

/-- `Session::create_edge_with_props`. -/
def createEdgeWithProps (src dst : NodeId) (label : String)
    (props : List (Σ _ : String, Value)) (s : Store) : SessionResult EdgeId :=
  call fault s s.nextEdge fun s => s.addEdge src dst label props

/-- `Session::set_node_property`. -/
def setNodeProperty (id : NodeId) (k : String) (v : Value) (s : Store) : SessionResult Unit :=
  call fault s () fun s => s.putNodeProperty id k v

/-- `Session::set_edge_property`. -/
def setEdgeProperty (id : EdgeId) (k : String) (v : Value) (s : Store) : SessionResult Unit :=
  call fault s () fun s => s.putEdgeProperty id k v

/-- `Session::prepare_commit`. -/
def prepareCommit (s : Store) : SessionResult Unit := call fault s () id

/-- `PreparedCommit::commit`. -/
def commit (s : Store) : SessionResult Unit := call fault s () id

end

/-- `Session::create_edge`. -/
def createEdge (src dst : NodeId) (label : String) (s : Store) : EdgeId × Store :=
  (s.nextEdge, s.addEdge src dst label [])

/-- `Session::delete_node`: whether the node existed, and the store without it and, as assumed,
without the edges at it. -/
def deleteNode (id : NodeId) (s : Store) : Bool × Store :=
  (decide (id ∈ s.nodes), s.dropNode id)

/-- `Session::delete_edge`: whether the edge existed, and the store without it. -/
def deleteEdge (id : EdgeId) (s : Store) : Bool × Store :=
  (decide (id ∈ s.edges), s.dropEdge id)

/-- `Session::node_exists`. -/
def nodeExists (s : Store) (id : NodeId) : Bool := decide (id ∈ s.nodes)

/-- `Session::get_neighbors_incoming`: the sources of the edges that end at `id`, edges of
every label included. -/
def getNeighborsIncoming (s : Store) (id : NodeId) : List (NodeId × EdgeId) :=
  (s.edges.entries.filter fun e => e.2.dst == id).map fun e => (e.2.src, e.1)

/-- `Session::get_neighbors_outgoing_by_type`: the targets of the edges with label `label`
that start at `id`. -/
def getNeighborsOutgoingByType (s : Store) (id : NodeId) (label : String) :
    List (NodeId × EdgeId) :=
  (s.edges.entries.filter fun e => e.2.src == id && e.2.label == label).map
    fun e => (e.2.dst, e.1)

end GrafeoLoro
