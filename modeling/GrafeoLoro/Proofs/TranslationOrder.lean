import GrafeoLoro.Bridge.Batcher
import GrafeoLoro.Lib.Keyed
import GrafeoLoro.Proofs.EdgeHydration

/-!
# `GrafeoLoro.Proofs.TranslationOrder`: the order of the diffs in an event

Loro gives no order to the container diffs of an event, nor to the entries of a map delta. The
translation keeps the order that it finds, and an `UpsertEdge` needs both endpoints to be bound.

A bridge is two `Keyed` stores, its nodes and its edges. An upsert is one write on one of them
(`upsert_sides`), and writes of different keys commute up to the ids that they hand out. So upserts
between bound keys may come in any order (`upserts_perm`).

* `translation_order_iff`: a commit of writes has one result up to ids in every order exactly when
  its edges connect vertices that are bound before it.
* `translation_edge_first`: a commit that writes two vertices and the edge between them fails when
  its diff of `E` comes first.
* `graphOk_runOps`: the consistency that this needs of a bridge holds after every sequence of ops.
-/

set_option autoImplicit false

namespace GrafeoLoro.Proofs

open GrafeoLoro GrafeoLoro.Lib

/-! ### The two sides of a bridge -/

/-- The nodes of a bridge and their bindings. -/
def nodeSide (b : Bridge) : Keyed String Node where
  idOf := fun key => b.maps.nodeIdMap.lookup key
  keyOf := fun id => b.maps.nodeKeyMap.lookup id
  entry := fun id => b.store.nodes.lookup id
  next := b.store.nextNode

/-- The edges of a bridge and their bindings. -/
def edgeSide (b : Bridge) : Keyed EdgeKey Edge where
  idOf := fun key => b.maps.edgeIdMap.lookup key
  keyOf := fun id => b.maps.edgeKeyMap.lookup id
  entry := fun id => b.store.edges.lookup id
  next := b.store.nextEdge

theorem nodeSide_ok {b : Bridge} (hok : BridgeOk b) : (nodeSide b).Ok where
  injective := fun _ _ _ h h' => hok.nodeInverse.key_unique h h'
  used := fun _ _ h => hok.nodeBoundFresh h

theorem edgeSide_ok {b : Bridge} (hok : BridgeOk b) : (edgeSide b).Ok where
  injective := fun _ _ _ h h' => hok.edgeInverse.key_unique h h'
  used := hok.edgeBoundFresh

/-- The write of an `UpsertNode`. -/
def vertexWrite (key : String) (labels : List String) (props : Table String GraphValue) :
    Write String Node where
  key := key
  new := ⟨labels, insertAll ∅ (grafeoProps props.entries)⟩
  change := fun n => { n with properties := insertAll n.properties (grafeoProps props.entries) }

/-- The write of an `UpsertEdge` whose endpoints are bound to `src` and `dst`. -/
def linkWrite (key : EdgeKey) (src dst : NodeId) (props : Table String GraphValue) :
    Write EdgeKey Edge where
  key := key
  new := ⟨src, dst, key.2.2, insertAll ∅ (grafeoProps props.entries)⟩
  change := fun e => { e with properties := insertAll e.properties (grafeoProps props.entries) }

/-- The write of an op on the nodes. -/
def nodeWrite : LoroOp → Option (Write String Node)
  | .upsertNode key labels props => some (vertexWrite key labels props)
  | _ => none

/-- The write of an op on the edges, under these bindings of the nodes. -/
def edgeWrite (idOf : String → Option NodeId) : LoroOp → Option (Write EdgeKey Edge)
  | .upsertEdge srcKey dstKey label props =>
    match idOf srcKey, idOf dstKey with
    | some src, some dst => some (linkWrite (srcKey, dstKey, label) src dst props)
    | _, _ => none
  | _ => none

/-! ### One upsert -/

theorem finmap_insert_update {K V : Type} [DecidableEq K] (m : Finmap fun _ : K => V) (k : K)
    (v : V) : (fun k' => (m.insert k v).lookup k') =
      Function.update (fun k' => m.lookup k') k (some v) := by
  funext k'
  rw [finmap_lookup_insert, Function.update_apply]

theorem alist_insert_update {K V : Type} [DecidableEq K] (m : AList fun _ : K => V) (k : K)
    (v : V) : (fun k' => (m.insert k v).lookup k') =
      Function.update (fun k' => m.lookup k') k (some v) := by
  funext k'
  rw [alist_lookup_insert, Function.update_apply]

section
variable {b : Bridge}

/-- What an `UpsertNode` does to both sides. -/
theorem upsertNode_sides (key : String) (labels : List String) (props : Table String GraphValue) :
    ∃ b', applyLoroOp noFault (.upsertNode key labels props) b = (.ok (), b') ∧
      nodeSide b' = (nodeSide b).write (vertexWrite key labels props) ∧
      edgeSide b' = edgeSide b := by
  cases hkey : (nodeSide b).idOf key with
  | none =>
    -- A new node: both maps and the store get one entry, under the next id.
    refine ⟨_, upsertNode_miss labels props hkey, ?_, rfl⟩
    rw [Keyed.write_miss hkey]
    exact Keyed.ext (finmap_insert_update _ _ _) (finmap_insert_update _ _ _)
      (alist_insert_update _ _ _) rfl
  | some id =>
    -- A bound one: only the properties of its node change.
    have hprops := propsOnly_setNodeProperties noFault id props.entries b.store
    refine ⟨_, upsertNode_hit labels props hkey, ?_, ?_⟩
    · rw [Keyed.write_hit hkey]
      refine Keyed.ext rfl rfl ?_ hprops.nextNode
      funext id'
      exact (lookup_setNodeProperties _ _ _ _).trans
        (Function.update_apply (nodeSide b).entry id _ id').symm
    · refine Keyed.ext rfl rfl ?_ hprops.nextEdge
      funext id'
      exact congrArg (AList.lookup id') (edges_setNodeProperties id props.entries b.store)

/-- What an `UpsertEdge` between bound endpoints does to both sides. -/
theorem upsertEdge_sides {srcKey dstKey : String} {src dst : NodeId} (label : String)
    (props : Table String GraphValue) (hsrc : (nodeSide b).idOf srcKey = some src)
    (hdst : (nodeSide b).idOf dstKey = some dst) :
    ∃ b', applyLoroOp noFault (.upsertEdge srcKey dstKey label props) b = (.ok (), b') ∧
      nodeSide b' = nodeSide b ∧
      edgeSide b' = (edgeSide b).write (linkWrite (srcKey, dstKey, label) src dst props) := by
  cases hkey : (edgeSide b).idOf (srcKey, dstKey, label) with
  | none =>
    refine ⟨_, upsertEdge_miss props hsrc hdst hkey, rfl, ?_⟩
    rw [Keyed.write_miss hkey]
    exact Keyed.ext (finmap_insert_update _ _ _) (finmap_insert_update _ _ _)
      (alist_insert_update _ _ _) rfl
  | some eid =>
    have hprops := propsOnly_setEdgeProperties noFault eid props.entries b.store
    refine ⟨_, upsertEdge_hit props hsrc hdst hkey, ?_, ?_⟩
    · refine Keyed.ext rfl rfl ?_ hprops.nextNode
      funext id'
      exact congrArg (AList.lookup id') (nodes_setEdgeProperties eid props.entries b.store)
    · rw [Keyed.write_hit hkey]
      refine Keyed.ext rfl rfl ?_ hprops.nextEdge
      funext id'
      exact (lookup_setEdgeProperties _ _ _ _).trans
        (Function.update_apply (edgeSide b).entry eid _ id').symm

/-! ### A run of upserts -/

/-- An upsert, of an edge only between keys that are bound. -/
def UpsertBetween (idOf : String → Option NodeId) : LoroOp → Prop
  | .upsertNode _ _ _ => True
  | .upsertEdge srcKey dstKey _ _ => idOf srcKey ≠ none ∧ idOf dstKey ≠ none
  | _ => False

/-- More bindings do not change the write of an edge between bound keys. -/
theorem edgeWrite_of_bound {idOf idOf' : String → Option NodeId}
    (hkeep : ∀ key id, idOf key = some id → idOf' key = some id) {op : LoroOp}
    (h : UpsertBetween idOf op) :
    UpsertBetween idOf' op ∧ edgeWrite idOf' op = edgeWrite idOf op := by
  cases op with
  | upsertNode key labels props => exact ⟨trivial, rfl⟩
  | upsertEdge srcKey dstKey label props =>
    obtain ⟨src, hsrc⟩ := Option.ne_none_iff_exists'.mp h.1
    obtain ⟨dst, hdst⟩ := Option.ne_none_iff_exists'.mp h.2
    have hsrc' := hkeep _ _ hsrc
    have hdst' := hkeep _ _ hdst
    refine ⟨⟨by simp [hsrc'], by simp [hdst']⟩, ?_⟩
    simp only [edgeWrite, hsrc, hdst, hsrc', hdst']
  | _ => exact h.elim

/-- One upsert: it succeeds, it is one write on one of the sides, and it keeps the bindings. -/
theorem upsert_sides {op : LoroOp} (h : UpsertBetween (nodeSide b).idOf op) :
    ∃ b', applyLoroOp noFault op b = (.ok (), b') ∧
      nodeSide b' = (nodeSide b).writeAll (nodeWrite op).toList ∧
      edgeSide b' = (edgeSide b).writeAll (edgeWrite (nodeSide b).idOf op).toList := by
  cases op with
  | upsertNode key labels props => exact upsertNode_sides key labels props
  | upsertEdge srcKey dstKey label props =>
    obtain ⟨src, hsrc⟩ := Option.ne_none_iff_exists'.mp h.1
    obtain ⟨dst, hdst⟩ := Option.ne_none_iff_exists'.mp h.2
    simp only [edgeWrite, hsrc, hdst]
    exact upsertEdge_sides label props hsrc hdst
  | _ => exact h.elim

end

/-- The upserts of a run: they succeed, and they are the writes of both sides. -/
theorem applyEach_sides (ops : List LoroOp) {b : Bridge}
    (h : ∀ op ∈ ops, UpsertBetween (nodeSide b).idOf op) :
    ∃ b', applyEach noFault .ok ops b = (.ok (), b') ∧
      nodeSide b' = (nodeSide b).writeAll (ops.filterMap nodeWrite) ∧
      edgeSide b' = (edgeSide b).writeAll (ops.filterMap (edgeWrite (nodeSide b).idOf)) := by
  induction ops generalizing b with
  | nil => exact ⟨b, rfl, rfl, rfl⟩
  | cons op ops ih =>
    rw [List.forall_mem_cons] at h
    obtain ⟨b₁, hrun, hnodes, hedges⟩ := upsert_sides h.1
    -- The first upsert keeps the bindings, so the rest writes the same edges as before it.
    have hkeep : ∀ key id, (nodeSide b).idOf key = some id → (nodeSide b₁).idOf key = some id := by
      intro key id hkey
      rw [hnodes]
      exact Keyed.idOf_writeAll_of_some _ hkey
    have hbetween : ∀ op ∈ ops, UpsertBetween (nodeSide b₁).idOf op :=
      fun op hop => (edgeWrite_of_bound hkeep (h.2 op hop)).1
    obtain ⟨b', hrest, hnodes', hedges'⟩ := ih hbetween
    have hsame : ops.filterMap (edgeWrite (nodeSide b₁).idOf) =
        ops.filterMap (edgeWrite (nodeSide b).idOf) :=
      List.filterMap_congr fun op hop => (edgeWrite_of_bound hkeep (h.2 op hop)).2
    refine ⟨b', ?_, ?_, ?_⟩
    · simp only [applyEach, hrun, hrest]
    · rw [hnodes', hnodes, Keyed.writeAll_filterMap_cons]
    · rw [hedges', hedges, hsame, Keyed.writeAll_filterMap_cons]

/-! ### Upserts in two orders -/

/-- The bridge `b'` is the bridge `b` under other ids: the bindings, the nodes and the edges are the
same when the node ids and the edge ids are renamed. -/
structure RenamedBy (nodeId : Equiv.Perm NodeId) (edgeId : Equiv.Perm EdgeId) (b b' : Bridge) :
    Prop where
  nodeIdMap : ∀ key, b'.maps.nodeIdMap.lookup key = (b.maps.nodeIdMap.lookup key).map nodeId
  nodeKeyMap : ∀ id, b'.maps.nodeKeyMap.lookup (nodeId id) = b.maps.nodeKeyMap.lookup id
  edgeIdMap : ∀ key, b'.maps.edgeIdMap.lookup key = (b.maps.edgeIdMap.lookup key).map edgeId
  edgeKeyMap : ∀ id, b'.maps.edgeKeyMap.lookup (edgeId id) = b.maps.edgeKeyMap.lookup id
  nodes : ∀ id, b'.store.nodes.lookup (nodeId id) = b.store.nodes.lookup id
  edges : ∀ id, b'.store.edges.lookup (edgeId id) = (b.store.edges.lookup id).map fun e =>
    { e with src := nodeId e.src, dst := nodeId e.dst }

/-- The same bound keys and the same store, up to the ids. -/
def Renamed (b b' : Bridge) : Prop := ∃ nodeId edgeId, RenamedBy nodeId edgeId b b'

/-- A consistent bridge whose edges connect nodes of the store. -/
structure GraphOk (b : Bridge) : Prop extends BridgeOk b where
  edgeEnds : ∀ id e, b.store.edges.lookup id = some e →
    e.src ∈ b.store.nodes ∧ e.dst ∈ b.store.nodes

/-- Every touch keeps the edges between nodes of the store. -/
theorem GraphOk.touch {b b' : Bridge} (h : GraphOk b) (ht : Touch b b') : GraphOk b' := by
  refine ⟨h.toBridgeOk.touch ht, fun eid e he => ?_⟩
  cases ht with
  | props hp =>
    obtain ⟨e', he', hsrc, hdst, -⟩ := hp.lookup_edge he
    rw [hp.mem_nodes, hp.mem_nodes, ← hsrc, ← hdst]
    exact h.edgeEnds eid e' he'
  | bindNode key labels props hkey =>
    obtain ⟨hsrc, hdst⟩ := h.edgeEnds eid e he
    exact ⟨(AList.mem_insert _).mpr (.inr hsrc), (AList.mem_insert _).mpr (.inr hdst)⟩
  | unbindNode key id hkey =>
    obtain ⟨hold, hsrcNe, hdstNe⟩ := BridgeOk.mem_dropNode_edges he
    obtain ⟨hsrc, hdst⟩ := h.edgeEnds eid e hold
    exact ⟨AList.mem_erase.mpr ⟨hsrcNe, hsrc⟩, AList.mem_erase.mpr ⟨hdstNe, hdst⟩⟩
  | @bindEdge store maps srcKey dstKey label src dst props hsrc hdst hkey =>
    change (store.edges.insert store.nextEdge _).lookup eid = some e at he
    rw [alist_lookup_insert] at he
    split at he
    · -- the new edge is between bound nodes
      obtain rfl := Option.some.inj he
      exact ⟨h.nodeLive _ _ hsrc, h.nodeLive _ _ hdst⟩
    · exact h.edgeEnds eid e he
  | @unbindEdge store maps key id hkey =>
    change (store.edges.erase id).lookup eid = some e at he
    rw [alist_lookup_erase] at he
    split at he
    · cases he
    · exact h.edgeEnds eid e he

/-- Every sequence of touches keeps them too. -/
theorem GraphOk.touches {b b' : Bridge} (h : GraphOk b) (ht : Touches b b') : GraphOk b' := by
  induction ht with
  | refl => exact h
  | tail _ hstep ih => exact ih.touch hstep

theorem graphOk_empty : GraphOk Bridge.empty :=
  ⟨bridgeOk_empty, fun _ _ he => by simp [Bridge.empty, Store.empty] at he⟩

/-- Every sequence of ops keeps the edges between nodes of the store, whatever fails. -/
theorem graphOk_runOps (fault : Nat → Bool) (ops : List LoroOp) {b : Bridge} (h : GraphOk b) :
    GraphOk (runOps fault ops b) := by
  induction ops generalizing b with
  | nil => exact h
  | cons op ops ih => exact ih (h.touches (applyLoroOp_touches fault op b))

/-- The key that an upsert writes. -/
def opKey : LoroOp → Option (String ⊕ EdgeKey)
  | .upsertNode key _ _ => some (.inl key)
  | .upsertEdge srcKey dstKey label _ => some (.inr (srcKey, dstKey, label))
  | _ => none

section
variable {b : Bridge} {ops ops' : List LoroOp}

theorem nodup_nodeWrites (h : (ops.filterMap opKey).Nodup) :
    ((ops.filterMap nodeWrite).map Write.key).Nodup := by
  have hkeys : (ops.filterMap nodeWrite).map Write.key
      = (ops.filterMap opKey).filterMap Sum.getLeft? := by
    rw [List.map_filterMap, List.filterMap_filterMap]
    refine List.filterMap_congr fun op _ => ?_
    cases op <;> rfl
  rw [hkeys]
  refine h.filterMap fun x x' key hx hx' => ?_
  rw [Option.mem_def, Sum.getLeft?_eq_some_iff] at hx hx'
  rw [hx, hx']

theorem nodup_edgeWrites {idOf : String → Option NodeId} (hops : ∀ op ∈ ops, UpsertBetween idOf op)
    (h : (ops.filterMap opKey).Nodup) :
    ((ops.filterMap (edgeWrite idOf)).map Write.key).Nodup := by
  have hkeys : (ops.filterMap (edgeWrite idOf)).map Write.key
      = (ops.filterMap opKey).filterMap Sum.getRight? := by
    rw [List.map_filterMap, List.filterMap_filterMap]
    refine List.filterMap_congr fun op hop => ?_
    have hbetween := hops op hop
    cases op with
    | upsertEdge srcKey dstKey label props =>
      obtain ⟨src, hsrc⟩ := Option.ne_none_iff_exists'.mp hbetween.1
      obtain ⟨dst, hdst⟩ := Option.ne_none_iff_exists'.mp hbetween.2
      simp [edgeWrite, hsrc, hdst, opKey, linkWrite]
    | _ => rfl
  rw [hkeys]
  refine h.filterMap fun x x' key hx hx' => ?_
  rw [Option.mem_def, Sum.getRight?_eq_some_iff] at hx hx'
  rw [hx, hx']

/-- The edges after upserts between bound keys connect nodes from before. -/
theorem edgeEnds_writes (hok : GraphOk b) (ops : List LoroOp) :
    ∀ id e,
      ((edgeSide b).writeAll (ops.filterMap (edgeWrite (nodeSide b).idOf))).entry id = some e →
      e.src < b.store.nextNode ∧ e.dst < b.store.nextNode := by
  have hwrite : ∀ w ∈ ops.filterMap (edgeWrite (nodeSide b).idOf), ∃ key src dst props,
      w = linkWrite key src dst props ∧ src < b.store.nextNode ∧ dst < b.store.nextNode := by
    intro w hw
    obtain ⟨op, -, hop⟩ := List.mem_filterMap.mp hw
    cases op with
    | upsertEdge srcKey dstKey label props =>
      rw [edgeWrite] at hop
      split at hop
      · rename_i src dst hsrc hdst
        exact ⟨_, src, dst, props, (Option.some.inj hop).symm, hok.nodeBoundFresh hsrc,
          hok.nodeBoundFresh hdst⟩
      · cases hop
    | _ => cases hop
  refine Keyed.writeAll_entries _ (fun id e he => ?_) (fun w hw => ?_) fun w hw e he => ?_
  · obtain ⟨hsrc, hdst⟩ := hok.edgeEnds id e he
    exact ⟨hok.nodeFresh _ hsrc, hok.nodeFresh _ hdst⟩
  · obtain ⟨key, src, dst, props, rfl, hsrc, hdst⟩ := hwrite w hw
    exact ⟨hsrc, hdst⟩
  · obtain ⟨key, src, dst, props, rfl, -, -⟩ := hwrite w hw
    exact he

/-- Upserts of different keys between bound endpoints, in any two orders: they succeed, and they
leave the same bridge up to ids. -/
theorem upserts_perm (hok : GraphOk b) (hperm : ops.Perm ops')
    (hops : ∀ op ∈ ops, UpsertBetween (nodeSide b).idOf op) (hkeys : (ops.filterMap opKey).Nodup) :
    ∃ after after', applyEach noFault .ok ops b = (.ok (), after) ∧
      applyEach noFault .ok ops' b = (.ok (), after') ∧ Renamed after after' := by
  obtain ⟨after, hrun, hnodes, hedges⟩ := applyEach_sides ops hops
  obtain ⟨after', hrun', hnodes', hedges'⟩ :=
    applyEach_sides ops' fun op hop => hops op (hperm.mem_iff.mpr hop)
  -- The two sides are renamed on their own, each by the ids that its writes hand out.
  obtain ⟨ρ, hρ, hnodeSame⟩ := Keyed.writeAll_perm (hperm.filterMap nodeWrite)
    (nodeSide_ok hok.toBridgeOk) (nodup_nodeWrites hkeys)
  obtain ⟨τ, -, hedgeSame⟩ := Keyed.writeAll_perm (hperm.filterMap (edgeWrite (nodeSide b).idOf))
    (edgeSide_ok hok.toBridgeOk) (nodup_edgeWrites hops hkeys)
  have hends := edgeEnds_writes hok ops
  rw [← hnodes, ← hnodes'] at hnodeSame
  rw [← hedges, ← hedges'] at hedgeSame
  rw [← hedges] at hends
  refine ⟨after, after', hrun, hrun', ρ, τ, ?_⟩
  constructor
  case nodeIdMap => exact fun key => congrFun (congrArg Keyed.idOf hnodeSame) key
  case edgeIdMap => exact fun key => congrFun (congrArg Keyed.idOf hedgeSame) key
  case nodeKeyMap => exact fun id => Keyed.keyOf_of_rename hnodeSame id
  case edgeKeyMap => exact fun id => Keyed.keyOf_of_rename hedgeSame id
  case nodes => exact fun id => Keyed.entry_of_rename hnodeSame id
  case edges =>
    intro id
    refine (Keyed.entry_of_rename hedgeSame id).trans ?_
    show (edgeSide after).entry id = ((edgeSide after).entry id).map _
    cases he : (edgeSide after).entry id with
    | none => rfl
    | some e =>
      -- the endpoints have ids from before, which are not renamed
      obtain ⟨hsrc, hdst⟩ := hends id e he
      rw [Option.map_some, hρ e.src (.inl hsrc), hρ e.dst (.inl hdst)]

end

/-! ### Events in two orders -/

/-- The diffs have the same entries, in any order. -/
def SameDelta : Diff → Diff → Prop
  | .map updated, .map updated' => updated.entries.Perm updated'.entries
  | .other, .other => True
  | _, _ => False

/-- The container diffs are of one container and have the same entries. -/
def SameDiff (cd cd' : ContainerDiff) : Prop :=
  cd'.target = cd.target ∧ SameDelta cd.diff cd'.diff

/-- The event `event'` is `event` with its container diffs, and the entries inside each map delta,
in another order. -/
def Reordered (event event' : DiffEvent) : Prop :=
  event'.origin = event.origin ∧ ∃ diffs, event.events.Perm diffs ∧
    List.Forall₂ SameDiff diffs event'.events

/-- The commit writes this value under a key of the root map `name`. -/
def RootWrites (event : DiffEvent) (name key : String) (voc : ValueOrContainer) : Prop :=
  ∃ containerType updated, ⟨.root name containerType, .map updated⟩ ∈ event.events ∧
    updated.lookup key = some (some voc)

/-- The event of a commit that deletes no vertex and no edge. As in every event, no container comes
twice, and the diff of a map is of a map container. -/
structure WriteCommit (event : DiffEvent) : Prop where
  targets : (event.events.map ContainerDiff.target).Nodup
  maps : ∀ target updated, ⟨target, .map updated⟩ ∈ event.events → target.containerType = .map
  writes : ∀ name containerType updated, ⟨.root name containerType, .map updated⟩ ∈ event.events →
    name = rootVertices ∨ name = rootEdges → ∀ key, updated.lookup key ≠ some none

/-- In every order of the event, its ops succeed one after the other, and they leave the same bound
keys and the same store up to ids. -/
def OrderIndependent (event : DiffEvent) (b : Bridge) : Prop :=
  ∀ event', Reordered event event' → ∃ after after',
    applyEach noFault .ok (translateDiffEvent event) b = (.ok (), after) ∧
    applyEach noFault .ok (translateDiffEvent event') b = (.ok (), after') ∧ Renamed after after'

/-- Every edge that the commit writes connects vertices that are bound before. An edge is an entry
of `E` with a key of three parts and a map of supported values. -/
def EndpointsBound (event : DiffEvent) (b : Bridge) : Prop :=
  ∀ key voc src dst label, RootWrites event rootEdges key voc → edgeProperties voc ≠ none →
    parseEdgeKey key = some (src, dst, label) → src ∈ b.maps.nodeIdMap ∧ dst ∈ b.maps.nodeIdMap

/-- The ops of one container diff, with its entries in another order. -/
theorem translateContainerDiff_perm {cd cd' : ContainerDiff} (h : SameDiff cd cd') :
    (translateContainerDiff cd).Perm (translateContainerDiff cd') := by
  obtain ⟨target, diff⟩ := cd
  obtain ⟨target', diff'⟩ := cd'
  obtain ⟨htarget, hdiff⟩ := h
  obtain rfl : target' = target := htarget
  cases diff with
  | other =>
    cases diff' with
    | other => exact .refl _
    | map updated' => exact hdiff.elim
  | map updated =>
    cases diff' with
    | other => exact hdiff.elim
    | map updated' =>
      have hentries : updated.entries.Perm updated'.entries := hdiff
      cases target' with
      | normal peer counter containerType => exact .refl _
      | root name containerType =>
        simp only [translateContainerDiff]
        split
        · exact hentries.filterMap _
        · split
          · exact hentries.filterMap _
          · exact .refl _

/-- The ops of a reordered event are the ops of the event, in another order. -/
theorem Reordered.translate {event event' : DiffEvent} (h : Reordered event event') :
    (translateDiffEvent event).Perm (translateDiffEvent event') := by
  obtain ⟨-, diffs, hperm, hsame⟩ := h
  have hdiffs : ∀ {l l' : List ContainerDiff}, List.Forall₂ SameDiff l l' →
      (l.flatMap translateContainerDiff).Perm (l'.flatMap translateContainerDiff) := by
    intro l l' hall
    induction hall with
    | nil => exact .refl _
    | cons hcd _ ih =>
      rw [List.flatMap_cons, List.flatMap_cons]
      exact (translateContainerDiff_perm hcd).append ih
  exact (hperm.flatMap_right translateContainerDiff).trans (hdiffs hsame)

/-! ### The ops of an event -/

/-- The op of a written entry of `E`. -/
theorem translateEdge_some {key : String} {voc : ValueOrContainer} {op : LoroOp}
    (h : translateEdge key (some voc) = some op) : ∃ src dst label props,
      parseEdgeKey key = some (src, dst, label) ∧ edgeProperties voc ≠ none ∧
        op = .upsertEdge src dst label props := by
  rw [translateEdge] at h
  cases hparse : parseEdgeKey key with
  | none => simp [hparse] at h
  | some parts =>
    obtain ⟨src, dst, label⟩ := parts
    rw [hparse] at h
    cases voc with
    | container id => cases h
    | value v =>
      cases v with
      | map m =>
        obtain ⟨props, hprops, rfl⟩ := Option.map_eq_some_iff.mp h
        exact ⟨src, dst, label, props, rfl, by simp [edgeProperties, hprops], rfl⟩
      | _ => cases h

/-- A written edge has an op. -/
theorem exists_translateEdge {key src dst label : String} {voc : ValueOrContainer}
    (hparse : parseEdgeKey key = some (src, dst, label)) (hprops : edgeProperties voc ≠ none) :
    ∃ props, translateEdge key (some voc) = some (.upsertEdge src dst label props) := by
  cases voc with
  | container id => exact absurd rfl hprops
  | value v =>
    cases v with
    | map m =>
      cases htrans : translateProperties m ∅ with
      | none => simp [edgeProperties, htrans] at hprops
      | some props => exact ⟨props, by simp [translateEdge, hparse, htrans]⟩
    | _ => exact absurd rfl hprops

/-- The op of a written vertex. -/
theorem translateVertex_some {key : String} {voc : ValueOrContainer} {op : LoroOp}
    (h : translateVertex key (some voc) = some op) : ∃ props, op = .upsertNode key [] props := by
  cases voc with
  | container id => cases h
  | value v =>
    cases v with
    | map m =>
      obtain ⟨props, -, rfl⟩ := Option.map_eq_some_iff.mp h
      exact ⟨props, rfl⟩
    | _ => cases h

/-- The key that the op of a vertex writes. -/
theorem opKey_translateVertex {key : String} {val : Option ValueOrContainer}
    {x : String ⊕ EdgeKey} (h : (translateVertex key val).bind opKey = some x) : x = .inl key := by
  obtain ⟨op, hop, hkey⟩ := Option.bind_eq_some_iff.mp h
  cases val with
  | none =>
    obtain rfl := Option.some.inj hop
    cases hkey
  | some voc =>
    obtain ⟨props, rfl⟩ := translateVertex_some hop
    exact (Option.some.inj hkey).symm

/-- The key that the op of an edge writes. -/
theorem opKey_translateEdge {key : String} {val : Option ValueOrContainer} {x : String ⊕ EdgeKey}
    (h : (translateEdge key val).bind opKey = some x) :
    ∃ edgeKey, x = .inr edgeKey ∧ parseEdgeKey key = some edgeKey := by
  obtain ⟨op, hop, hkey⟩ := Option.bind_eq_some_iff.mp h
  cases val with
  | none =>
    rw [translateEdge] at hop
    split at hop
    · cases hop
    · obtain rfl := Option.some.inj hop
      cases hkey
  | some voc =>
    obtain ⟨src, dst, label, props, hparse, -, rfl⟩ := translateEdge_some hop
    exact ⟨(src, dst, label), (Option.some.inj hkey).symm, hparse⟩

/-- What entries with different keys are mapped to is different when it tells the key. -/
theorem nodup_filterMap_of_keys {V X : Type} {entries : List (Σ _ : String, V)}
    (h : entries.NodupKeys) {f : (Σ _ : String, V) → Option X}
    (hf : ∀ e e' x, f e = some x → f e' = some x → e.1 = e'.1) : (entries.filterMap f).Nodup := by
  rw [List.Nodup, List.pairwise_filterMap]
  refine (List.nodupKeys_iff_pairwise.mp h).imp fun {e e'} hne x hx x' hx' heq => ?_
  exact hne (hf e e' x hx (hx'.trans (congrArg some heq.symm)))

/-- The container of the key that an op writes. -/
def keyTarget : String ⊕ EdgeKey → ContainerID
  | .inl _ => .root rootVertices .map
  | .inr _ => .root rootEdges .map

section
variable {event : DiffEvent} {b : Bridge}

/-- An op of a write commit is the upsert of a written entry of `V` or of `E`. -/
theorem WriteCommit.mem_translate (h : WriteCommit event) {op : LoroOp} {cd : ContainerDiff}
    (hcd : cd ∈ event.events) (hop : op ∈ translateContainerDiff cd) :
    (∃ key props, op = .upsertNode key [] props ∧ cd.target = .root rootVertices .map) ∨
      ∃ key voc src dst label props, RootWrites event rootEdges key voc ∧
        parseEdgeKey key = some (src, dst, label) ∧ edgeProperties voc ≠ none ∧
        op = .upsertEdge src dst label props ∧ cd.target = .root rootEdges .map := by
  obtain ⟨target, diff⟩ := cd
  match target, diff with
  | .root name containerType, .map updated =>
    obtain rfl : containerType = .map := h.maps _ _ hcd
    have hwrites := h.writes name .map updated hcd
    have hvalue : ∀ {key val}, name = rootVertices ∨ name = rootEdges →
        ⟨key, val⟩ ∈ updated.entries → ∃ voc, val = some voc := by
      intro key val hname hentry
      cases val with
      | none => exact absurd (AList.mem_lookup_iff.mpr hentry) (hwrites hname key)
      | some voc => exact ⟨voc, rfl⟩
    simp only [translateContainerDiff] at hop
    split at hop
    · rename_i hname
      obtain ⟨⟨key, val⟩, hentry, htrans⟩ := List.mem_filterMap.mp hop
      obtain ⟨voc, rfl⟩ := hvalue (.inl hname) hentry
      obtain ⟨props, rfl⟩ := translateVertex_some htrans
      exact .inl ⟨key, props, rfl, by rw [hname]⟩
    · split at hop
      · rename_i hname
        obtain ⟨⟨key, val⟩, hentry, htrans⟩ := List.mem_filterMap.mp hop
        obtain ⟨voc, rfl⟩ := hvalue (.inr hname) hentry
        obtain ⟨src, dst, label, props, hparse, hprops, rfl⟩ := translateEdge_some htrans
        rw [hname] at hcd ⊢
        exact .inr ⟨key, voc, src, dst, label, props,
          ⟨.map, updated, hcd, AList.mem_lookup_iff.mpr hentry⟩, hparse, hprops, rfl, rfl⟩
      · cases hop
  | .root name containerType, .other => cases hop
  | .normal peer counter containerType, _ => cases hop

/-- The ops of a write commit are upserts between bound keys when its edges connect bound
vertices. -/
theorem WriteCommit.upsertBetween (h : WriteCommit event) (hbound : EndpointsBound event b) :
    ∀ op ∈ translateDiffEvent event, UpsertBetween (nodeSide b).idOf op := by
  intro op hop
  obtain ⟨cd, hcd, hop⟩ := List.mem_flatMap.mp hop
  rcases h.mem_translate hcd hop with ⟨key, props, rfl, -⟩ |
    ⟨key, voc, src, dst, label, props, hwrites, hparse, hprops, rfl, -⟩
  · trivial
  · obtain ⟨hsrc, hdst⟩ := hbound key voc src dst label hwrites hprops hparse
    exact ⟨Option.isSome_iff_ne_none.mp (Finmap.lookup_isSome.mpr hsrc),
      Option.isSome_iff_ne_none.mp (Finmap.lookup_isSome.mpr hdst)⟩

/-- The ops of one container diff write different keys. -/
theorem nodup_keys_containerDiff (cd : ContainerDiff) :
    ((translateContainerDiff cd).filterMap opKey).Nodup := by
  obtain ⟨target, diff⟩ := cd
  match target, diff with
  | .root name containerType, .map updated =>
    simp only [translateContainerDiff]
    split
    · rw [List.filterMap_filterMap]
      refine nodup_filterMap_of_keys updated.nodupKeys fun e e' x hx hx' => ?_
      have hkey := opKey_translateVertex hx
      rw [opKey_translateVertex hx'] at hkey
      exact (Sum.inl.inj hkey).symm
    · split
      · rw [List.filterMap_filterMap]
        refine nodup_filterMap_of_keys updated.nodupKeys fun e e' x hx hx' => ?_
        obtain ⟨key, rfl, hparse⟩ := opKey_translateEdge hx
        obtain ⟨key', hkey, hparse'⟩ := opKey_translateEdge hx'
        obtain rfl := Sum.inr.inj hkey
        -- the text of an edge key is the encoding of its parts
        exact (encode_parse hparse).symm.trans (encode_parse hparse')
      · exact List.nodup_nil
  | .root name containerType, .other => exact List.nodup_nil
  | .normal peer counter containerType, _ => exact List.nodup_nil

/-- The ops of a write commit write different keys. -/
theorem WriteCommit.nodup_keys (h : WriteCommit event) :
    ((translateDiffEvent event).filterMap opKey).Nodup := by
  have htarget : ∀ cd ∈ event.events, ∀ x ∈ (translateContainerDiff cd).filterMap opKey,
      cd.target = keyTarget x := by
    intro cd hcd x hx
    obtain ⟨op, hop, hkey⟩ := List.mem_filterMap.mp hx
    rcases h.mem_translate hcd hop with ⟨key, props, rfl, htarget⟩ |
      ⟨key, voc, src, dst, label, props, -, -, -, rfl, htarget⟩
    · obtain rfl := Option.some.inj hkey
      exact htarget
    · obtain rfl := Option.some.inj hkey
      exact htarget
  rw [translateDiffEvent, List.filterMap_flatMap, List.nodup_flatMap]
  -- Diffs of different containers write keys of different kinds.
  refine ⟨fun cd _ => nodup_keys_containerDiff cd, ?_⟩
  refine (List.pairwise_map.mp h.targets).imp_of_mem fun {cd cd'} hcd hcd' hne x hx hx' => ?_
  exact hne ((htarget cd hcd x hx).trans (htarget cd' hcd' x hx').symm)

theorem sameDiff_refl (cd : ContainerDiff) : SameDiff cd cd := by
  obtain ⟨target, diff⟩ := cd
  cases diff with
  | map updated => exact ⟨rfl, .refl _⟩
  | other => exact ⟨rfl, trivial⟩

/-- In some order, the event begins with the op of the written edge. -/
theorem exists_edge_first {key : String} {voc : ValueOrContainer} {op : LoroOp}
    (hwrites : RootWrites event rootEdges key voc) (hop : translateEdge key (some voc) = some op) :
    ∃ event' rest, Reordered event event' ∧ translateDiffEvent event' = op :: rest := by
  obtain ⟨containerType, updated, hcd, hlookup⟩ := hwrites
  obtain ⟨before, after, hevents⟩ := List.append_of_mem hcd
  obtain ⟨entriesBefore, entriesAfter, hentries⟩ :=
    List.append_of_mem (AList.mem_lookup_iff.mp hlookup)
  -- The diff goes to the front of the event, and the entry to the front of the diff.
  have hperm : updated.entries.Perm (⟨key, some voc⟩ :: (entriesBefore ++ entriesAfter)) := by
    rw [hentries]
    exact List.perm_middle
  let updated' : Table String (Option ValueOrContainer) :=
    ⟨⟨key, some voc⟩ :: (entriesBefore ++ entriesAfter),
      (List.perm_nodupKeys hperm).mp updated.nodupKeys⟩
  let event' : DiffEvent :=
    ⟨event.origin, ⟨.root rootEdges containerType, .map updated'⟩ :: (before ++ after)⟩
  have hreordered : Reordered event event' := by
    refine ⟨rfl, ⟨.root rootEdges containerType, .map updated⟩ :: (before ++ after), ?_, ?_⟩
    · rw [hevents]
      exact List.perm_middle
    · exact .cons ⟨rfl, hperm⟩ (List.forall₂_same.mpr fun cd _ => sameDiff_refl cd)
  have hfirst : translateContainerDiff ⟨.root rootEdges containerType, .map updated'⟩ =
      op :: (entriesBefore ++ entriesAfter).filterMap fun e => translateEdge e.1 e.2 := by
    simp only [translateContainerDiff]
    rw [if_neg (by decide), if_pos trivial]
    exact List.filterMap_cons_some hop
  refine ⟨event', (entriesBefore ++ entriesAfter).filterMap (fun e => translateEdge e.1 e.2) ++
    (before ++ after).flatMap translateContainerDiff, hreordered, ?_⟩
  rw [translateDiffEvent, List.flatMap_cons, hfirst, List.cons_append]

/-- A write commit is translated into ops that succeed, with one result up to ids, in every order of
its event exactly when its edges connect vertices that are bound before it. -/
theorem translation_order_iff (hok : GraphOk b) (hcommit : WriteCommit event) :
    OrderIndependent event b ↔ EndpointsBound event b := by
  constructor
  · intro hindep key voc src dst label hwrites hprops hparse
    obtain ⟨props, hop⟩ := exists_translateEdge hparse hprops
    obtain ⟨event', rest, hreordered, htranslate⟩ := exists_edge_first hwrites hop
    obtain ⟨_, after', -, hrun, -⟩ := hindep event' hreordered
    rw [htranslate, applyEach] at hrun
    -- with an unbound endpoint, the first op fails
    rw [← Finmap.lookup_isSome, ← Finmap.lookup_isSome]
    by_contra hunbound
    have hnone : b.maps.nodeIdMap.lookup src = none ∨ b.maps.nodeIdMap.lookup dst = none := by
      simpa only [not_and_or, Option.not_isSome_iff_eq_none] using hunbound
    simp only [upsertEdge_unknown props hnone] at hrun
    cases hrun
  · intro hbound event' hreordered
    exact upserts_perm hok hreordered.translate (hcommit.upsertBetween hbound) hcommit.nodup_keys

end

/-! ### One commit in two orders -/

/-- The event of a commit that wrote all these vertices and edges. -/
def writeEvent (vertices : VertexRoot) (edges : EdgeRoot) : DiffEvent :=
  ⟨"", [⟨.root rootVertices .map, .map (mapValues some vertices)⟩,
    ⟨.root rootEdges .map, .map (mapValues some edges)⟩]⟩

section
variable (vertices : VertexRoot) (edges : EdgeRoot)

theorem mem_writeEvent {target : ContainerID} {updated : Table String (Option ValueOrContainer)} :
    ⟨target, .map updated⟩ ∈ (writeEvent vertices edges).events ↔
      target = .root rootVertices .map ∧ updated = mapValues some vertices ∨
        target = .root rootEdges .map ∧ updated = mapValues some edges := by
  simp [writeEvent]

theorem writeCommit_writeEvent : WriteCommit (writeEvent vertices edges) where
  targets := by simp [writeEvent, rootVertices, rootEdges]
  maps := fun target updated h => by
    rcases (mem_writeEvent vertices edges).mp h with ⟨rfl, -⟩ | ⟨rfl, -⟩ <;> rfl
  writes := fun name containerType updated h _ key => by
    rcases (mem_writeEvent vertices edges).mp h with ⟨-, rfl⟩ | ⟨-, rfl⟩
    · simp
    · simp

theorem rootWrites_edges {key : String} {voc : ValueOrContainer} :
    RootWrites (writeEvent vertices edges) rootEdges key voc ↔ edges.lookup key = some voc := by
  constructor
  · rintro ⟨containerType, updated, h, hkey⟩
    rcases (mem_writeEvent vertices edges).mp h with ⟨htarget, -⟩ | ⟨-, rfl⟩
    · exact absurd htarget (by simp [rootVertices, rootEdges])
    · simpa using hkey
  · intro hkey
    exact ⟨.map, mapValues some edges, (mem_writeEvent vertices edges).mpr (.inr ⟨rfl, rfl⟩), by
      simp [hkey]⟩

theorem rootWrites_vertices {key : String} {voc : ValueOrContainer}
    (h : vertices.lookup key = some voc) :
    RootWrites (writeEvent vertices edges) rootVertices key voc :=
  ⟨.map, mapValues some vertices, (mem_writeEvent vertices edges).mpr (.inl ⟨rfl, rfl⟩), by
    simp [h]⟩

end

/-- Two vertices, as the live path takes them. -/
def plainVertices : VertexRoot :=
  (AList.singleton "a" (.value (.map []))).insert "b" (.value (.map []))

/-- The event of a commit that wrote them and an edge between them, with the diff of `V` first. -/
def vertexFirst : DiffEvent := writeEvent plainVertices oneEdge

/-- The event of the same commit, with the diff of `E` first. -/
def edgeFirst : DiffEvent := ⟨"", vertexFirst.events.reverse⟩

theorem reordered_edgeFirst : Reordered vertexFirst edgeFirst :=
  ⟨rfl, _, (List.reverse_perm _).symm, List.forall₂_same.mpr fun cd _ => sameDiff_refl cd⟩

theorem writeCommit_vertexFirst : WriteCommit vertexFirst :=
  writeCommit_writeEvent plainVertices oneEdge

/-- The only edge of the commit. -/
theorem vertexFirst_ends {key src dst label : String} {voc : ValueOrContainer}
    (h : RootWrites vertexFirst rootEdges key voc)
    (hparse : parseEdgeKey key = some (src, dst, label)) :
    src = "a" ∧ dst = "b" ∧ label = "KNOWS" := by
  have hmem := AList.mem_lookup_iff.mp ((rootWrites_edges plainVertices oneEdge).mp h)
  have hentries : oneEdge.entries = [⟨"a|b|KNOWS", .value (.map [])⟩] := rfl
  rw [hentries, List.mem_singleton] at hmem
  obtain ⟨rfl, -⟩ := Sigma.mk.inj hmem
  have hparts : parseEdgeKey "a|b|KNOWS" = some ("a", "b", "KNOWS") := by decide
  simpa using hparse.symm.trans hparts

/-- The first op of the reordered event is that of the edge. -/
theorem translate_edgeFirst : ∃ rest,
    translateDiffEvent edgeFirst = .upsertEdge "a" "b" "KNOWS" ∅ :: rest := by
  have hparse : parseEdgeKey "a|b|KNOWS" = some ("a", "b", "KNOWS") := by decide
  have hop : translateEdge "a|b|KNOWS" (some (.value (.map []))) =
      some (.upsertEdge "a" "b" "KNOWS" ∅) := by
    simp [translateEdge, hparse, translateProperties]
  have hedges : translateContainerDiff ⟨.root rootEdges .map, .map (mapValues some oneEdge)⟩ =
      [.upsertEdge "a" "b" "KNOWS" ∅] := by
    let entry : Σ _ : String, Option ValueOrContainer := ⟨"a|b|KNOWS", some (.value (.map []))⟩
    show [entry].filterMap (fun e => translateEdge e.1 e.2) = _
    simp [entry, hop]
  exact ⟨translateContainerDiff ⟨.root rootVertices .map, .map (mapValues some plainVertices)⟩, by
    simp [translateDiffEvent, edgeFirst, vertexFirst, writeEvent, hedges]⟩

/-- Between vertices that are bound before it, the edge of the commit may come first. -/
theorem translation_order_bound :
    OrderIndependent vertexFirst
      (runOps noFault [.upsertNode "a" [] ∅, .upsertNode "b" [] ∅] Bridge.empty) := by
  refine (translation_order_iff (graphOk_runOps noFault _ graphOk_empty)
    writeCommit_vertexFirst).mpr ?_
  intro key voc src dst label hwrites _ hparse
  obtain ⟨rfl, rfl, rfl⟩ := vertexFirst_ends hwrites hparse
  exact ⟨by decide, by decide⟩

/-- A commit writes an edge between vertices that it writes too, on an empty bridge. With the diff
of `V` first its ops succeed. With the diff of `E` first they fail. -/
theorem translation_edge_first :
    WriteCommit vertexFirst ∧ Reordered vertexFirst edgeFirst ∧
      (∀ key voc src dst label, RootWrites vertexFirst rootEdges key voc →
        parseEdgeKey key = some (src, dst, label) →
        (∃ voc, RootWrites vertexFirst rootVertices src voc) ∧
        ∃ voc, RootWrites vertexFirst rootVertices dst voc) ∧
      (applyEach noFault .ok (translateDiffEvent vertexFirst) Bridge.empty).1 = .ok () ∧
      (applyEach noFault .ok (translateDiffEvent edgeFirst) Bridge.empty).1
        = .error (.bridge (unknownNodeKeys "a" "b")) ∧
      ¬ OrderIndependent vertexFirst Bridge.empty := by
  have hfails : (applyEach noFault .ok (translateDiffEvent edgeFirst) Bridge.empty).1
      = .error (.bridge (unknownNodeKeys "a" "b")) := by
    obtain ⟨rest, htranslate⟩ := translate_edgeFirst
    have hnone : Bridge.empty.maps.nodeIdMap.lookup "a" = none := rfl
    rw [htranslate, applyEach]
    simp only [upsertEdge_unknown ∅ (.inl hnone)]
  refine ⟨writeCommit_vertexFirst, reordered_edgeFirst, ?_, by decide +kernel, hfails, ?_⟩
  · intro key voc src dst label hwrites hparse
    obtain ⟨rfl, rfl, rfl⟩ := vertexFirst_ends hwrites hparse
    exact ⟨⟨_, rootWrites_vertices plainVertices oneEdge rfl⟩,
      ⟨_, rootWrites_vertices plainVertices oneEdge rfl⟩⟩
  · intro hindep
    obtain ⟨_, after', -, hrun, -⟩ := hindep _ reordered_edgeFirst
    rw [hrun] at hfails
    cases hfails

end GrafeoLoro.Proofs
