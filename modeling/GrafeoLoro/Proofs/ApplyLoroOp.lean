import GrafeoLoro.Bridge.GrafeoTx
import Mathlib.Logic.Relation

/-!
# `GrafeoLoro.Proofs.ApplyLoroOp`: what one op can do to the bridge

`applyLoroOp` moves the store and the maps in five ways only: it writes properties, it
binds a new node or a new edge, and it unbinds a node or an edge and deletes it. `Touch`
lists these moves with their guards, and `applyLoroOp_touches` says that every op, with
every pattern of Grafeo failures, is a sequence of touches. Later modules prove their
invariants touch by touch. Where the result of an upsert matters, they start from
`applyUpsertNode_cases` and `applyUpsertEdge_cases`.

`PropsOnly s s'` is the frame of the property writes: ids, labels and endpoints stay, only
properties and the call counter change.
-/

set_option autoImplicit false

namespace GrafeoLoro.Proofs

open GrafeoLoro GrafeoLoro.Lib

/-! ### Property writes -/

/-- The stores `s` and `s'` have the same node ids and labels, the same edge ids, endpoints
and labels, and the same next ids. -/
structure PropsOnly (s s' : Store) : Prop where
  nextNode : s'.nextNode = s.nextNode
  nextEdge : s'.nextEdge = s.nextEdge
  nodes : ∀ id, (s'.nodes.lookup id).map Node.labels = (s.nodes.lookup id).map Node.labels
  edges : ∀ id, (s'.edges.lookup id).map (fun e => (e.src, e.dst, e.label))
    = (s.edges.lookup id).map fun e => (e.src, e.dst, e.label)

namespace PropsOnly

theorem refl (s : Store) : PropsOnly s s := ⟨rfl, rfl, fun _ => rfl, fun _ => rfl⟩

theorem trans {s s' s'' : Store} (h : PropsOnly s s') (h' : PropsOnly s' s'') :
    PropsOnly s s'' :=
  ⟨h'.nextNode.trans h.nextNode, h'.nextEdge.trans h.nextEdge,
    fun id => (h'.nodes id).trans (h.nodes id), fun id => (h'.edges id).trans (h.edges id)⟩

/-- The call counter is not part of the frame. -/
theorem tick (s : Store) : PropsOnly s s.tick := ⟨rfl, rfl, fun _ => rfl, fun _ => rfl⟩

/-- A node exists after property writes exactly when it existed before. -/
theorem mem_nodes {s s' : Store} (h : PropsOnly s s') (id : NodeId) :
    id ∈ s'.nodes ↔ id ∈ s.nodes := by
  rw [← AList.lookup_isSome, ← AList.lookup_isSome, ← Option.isSome_map (f := Node.labels),
    h.nodes id, Option.isSome_map]

/-- An edge exists after property writes exactly when it existed before. -/
theorem mem_edges {s s' : Store} (h : PropsOnly s s') (id : EdgeId) :
    id ∈ s'.edges ↔ id ∈ s.edges := by
  rw [← AList.lookup_isSome, ← AList.lookup_isSome,
    ← Option.isSome_map (f := fun e : Edge => (e.src, e.dst, e.label)), h.edges id,
    Option.isSome_map]

/-- An edge found after property writes was there before, with the same endpoints and
label. -/
theorem lookup_edge {s s' : Store} (h : PropsOnly s s') {id : EdgeId} {e' : Edge}
    (he : s'.edges.lookup id = some e') :
    ∃ e, s.edges.lookup id = some e ∧ e.src = e'.src ∧ e.dst = e'.dst ∧ e.label = e'.label := by
  have hmap := h.edges id
  rw [he, Option.map_some, eq_comm, Option.map_eq_some_iff] at hmap
  obtain ⟨e, hs, heq⟩ := hmap
  simp only [Prod.mk.injEq] at heq
  exact ⟨e, hs, heq.1, heq.2.1, heq.2.2⟩

end PropsOnly

theorem propsOnly_putNodeProperty (s : Store) (id : NodeId) (k : String) (v : Value) :
    PropsOnly s (s.putNodeProperty id k v) := by
  unfold Store.putNodeProperty
  split
  · rename_i n hn
    refine ⟨rfl, rfl, fun id' => ?_, fun _ => rfl⟩
    simp only [alist_lookup_insert]
    split
    · rename_i hid
      rw [hid, hn]
      rfl
    · rfl
  · exact PropsOnly.refl s

theorem propsOnly_putEdgeProperty (s : Store) (id : EdgeId) (k : String) (v : Value) :
    PropsOnly s (s.putEdgeProperty id k v) := by
  unfold Store.putEdgeProperty
  split
  · rename_i e he
    refine ⟨rfl, rfl, fun _ => rfl, fun id' => ?_⟩
    simp only [alist_lookup_insert]
    split
    · rename_i hid
      rw [hid, he]
      rfl
    · rfl
  · exact PropsOnly.refl s

/-- A fallible call keeps the frame when its effect does. -/
theorem propsOnly_call {α : Type} (fault : Nat → Bool) (s : Store) (a : α) (f : Store → Store)
    (hf : ∀ s, PropsOnly s (f s)) : PropsOnly s (call fault s a f).2 := by
  unfold call
  split
  · exact PropsOnly.tick s
  · exact (PropsOnly.tick s).trans (hf s.tick)

/-- What every single write keeps, the property loop keeps, however far it gets. -/
theorem setProperties_rel {R : Store → Store → Prop} (hrefl : ∀ s, R s s)
    (htrans : ∀ s t u, R s t → R t u → R s u)
    {set : String → Value → Store → SessionResult Unit} (hset : ∀ k v s, R s (set k v s).2)
    (props : List (Σ _ : String, GraphValue)) : ∀ s, R s (setProperties set props s).2 := by
  induction props with
  | nil => exact hrefl
  | cons e rest ih =>
    intro s
    have hone := hset e.1 (gvalToGrafeoValue e.2) s
    rw [setProperties]
    split
    · rename_i s' heq
      rw [heq] at hone
      exact htrans s s' _ hone (ih s')
    · -- the first error ends the loop after a write that did nothing
      rename_i err s' heq
      rw [heq] at hone
      exact hone

/-- The property loop keeps the frame when every single write does. -/
theorem propsOnly_setProperties (set : String → Value → Store → SessionResult Unit)
    (hset : ∀ k v s, PropsOnly s (set k v s).2) (props : List (Σ _ : String, GraphValue)) :
    ∀ s, PropsOnly s (setProperties set props s).2 :=
  setProperties_rel PropsOnly.refl (fun _ _ _ hst htu => hst.trans htu) hset props

theorem propsOnly_setNodeProperties (fault : Nat → Bool) (id : NodeId)
    (props : List (Σ _ : String, GraphValue)) (s : Store) :
    PropsOnly s (setProperties (setNodeProperty fault id) props s).2 :=
  propsOnly_setProperties _ (fun k v s => propsOnly_call fault s () _ fun s =>
    propsOnly_putNodeProperty s id k v) props s

theorem propsOnly_setEdgeProperties (fault : Nat → Bool) (id : EdgeId)
    (props : List (Σ _ : String, GraphValue)) (s : Store) :
    PropsOnly s (setProperties (setEdgeProperty fault id) props s).2 :=
  propsOnly_setProperties _ (fun k v s => propsOnly_call fault s () _ fun s =>
    propsOnly_putEdgeProperty s id k v) props s

/-! ### The five touches -/

/-- One elementary move of the bridge. -/
inductive Touch : Bridge → Bridge → Prop where
  /-- Properties were written, or a call failed. -/
  | props {store store' : Store} {maps : BridgeMaps} (h : PropsOnly store store') :
      Touch ⟨store, maps⟩ ⟨store', maps⟩
  /-- A node was created and bound to an unbound key. -/
  | bindNode {store : Store} {maps : BridgeMaps} (key : String) (labels : List String)
      (props : List (Σ _ : String, Value)) (hkey : maps.nodeIdMap.lookup key = none) :
      Touch ⟨store, maps⟩ ⟨store.addNode labels props, maps.insertNode key store.nextNode⟩
  /-- A bound node was unbound and deleted. -/
  | unbindNode {store : Store} {maps : BridgeMaps} (key : String) (id : NodeId)
      (hkey : maps.nodeIdMap.lookup key = some id) :
      Touch ⟨store, maps⟩ ⟨store.dropNode id, (maps.removeNode key).2⟩
  /-- An edge between two bound nodes was created and bound to an unbound key. -/
  | bindEdge {store : Store} {maps : BridgeMaps} (srcKey dstKey label : String)
      (src dst : NodeId) (props : List (Σ _ : String, Value))
      (hsrc : maps.nodeIdMap.lookup srcKey = some src)
      (hdst : maps.nodeIdMap.lookup dstKey = some dst)
      (hkey : maps.edgeIdMap.lookup (srcKey, dstKey, label) = none) :
      Touch ⟨store, maps⟩
        ⟨store.addEdge src dst label props,
          maps.insertEdge (srcKey, dstKey, label) store.nextEdge⟩
  /-- A bound edge was unbound and deleted. -/
  | unbindEdge {store : Store} {maps : BridgeMaps} (key : EdgeKey) (id : EdgeId)
      (hkey : maps.edgeIdMap.lookup key = some id) :
      Touch ⟨store, maps⟩ ⟨store.dropEdge id, (maps.removeEdge key).2⟩

/-- A sequence of touches. -/
abbrev Touches : Bridge → Bridge → Prop := Relation.ReflTransGen Touch

/-! ### What an op can do -/

/-- Everything an `UpsertNode` can do: write properties of the bound node, fail to create a
node, or create one and bind it. -/
theorem applyUpsertNode_cases (fault : Nat → Bool) (key : String) (labels : List String)
    (properties : Table String GraphValue) (b : Bridge) :
    (∃ id res store, b.maps.nodeIdMap.lookup key = some id ∧ PropsOnly b.store store ∧
      applyUpsertNode fault key labels properties b = (res, ⟨store, b.maps⟩)) ∨
    (b.maps.nodeIdMap.lookup key = none ∧
      applyUpsertNode fault key labels properties b
        = (.error .grafeo, ⟨b.store.tick, b.maps⟩)) ∨
    (b.maps.nodeIdMap.lookup key = none ∧
      applyUpsertNode fault key labels properties b
        = (.ok (), ⟨b.store.tick.addNode labels (grafeoProps properties.entries),
            b.maps.insertNode key b.store.nextNode⟩)) := by
  unfold applyUpsertNode
  cases hkey : b.maps.nodeIdMap.lookup key with
  | some id =>
    have hprops := propsOnly_setNodeProperties fault id properties.entries b.store
    exact .inl ⟨id, _, _, rfl, hprops, rfl⟩
  | none =>
    unfold createNodeWithProps call
    by_cases hfault : fault b.store.calls = true
    · -- a failed create only counts the call
      rw [if_pos hfault]
      exact .inr (.inl ⟨rfl, rfl⟩)
    · rw [if_neg hfault]
      exact .inr (.inr ⟨rfl, rfl⟩)

/-- Everything an `UpsertEdge` can do: reject an unbound endpoint, write properties of the bound
edge, fail to create an edge, or create one and bind it. -/
theorem applyUpsertEdge_cases (fault : Nat → Bool) (srcKey dstKey label : String)
    (properties : Table String GraphValue) (b : Bridge) :
    applyUpsertEdge fault srcKey dstKey label properties b
      = (.error (.bridge (unknownNodeKeys srcKey dstKey)), b) ∨
    ∃ src dst, b.maps.nodeIdMap.lookup srcKey = some src ∧
      b.maps.nodeIdMap.lookup dstKey = some dst ∧
      ((∃ eid res store, b.maps.edgeIdMap.lookup (srcKey, dstKey, label) = some eid ∧
        PropsOnly b.store store ∧
        applyUpsertEdge fault srcKey dstKey label properties b = (res, ⟨store, b.maps⟩)) ∨
      (b.maps.edgeIdMap.lookup (srcKey, dstKey, label) = none ∧
        applyUpsertEdge fault srcKey dstKey label properties b
          = (.error .grafeo, ⟨b.store.tick, b.maps⟩)) ∨
      (b.maps.edgeIdMap.lookup (srcKey, dstKey, label) = none ∧
        applyUpsertEdge fault srcKey dstKey label properties b
          = (.ok (), ⟨b.store.tick.addEdge src dst label (grafeoProps properties.entries),
              b.maps.insertEdge (srcKey, dstKey, label) b.store.nextEdge⟩))) := by
  unfold applyUpsertEdge
  split
  · rename_i src dst hsrc hdst
    refine .inr ⟨src, dst, hsrc, hdst, ?_⟩
    cases hkey : b.maps.edgeIdMap.lookup (srcKey, dstKey, label) with
    | some eid =>
      have hprops := propsOnly_setEdgeProperties fault eid properties.entries b.store
      exact .inl ⟨eid, _, _, rfl, hprops, rfl⟩
    | none =>
      unfold createEdgeWithProps call
      by_cases hfault : fault b.store.calls = true
      · rw [if_pos hfault]
        exact .inr (.inl ⟨rfl, rfl⟩)
      · rw [if_neg hfault]
        exact .inr (.inr ⟨rfl, rfl⟩)
  · exact .inl rfl

theorem applyUpsertNode_touches (fault : Nat → Bool) (key : String) (labels : List String)
    (properties : Table String GraphValue) (b : Bridge) :
    Touches b (applyUpsertNode fault key labels properties b).2 := by
  have htick : Touches b ⟨b.store.tick, b.maps⟩ := .single (.props (PropsOnly.tick _))
  obtain ⟨id, res, store, hkey, hprops, heq⟩ | ⟨hkey, heq⟩ | ⟨hkey, heq⟩ :=
    applyUpsertNode_cases fault key labels properties b
  · rw [heq]
    exact .single (.props hprops)
  · rw [heq]
    exact htick
  · rw [heq]
    exact htick.tail (.bindNode key labels _ hkey)

theorem applyUpsertEdge_touches (fault : Nat → Bool) (srcKey dstKey label : String)
    (properties : Table String GraphValue) (b : Bridge) :
    Touches b (applyUpsertEdge fault srcKey dstKey label properties b).2 := by
  have htick : Touches b ⟨b.store.tick, b.maps⟩ := .single (.props (PropsOnly.tick _))
  obtain heq | ⟨src, dst, hsrc, hdst, hbound⟩ :=
    applyUpsertEdge_cases fault srcKey dstKey label properties b
  · rw [heq]
  · obtain ⟨eid, res, store, hkey, hprops, heq⟩ | ⟨hkey, heq⟩ | ⟨hkey, heq⟩ := hbound
    · rw [heq]
      exact .single (.props hprops)
    · rw [heq]
      exact htick
    · rw [heq]
      exact htick.tail (.bindEdge srcKey dstKey label src dst _ hsrc hdst hkey)

/-- The removal of a bound node key. -/
theorem removeNode_bound {maps : BridgeMaps} {key : String} {id : NodeId}
    (hkey : maps.nodeIdMap.lookup key = some id) :
    maps.removeNode key = (some id, { maps with
      nodeIdMap := maps.nodeIdMap.erase key
      nodeKeyMap := maps.nodeKeyMap.erase id }) := by
  rw [BridgeMaps.removeNode, hkey]

/-- The removal of a bound edge key. -/
theorem removeEdge_bound {maps : BridgeMaps} {key : EdgeKey} {id : EdgeId}
    (hkey : maps.edgeIdMap.lookup key = some id) :
    maps.removeEdge key = (some id, { maps with
      edgeIdMap := maps.edgeIdMap.erase key
      edgeKeyMap := maps.edgeKeyMap.erase id }) := by
  rw [BridgeMaps.removeEdge, hkey]

/-- The `DeleteNode` arm is one touch on a bound key, and nothing on an unbound one. -/
theorem applyDeleteNode_eq (key : String) (b : Bridge) :
    applyDeleteNode key b = match b.maps.nodeIdMap.lookup key with
      | some id => ⟨b.store.dropNode id, (b.maps.removeNode key).2⟩
      | none => b := by
  unfold applyDeleteNode BridgeMaps.removeNode
  cases b.maps.nodeIdMap.lookup key <;> rfl

/-- The `DeleteEdge` arm is one touch on a bound key, and nothing on an unbound one. -/
theorem applyDeleteEdge_eq (key : EdgeKey) (b : Bridge) :
    applyDeleteEdge key b = match b.maps.edgeIdMap.lookup key with
      | some id => ⟨b.store.dropEdge id, (b.maps.removeEdge key).2⟩
      | none => b := by
  unfold applyDeleteEdge BridgeMaps.removeEdge
  cases b.maps.edgeIdMap.lookup key <;> rfl

/-- A removal of a node leaves the edge maps alone. -/
theorem removeNode_edgeMaps (key : String) (maps : BridgeMaps) :
    (maps.removeNode key).2.edgeIdMap = maps.edgeIdMap ∧
      (maps.removeNode key).2.edgeKeyMap = maps.edgeKeyMap := by
  unfold BridgeMaps.removeNode
  split
  · exact ⟨rfl, rfl⟩
  · exact ⟨rfl, rfl⟩

/-- A removal of an edge leaves the node maps alone. -/
theorem removeEdge_nodeMaps (key : EdgeKey) (maps : BridgeMaps) :
    (maps.removeEdge key).2.nodeIdMap = maps.nodeIdMap ∧
      (maps.removeEdge key).2.nodeKeyMap = maps.nodeKeyMap := by
  unfold BridgeMaps.removeEdge
  split
  · exact ⟨rfl, rfl⟩
  · exact ⟨rfl, rfl⟩

/-- The maps after a `DeleteNode` are those after the removal. -/
theorem applyDeleteNode_maps (key : String) (b : Bridge) :
    (applyDeleteNode key b).maps = (b.maps.removeNode key).2 := by
  unfold applyDeleteNode BridgeMaps.removeNode
  cases b.maps.nodeIdMap.lookup key <;> rfl

/-- The maps after a `DeleteEdge` are those after the removal. -/
theorem applyDeleteEdge_maps (key : EdgeKey) (b : Bridge) :
    (applyDeleteEdge key b).maps = (b.maps.removeEdge key).2 := by
  unfold applyDeleteEdge BridgeMaps.removeEdge
  cases b.maps.edgeIdMap.lookup key <;> rfl

theorem applyDeleteNode_touches (key : String) (b : Bridge) :
    Touches b (applyDeleteNode key b) := by
  rw [applyDeleteNode_eq]
  split
  · rename_i id hkey
    exact .single (.unbindNode key id hkey)
  · exact .refl

theorem applyDeleteEdge_touches (key : EdgeKey) (b : Bridge) :
    Touches b (applyDeleteEdge key b) := by
  rw [applyDeleteEdge_eq]
  split
  · rename_i id hkey
    exact .single (.unbindEdge key id hkey)
  · exact .refl

/-- A move without the node or the new parent does nothing. -/
theorem applyTreeMove_unbound {b : Bridge} {node oldParent newParent : String}
    (h : b.maps.nodeIdMap.lookup node = none ∨ b.maps.nodeIdMap.lookup newParent = none) :
    applyTreeMove node oldParent newParent b = b := by
  unfold applyTreeMove
  split
  · rename_i hnode hnew
    rw [hnode, hnew] at h
    simp at h
  · rfl

theorem applyTreeMove_touches (nodeKey oldParentKey newParentKey : String) (b : Bridge) :
    Touches b (applyTreeMove nodeKey oldParentKey newParentKey b) := by
  unfold applyTreeMove
  split
  · rename_i nodeId newParentId hnode hnew
    have hdel := applyDeleteEdge_touches (oldParentKey, nodeKey, treeEdgeLabel) b
    have hnodes := (removeEdge_nodeMaps (oldParentKey, nodeKey, treeEdgeLabel) b.maps).1
    rw [← applyDeleteEdge_maps] at hnodes
    dsimp only
    split
    · exact hdel
    · -- the deletion left the node bindings alone, so both endpoints are still bound
      rename_i hkey
      rw [← hnodes] at hnode hnew
      exact hdel.tail (.bindEdge newParentKey nodeKey treeEdgeLabel newParentId nodeId []
        hnew hnode hkey)
  · exact .refl

/-- Every op is a sequence of touches, whatever fails. -/
theorem applyLoroOp_touches (fault : Nat → Bool) (op : LoroOp) (b : Bridge) :
    Touches b (applyLoroOp fault op b).2 := by
  cases op with
  | upsertNode key labels properties => exact applyUpsertNode_touches fault key labels properties b
  | upsertEdge src dst label properties =>
    exact applyUpsertEdge_touches fault src dst label properties b
  | deleteNode key => exact applyDeleteNode_touches key b
  | deleteEdge src dst label => exact applyDeleteEdge_touches (src, dst, label) b
  | treeMove node old new => exact applyTreeMove_touches node old new b

end GrafeoLoro.Proofs
