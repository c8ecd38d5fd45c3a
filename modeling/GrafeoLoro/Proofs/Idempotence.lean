import GrafeoLoro.Proofs.UpsertEdge
import Mathlib.Logic.Equiv.Basic

/-!
# `GrafeoLoro.Proofs.Idempotence`: an op that is applied twice

The bridge may see an op again, after a retry or a second import. `SameUpToEdgeIds` compares two
bridges: the node maps and the nodes are equal, and the edges and their maps are equal up to a
renaming of the edge ids.

* `applyLoroOp_idempotent`: every op that is applied twice gives the same result twice, and leaves
  the same bridge as one application.

Only a `TreeMove` to the parent that the node has already needs the renaming: it deletes the edge
and creates it again, each time under a new id.
-/

set_option autoImplicit false

namespace GrafeoLoro.Proofs

open GrafeoLoro GrafeoLoro.Lib

/-- The two bridges bind the same keys to the same nodes, the nodes have the same labels and
properties, and the edges and their bindings are the same when the edge ids are renamed. -/
structure SameUpToEdgeIds (b b' : Bridge) : Prop where
  nodeIdMap : b'.maps.nodeIdMap = b.maps.nodeIdMap
  nodeKeyMap : b'.maps.nodeKeyMap = b.maps.nodeKeyMap
  nodes : ∀ id, b'.store.nodes.lookup id = b.store.nodes.lookup id
  edges : ∃ rename : Equiv.Perm EdgeId,
    (∀ id, b'.store.edges.lookup (rename id) = b.store.edges.lookup id) ∧
    (∀ key, b'.maps.edgeIdMap.lookup key = (b.maps.edgeIdMap.lookup key).map rename) ∧
    ∀ id, b'.maps.edgeKeyMap.lookup (rename id) = b.maps.edgeKeyMap.lookup id

/-- Under the same maps, the nodes and edges are compared as they are. -/
theorem sameUpToEdgeIds_of_lookup {store store' : Store} {maps : BridgeMaps}
    (hnodes : ∀ id, store'.nodes.lookup id = store.nodes.lookup id)
    (hedges : ∀ id, store'.edges.lookup id = store.edges.lookup id) :
    SameUpToEdgeIds ⟨store, maps⟩ ⟨store', maps⟩ where
  nodeIdMap := rfl
  nodeKeyMap := rfl
  nodes := hnodes
  edges := ⟨Equiv.refl _, hedges, fun key => by simp, fun _ => rfl⟩

theorem SameUpToEdgeIds.refl (b : Bridge) : SameUpToEdgeIds b b :=
  sameUpToEdgeIds_of_lookup (fun _ => rfl) fun _ => rfl

/-- What two applications of an op are to one. -/
def Idempotent (fault : Nat → Bool) (op : LoroOp) (b : Bridge) : Prop :=
  let once := applyLoroOp fault op b
  let twice := applyLoroOp fault op once.2
  twice.1 = once.1 ∧ SameUpToEdgeIds once.2 twice.2

section
variable {fault : Nat → Bool} {op : LoroOp} {b b' b'' : Bridge} {res : Except GrafeoLoroError Unit}

theorem idempotent_of_same (hfirst : applyLoroOp fault op b = (res, b'))
    (hsecond : applyLoroOp fault op b' = (res, b'')) (hsame : SameUpToEdgeIds b' b'') :
    Idempotent fault op b := by
  unfold Idempotent
  rw [hfirst]
  show (applyLoroOp fault op b').1 = res ∧ SameUpToEdgeIds b' (applyLoroOp fault op b').2
  rw [hsecond]
  exact ⟨rfl, hsame⟩

/-- An op that finds nothing to do the second time. -/
theorem idempotent_of_stable (hfirst : applyLoroOp fault op b = (res, b'))
    (hsecond : applyLoroOp fault op b' = (res, b')) : Idempotent fault op b :=
  idempotent_of_same hfirst hsecond (.refl b')

end

/-! ### Upserts -/

section
variable {b : Bridge}

/-- The second `UpsertNode` finds the binding, and writes the properties that are there. -/
theorem upsertNode_idempotent (key : String) (labels : List String)
    (properties : Table String GraphValue) :
    Idempotent noFault (.upsertNode key labels properties) b := by
  cases hkey : b.maps.nodeIdMap.lookup key with
  | none =>
    have hbound : (b.maps.insertNode key b.store.nextNode).nodeIdMap.lookup key
        = some b.store.nextNode := Finmap.lookup_insert _
    -- The second one is a hit. It writes the properties that the node was made with.
    refine idempotent_of_same (upsertNode_miss labels properties hkey)
      (upsertNode_hit labels properties hbound)
      (sameUpToEdgeIds_of_lookup (fun id => ?_) fun id => ?_)
    · have hnew : (b.store.tick.addNode labels (grafeoProps properties.entries)).nodes.lookup
          b.store.nextNode = some ⟨labels, insertAll ∅ (grafeoProps properties.entries)⟩ :=
        AList.lookup_insert _
      rw [lookup_setNodeProperties]
      split
      · rename_i hid
        rw [hid, hnew, Option.map_some, insertAll_twice]
      · rfl
    · rw [edges_setNodeProperties]
  | some id =>
    refine idempotent_of_same (upsertNode_hit labels properties hkey)
      (upsertNode_hit labels properties hkey)
      (sameUpToEdgeIds_of_lookup (fun id' => ?_) fun id' => ?_)
    · rw [lookup_setNodeProperties, lookup_setNodeProperties, lookup_setNodeProperties, if_pos rfl,
        Option.map_map]
      simp only [Function.comp_def, insertAll_twice]
      split <;> rfl
    · rw [edges_setNodeProperties]

/-- The second `UpsertEdge` finds the binding, or the same endpoint unbound. -/
theorem upsertEdge_idempotent (srcKey dstKey label : String)
    (properties : Table String GraphValue) :
    Idempotent noFault (.upsertEdge srcKey dstKey label properties) b := by
  cases hsrc : b.maps.nodeIdMap.lookup srcKey with
  | none =>
    have hfail : applyLoroOp noFault (.upsertEdge srcKey dstKey label properties) b = _ :=
      upsertEdge_unknown properties (.inl hsrc)
    exact idempotent_of_stable hfail hfail
  | some src =>
  cases hdst : b.maps.nodeIdMap.lookup dstKey with
  | none =>
    have hfail : applyLoroOp noFault (.upsertEdge srcKey dstKey label properties) b = _ :=
      upsertEdge_unknown properties (.inr hdst)
    exact idempotent_of_stable hfail hfail
  | some dst =>
  cases hkey : b.maps.edgeIdMap.lookup (srcKey, dstKey, label) with
  | none =>
    have hbound : (b.maps.insertEdge (srcKey, dstKey, label) b.store.nextEdge).edgeIdMap.lookup
        (srcKey, dstKey, label) = some b.store.nextEdge := Finmap.lookup_insert _
    -- The second one is a hit. It writes the properties that the edge was made with.
    refine idempotent_of_same (upsertEdge_miss properties hsrc hdst hkey)
      (upsertEdge_hit properties hsrc hdst hbound)
      (sameUpToEdgeIds_of_lookup (fun id => ?_) fun id => ?_)
    · rw [nodes_setEdgeProperties]
    · have hnew : (b.store.tick.addEdge src dst label (grafeoProps properties.entries)).edges.lookup
          b.store.nextEdge
          = some ⟨src, dst, label, insertAll ∅ (grafeoProps properties.entries)⟩ :=
        AList.lookup_insert _
      rw [lookup_setEdgeProperties]
      split
      · rename_i hid
        rw [hid, hnew, Option.map_some, insertAll_twice]
      · rfl
  | some eid =>
    refine idempotent_of_same (upsertEdge_hit properties hsrc hdst hkey)
      (upsertEdge_hit properties hsrc hdst hkey)
      (sameUpToEdgeIds_of_lookup (fun id => ?_) fun id => ?_)
    · rw [nodes_setEdgeProperties]
    · rw [lookup_setEdgeProperties, lookup_setEdgeProperties, lookup_setEdgeProperties, if_pos rfl,
        Option.map_map]
      simp only [Function.comp_def, insertAll_twice]
      split <;> rfl

end

/-! ### Deletes -/

section
variable {b : Bridge}

theorem applyDeleteNode_of_unbound {key : String} (h : b.maps.nodeIdMap.lookup key = none) :
    applyDeleteNode key b = b := by
  simp [applyDeleteNode, BridgeMaps.removeNode, h]

/-- A delete leaves its key unbound. -/
theorem applyDeleteNode_unbinds (key : String) :
    (applyDeleteNode key b).maps.nodeIdMap.lookup key = none := by
  cases hkey : b.maps.nodeIdMap.lookup key with
  | none => rw [applyDeleteNode_of_unbound hkey, hkey]
  | some id =>
    simp only [applyDeleteNode, BridgeMaps.removeNode, hkey]
    exact Finmap.lookup_erase _ _

theorem applyDeleteEdge_of_unbound {key : EdgeKey} (h : b.maps.edgeIdMap.lookup key = none) :
    applyDeleteEdge key b = b := by
  simp [applyDeleteEdge, BridgeMaps.removeEdge, h]

theorem applyDeleteEdge_of_bound {key : EdgeKey} {eid : EdgeId}
    (h : b.maps.edgeIdMap.lookup key = some eid) :
    applyDeleteEdge key b = ⟨b.store.dropEdge eid,
      { b.maps with
        edgeIdMap := b.maps.edgeIdMap.erase key
        edgeKeyMap := b.maps.edgeKeyMap.erase eid }⟩ := by
  simp only [applyDeleteEdge, BridgeMaps.removeEdge, h, deleteEdge]

/-- A delete leaves its key unbound. -/
theorem applyDeleteEdge_unbinds (key : EdgeKey) :
    (applyDeleteEdge key b).maps.edgeIdMap.lookup key = none := by
  cases hkey : b.maps.edgeIdMap.lookup key with
  | none => rw [applyDeleteEdge_of_unbound hkey, hkey]
  | some id =>
    rw [applyDeleteEdge_of_bound hkey]
    exact Finmap.lookup_erase _ _

/-- A delete of an edge leaves the nodes and their bindings alone. -/
theorem applyDeleteEdge_nodes (key : EdgeKey) :
    (applyDeleteEdge key b).maps.nodeIdMap = b.maps.nodeIdMap ∧
      (applyDeleteEdge key b).maps.nodeKeyMap = b.maps.nodeKeyMap ∧
      (applyDeleteEdge key b).store.nodes = b.store.nodes := by
  cases hkey : b.maps.edgeIdMap.lookup key with
  | none =>
    rw [applyDeleteEdge_of_unbound hkey]
    exact ⟨rfl, rfl, rfl⟩
  | some id =>
    rw [applyDeleteEdge_of_bound hkey]
    exact ⟨rfl, rfl, rfl⟩

theorem deleteNode_idempotent {fault : Nat → Bool} (key : String) :
    Idempotent fault (.deleteNode key) b := by
  refine idempotent_of_stable rfl ?_
  show (Except.ok (), applyDeleteNode key (applyDeleteNode key b)) = _
  rw [applyDeleteNode_of_unbound (applyDeleteNode_unbinds key)]

theorem deleteEdge_idempotent {fault : Nat → Bool} (srcKey dstKey label : String) :
    Idempotent fault (.deleteEdge srcKey dstKey label) b := by
  refine idempotent_of_stable rfl ?_
  show (Except.ok (), applyDeleteEdge _ (applyDeleteEdge (srcKey, dstKey, label) b)) = _
  rw [applyDeleteEdge_of_unbound (applyDeleteEdge_unbinds _)]

end

/-! ### The tree move -/

section
variable {b : Bridge} {nodeKey oldParentKey newParentKey : String} {node newParent : NodeId}

/-- The edge from the new parent is there, and only the delete happens. -/
theorem applyTreeMove_linked {eid : EdgeId} (hnode : b.maps.nodeIdMap.lookup nodeKey = some node)
    (hnew : b.maps.nodeIdMap.lookup newParentKey = some newParent)
    (hkey : (applyDeleteEdge (oldParentKey, nodeKey, treeEdgeLabel) b).maps.edgeIdMap.lookup
      (newParentKey, nodeKey, treeEdgeLabel) = some eid) :
    applyTreeMove nodeKey oldParentKey newParentKey b
      = applyDeleteEdge (oldParentKey, nodeKey, treeEdgeLabel) b := by
  simp only [applyTreeMove, hnode, hnew, hkey]

/-- The edge from the new parent is created and bound. -/
theorem applyTreeMove_creates (hnode : b.maps.nodeIdMap.lookup nodeKey = some node)
    (hnew : b.maps.nodeIdMap.lookup newParentKey = some newParent)
    (hkey : (applyDeleteEdge (oldParentKey, nodeKey, treeEdgeLabel) b).maps.edgeIdMap.lookup
      (newParentKey, nodeKey, treeEdgeLabel) = none) :
    applyTreeMove nodeKey oldParentKey newParentKey b
      = ⟨(applyDeleteEdge (oldParentKey, nodeKey, treeEdgeLabel) b).store.addEdge newParent node
          treeEdgeLabel [],
        (applyDeleteEdge (oldParentKey, nodeKey, treeEdgeLabel) b).maps.insertEdge
          (newParentKey, nodeKey, treeEdgeLabel)
          (applyDeleteEdge (oldParentKey, nodeKey, treeEdgeLabel) b).store.nextEdge⟩ := by
  simp only [applyTreeMove, hnode, hnew, hkey, createEdge]

end

/-- The entry at `n` moves to `n + 1`: what is looked up there is what was at `n`. -/
theorem lookup_moved {X : Type} (f : Nat → Option X) {n : Nat} (hnext : f (n + 1) = none) (x : X)
    (id : Nat) :
    (if Equiv.swap n (n + 1) id = n + 1 then some x
      else if Equiv.swap n (n + 1) id = n then none
      else if Equiv.swap n (n + 1) id = n then some x else f (Equiv.swap n (n + 1) id))
      = if id = n then some x else f id := by
  by_cases hid : id = n
  · rw [hid, Equiv.swap_apply_left, if_pos rfl, if_pos rfl]
  · by_cases hid' : id = n + 1
    · rw [hid', Equiv.swap_apply_right, if_neg (Nat.ne_of_lt (Nat.lt_succ_self n)), if_pos rfl,
        if_neg (Nat.succ_ne_self n), hnext]
    · rw [Equiv.swap_apply_of_ne_of_ne hid hid', if_neg hid', if_neg hid, if_neg hid]

/-- An edge that is deleted and created again has the next id, and else nothing changes. -/
theorem sameUpToEdgeIds_recreate {store : Store} {maps : BridgeMaps} (hok : BridgeOk ⟨store, maps⟩)
    (key : EdgeKey) (src dst : NodeId) (label : String) :
    SameUpToEdgeIds ⟨store.addEdge src dst label [], maps.insertEdge key store.nextEdge⟩
      ⟨((store.addEdge src dst label []).dropEdge store.nextEdge).addEdge src dst label [],
        { maps with
          edgeIdMap := ((maps.edgeIdMap.insert key store.nextEdge).erase key).insert key
            (store.nextEdge + 1)
          edgeKeyMap := ((maps.edgeKeyMap.insert store.nextEdge key).erase store.nextEdge).insert
            (store.nextEdge + 1) key }⟩ where
  nodeIdMap := rfl
  nodeKeyMap := rfl
  nodes := fun _ => rfl
  edges := by
    -- no edge and no binding has one of the two ids
    have hnoEdge : ∀ id, store.nextEdge ≤ id → store.edges.lookup id = none := by
      intro id hle
      rw [AList.lookup_eq_none]
      exact fun hmem => absurd (hok.edgeFresh id hmem) (Nat.not_lt.mpr hle)
    have hnoKey : ∀ id, store.nextEdge ≤ id → maps.edgeKeyMap.lookup id = none := by
      intro id hle
      cases hid : maps.edgeKeyMap.lookup id with
      | none => rfl
      | some k =>
        exact absurd (hok.edgeBoundFresh k id ((hok.edgeInverse k id).mpr hid)) (Nat.not_lt.mpr hle)
    refine ⟨Equiv.swap store.nextEdge (store.nextEdge + 1), fun id => ?_, fun k => ?_,
      fun id => ?_⟩
    · show ((((store.edges.insert _ _).erase _).insert _ _).lookup _ : Option Edge)
        = (store.edges.insert _ _).lookup id
      rw [alist_lookup_insert, alist_lookup_erase, alist_lookup_insert, alist_lookup_insert]
      exact lookup_moved store.edges.lookup (hnoEdge _ (Nat.le_succ _)) _ id
    · show (((maps.edgeIdMap.insert _ _).erase _).insert _ _).lookup _
        = ((maps.edgeIdMap.insert _ _).lookup _).map _
      rw [finmap_lookup_insert, finmap_lookup_erase, finmap_lookup_insert]
      by_cases hk : k = key
      · rw [if_pos hk, if_pos hk, Option.map_some, Equiv.swap_apply_left]
      · rw [if_neg hk, if_neg hk, if_neg hk]
        cases hlook : maps.edgeIdMap.lookup k with
        | none => rfl
        | some id =>
          -- a bound id is below the two
          have hlt : id < store.nextEdge := hok.edgeBoundFresh k id hlook
          rw [Option.map_some, Equiv.swap_apply_of_ne_of_ne (Nat.ne_of_lt hlt)
            (Nat.ne_of_lt (Nat.lt_succ_of_lt hlt))]
    · show (((maps.edgeKeyMap.insert _ _).erase _).insert _ _).lookup _
        = (maps.edgeKeyMap.insert _ _).lookup id
      rw [finmap_lookup_insert, finmap_lookup_erase, finmap_lookup_insert, finmap_lookup_insert]
      exact lookup_moved (fun id => maps.edgeKeyMap.lookup id) (hnoKey _ (Nat.le_succ _)) _ id

theorem treeMove_of_same {fault : Nat → Bool} {b b' b'' : Bridge}
    {nodeKey oldParentKey newParentKey : String}
    (hfirst : applyTreeMove nodeKey oldParentKey newParentKey b = b')
    (hsecond : applyTreeMove nodeKey oldParentKey newParentKey b' = b'')
    (hsame : SameUpToEdgeIds b' b'') :
    Idempotent fault (.treeMove nodeKey oldParentKey newParentKey) b := by
  subst hfirst hsecond
  exact idempotent_of_same rfl rfl hsame

/-- The bridge after a `TreeMove` that has deleted the old edge and creates the new one. -/
def withTreeEdge (b : Bridge) (nodeKey newParentKey : String) (node newParent : NodeId) : Bridge :=
  ⟨b.store.addEdge newParent node treeEdgeLabel [],
    b.maps.insertEdge (newParentKey, nodeKey, treeEdgeLabel) b.store.nextEdge⟩

/-- The same `TreeMove` once more. If the two edges have one key, it deletes the edge and creates it
again, and else it changes nothing. -/
theorem applyTreeMove_withTreeEdge {b : Bridge} (hok : BridgeOk b)
    {nodeKey oldParentKey newParentKey : String} {node newParent : NodeId}
    (hnode : b.maps.nodeIdMap.lookup nodeKey = some node)
    (hnew : b.maps.nodeIdMap.lookup newParentKey = some newParent)
    (hgone : b.maps.edgeIdMap.lookup (oldParentKey, nodeKey, treeEdgeLabel) = none) :
    SameUpToEdgeIds (withTreeEdge b nodeKey newParentKey node newParent)
      (applyTreeMove nodeKey oldParentKey newParentKey
        (withTreeEdge b nodeKey newParentKey node newParent)) := by
  have hnode' : (withTreeEdge b nodeKey newParentKey node newParent).maps.nodeIdMap.lookup nodeKey
      = some node := hnode
  have hnew' : (withTreeEdge b nodeKey newParentKey node newParent).maps.nodeIdMap.lookup
      newParentKey = some newParent := hnew
  have hbound : (withTreeEdge b nodeKey newParentKey node newParent).maps.edgeIdMap.lookup
      (newParentKey, nodeKey, treeEdgeLabel) = some b.store.nextEdge := Finmap.lookup_insert _
  by_cases hkeys : oldParentKey = newParentKey
  · -- the new edge has the key of the old one
    subst hkeys
    rw [applyTreeMove_creates hnode' hnew' (applyDeleteEdge_unbinds _),
      applyDeleteEdge_of_bound hbound]
    exact sameUpToEdgeIds_recreate hok _ _ _ _
  · -- the old key stays unbound, and the new one is bound
    have hold : (withTreeEdge b nodeKey newParentKey node newParent).maps.edgeIdMap.lookup
        (oldParentKey, nodeKey, treeEdgeLabel) = none := by
      show (b.maps.edgeIdMap.insert _ _).lookup _ = none
      rw [finmap_lookup_insert, if_neg (fun heq => hkeys (Prod.ext_iff.mp heq).1), hgone]
    have hstay := applyDeleteEdge_of_unbound hold
    rw [applyTreeMove_linked hnode' hnew' (hstay.symm ▸ hbound), hstay]
    exact .refl _

/-- The second `TreeMove` finds the old edge gone and the new one there. If they have one key, it
deletes the edge and creates it again. -/
theorem treeMove_idempotent {fault : Nat → Bool} {b : Bridge} (hok : BridgeOk b)
    (nodeKey oldParentKey newParentKey : String) :
    Idempotent fault (.treeMove nodeKey oldParentKey newParentKey) b := by
  cases hnode : b.maps.nodeIdMap.lookup nodeKey with
  | none =>
    have hsame : applyTreeMove nodeKey oldParentKey newParentKey b = b :=
      applyTreeMove_unbound (.inl hnode)
    exact treeMove_of_same hsame hsame (.refl b)
  | some node =>
  cases hnew : b.maps.nodeIdMap.lookup newParentKey with
  | none =>
    have hsame : applyTreeMove nodeKey oldParentKey newParentKey b = b :=
      applyTreeMove_unbound (.inr hnew)
    exact treeMove_of_same hsame hsame (.refl b)
  | some newParent =>
  obtain ⟨hnodes, -, -⟩ := applyDeleteEdge_nodes (b := b) (oldParentKey, nodeKey, treeEdgeLabel)
  have hgone := applyDeleteEdge_unbinds (b := b) (oldParentKey, nodeKey, treeEdgeLabel)
  have hok' : BridgeOk (applyDeleteEdge (oldParentKey, nodeKey, treeEdgeLabel) b) :=
    bridgeOk_applyLoroOp fault (.deleteEdge oldParentKey nodeKey treeEdgeLabel) hok
  cases hkey : (applyDeleteEdge (oldParentKey, nodeKey, treeEdgeLabel) b).maps.edgeIdMap.lookup
      (newParentKey, nodeKey, treeEdgeLabel) with
  | some eid =>
    -- The new edge is there before the move, and the delete has not touched it.
    have hfirst := applyTreeMove_linked hnode hnew hkey
    have hstay := applyDeleteEdge_of_unbound hgone
    refine treeMove_of_same hfirst ?_ (.refl _)
    rw [applyTreeMove_linked (hnodes ▸ hnode) (hnodes ▸ hnew) (hstay.symm ▸ hkey), hstay]
  | none =>
    have hfirst := applyTreeMove_creates hnode hnew hkey
    exact treeMove_of_same hfirst rfl
      (applyTreeMove_withTreeEdge hok' (hnodes ▸ hnode) (hnodes ▸ hnew) hgone)

/-! ### Calls that fail -/

/-- Every Grafeo call fails. -/
def everyFault (_ : Nat) : Bool := true

/-- The store after some calls that failed. -/
def afterCalls (s : Store) (n : Nat) : Store := { s with calls := s.calls + n }

/-- The property loop stops at its first write. -/
theorem setProperties_failing (set : String → Value → Store → SessionResult Unit)
    (hset : ∀ k v s, set k v s = (.error .grafeo, s.tick))
    (props : List (Σ _ : String, GraphValue)) :
    ∃ res n, ∀ s, setProperties set props s = (res, afterCalls s n) := by
  cases props with
  | nil => exact ⟨.ok (), 0, fun s => rfl⟩
  | cons e rest =>
    refine ⟨.error .grafeo, 1, fun s => ?_⟩
    rw [setProperties, hset]
    rfl

/-- An upsert whose calls fail changes nothing, and its result depends on the maps only. -/
theorem upsertNode_failing (maps : BridgeMaps) (key : String) (labels : List String)
    (properties : Table String GraphValue) : ∃ res n, ∀ s,
      applyLoroOp everyFault (.upsertNode key labels properties) ⟨s, maps⟩
        = (res, ⟨afterCalls s n, maps⟩) := by
  cases hkey : maps.nodeIdMap.lookup key with
  | none =>
    refine ⟨.error .grafeo, 1, fun s => ?_⟩
    simp only [applyLoroOp, applyUpsertNode, hkey]
    rfl
  | some id =>
    obtain ⟨res, n, hloop⟩ := setProperties_failing (setNodeProperty everyFault id)
      (fun _ _ _ => rfl) properties.entries
    refine ⟨res, n, fun s => ?_⟩
    simp only [applyLoroOp, applyUpsertNode, hkey, hloop]

theorem upsertEdge_failing (maps : BridgeMaps) (srcKey dstKey label : String)
    (properties : Table String GraphValue) : ∃ res n, ∀ s,
      applyLoroOp everyFault (.upsertEdge srcKey dstKey label properties) ⟨s, maps⟩
        = (res, ⟨afterCalls s n, maps⟩) := by
  cases hsrc : maps.nodeIdMap.lookup srcKey with
  | none => exact ⟨_, 0, fun s => upsertEdge_unknown properties (.inl hsrc)⟩
  | some src =>
  cases hdst : maps.nodeIdMap.lookup dstKey with
  | none => exact ⟨_, 0, fun s => upsertEdge_unknown properties (.inr hdst)⟩
  | some dst =>
  cases hkey : maps.edgeIdMap.lookup (srcKey, dstKey, label) with
  | none =>
    refine ⟨.error .grafeo, 1, fun s => ?_⟩
    simp only [applyLoroOp, applyUpsertEdge, hsrc, hdst, hkey]
    rfl
  | some eid =>
    obtain ⟨res, n, hloop⟩ := setProperties_failing (setEdgeProperty everyFault eid)
      (fun _ _ _ => rfl) properties.entries
    refine ⟨res, n, fun s => ?_⟩
    simp only [applyLoroOp, applyUpsertEdge, hsrc, hdst, hkey, hloop]

/-- An op whose calls fail, and fail again. -/
theorem idempotent_of_failing {maps : BridgeMaps} {op : LoroOp} (h : ∃ res n, ∀ s,
    applyLoroOp everyFault op ⟨s, maps⟩ = (res, ⟨afterCalls s n, maps⟩)) (s : Store) :
    Idempotent everyFault op ⟨s, maps⟩ := by
  obtain ⟨res, n, happly⟩ := h
  exact idempotent_of_same (happly s) (happly _)
    (sameUpToEdgeIds_of_lookup (fun _ => rfl) fun _ => rfl)

/-! ### Every op -/

/-- On a consistent bridge, every op that is applied twice gives the same result as the first time
and leaves the same bridge up to the edge ids. The Grafeo calls succeed, or they all fail. -/
theorem applyLoroOp_idempotent {fault : Nat → Bool} (hsteady : ∀ n, fault n = fault 0)
    (op : LoroOp) {b : Bridge} (hok : BridgeOk b) :
    (applyLoroOp fault op (applyLoroOp fault op b).2).1 = (applyLoroOp fault op b).1 ∧
      SameUpToEdgeIds (applyLoroOp fault op b).2
        (applyLoroOp fault op (applyLoroOp fault op b).2).2 := by
  have hall : fault = noFault ∨ fault = everyFault := by
    cases h0 : fault 0 with
    | false => exact .inl (funext fun n => (hsteady n).trans h0)
    | true => exact .inr (funext fun n => (hsteady n).trans h0)
  cases op with
  | upsertNode key labels properties =>
    rcases hall with rfl | rfl
    · exact upsertNode_idempotent key labels properties
    · exact idempotent_of_failing (upsertNode_failing b.maps key labels properties) b.store
  | upsertEdge srcKey dstKey label properties =>
    rcases hall with rfl | rfl
    · exact upsertEdge_idempotent srcKey dstKey label properties
    · exact idempotent_of_failing (upsertEdge_failing b.maps srcKey dstKey label properties) b.store
  | deleteNode key => exact deleteNode_idempotent key
  | deleteEdge srcKey dstKey label => exact deleteEdge_idempotent srcKey dstKey label
  | treeMove nodeKey oldParentKey newParentKey =>
    exact treeMove_idempotent hok nodeKey oldParentKey newParentKey

/-- A move to the parent that the node has: the second time, the edge has the next id. -/
theorem applyLoroOp_idempotent_same_parent :
    let b := runOps noFault [.upsertNode "p" [] ∅, .upsertNode "c" [] ∅] Bridge.empty
    let once := (applyLoroOp noFault (.treeMove "c" "p" "p") b).2
    let twice := (applyLoroOp noFault (.treeMove "c" "p" "p") once).2
    once.maps.edgeIdMap.lookup ("p", "c", treeEdgeLabel) = some 0 ∧
      twice.maps.edgeIdMap.lookup ("p", "c", treeEdgeLabel) = some 1 ∧
      SameUpToEdgeIds once twice := by
  intro b once twice
  have hok : BridgeOk b := bridgeOk_runOps noFault _ Bridge.empty bridgeOk_empty
  refine ⟨by decide +kernel, by decide +kernel, ?_⟩
  exact (applyLoroOp_idempotent (fun _ => rfl) (.treeMove "c" "p" "p") hok).2

end GrafeoLoro.Proofs
