import GrafeoLoro.Proofs.BridgeOk
import GrafeoLoro.Proofs.TreeMove
import GrafeoLoro.Proofs.TreeOps
import Mathlib.Data.Multiset.AddSub

/-!
# `GrafeoLoro.Proofs.Reparent`: the two ways to reparent a node

`sync_tree_move_to_grafeo` works on node ids and reads the store. `apply_tree_move` works on
keys and reads the id maps. `Mirrored` says that store and maps have the same nodes and edges.
`childEdges` are the `CHILD` edges of a store, each as the pair of its parent and its child, with
repetitions.

* `childEdges_syncTreeMove`: the first path does nothing if the parents are equal. Otherwise it
  takes the old edge away, and it always adds the new one.
* `childEdges_applyTreeMove`: the second path takes the old edge away, and adds the new one
  unless it is there.
* `reparent_agree_iff`: the two leave the same edges exactly when the parents are equal if and
  only if the new parent has the node already.
* `reparent_disagree`: both ways to differ.
-/

set_option autoImplicit false

namespace GrafeoLoro.Proofs

open GrafeoLoro GrafeoLoro.Lib

/-- The store and the maps have the same nodes and the same edges. -/
structure Mirrored (b : Bridge) : Prop extends Consistent b where
  nodeBound : ∀ id ∈ b.store.nodes, b.maps.nodeKeyMap.lookup id ≠ none
  edgeBound : ∀ id ∈ b.store.edges, b.maps.edgeKeyMap.lookup id ≠ none

/-- The `CHILD` edges of a list of edges. -/
def childPairs (entries : List (Σ _ : EdgeId, Edge)) : List (NodeId × NodeId) :=
  (entries.filter fun e => e.2.label == treeEdgeLabel).map fun e => (e.2.src, e.2.dst)

/-- The `CHILD` edges of a store. -/
def childEdges (store : Store) : Multiset (NodeId × NodeId) := childPairs store.edges.entries

/-! ### The edges of a store -/

theorem mem_childEdges {store : Store} {p c : NodeId} :
    (p, c) ∈ childEdges store ↔ Child store p c := by
  show (p, c) ∈ childPairs store.edges.entries ↔ _
  unfold childPairs Child
  rw [List.mem_map]
  constructor
  · rintro ⟨⟨eid, e⟩, he, heq⟩
    obtain ⟨hmem, hlabel⟩ := List.mem_filter.mp he
    obtain ⟨hsrc, hdst⟩ := Prod.mk.inj heq
    exact ⟨eid, e, AList.mem_lookup_iff.mpr hmem, by simpa using hlabel, hsrc, hdst⟩
  · rintro ⟨eid, e, he, hlabel, hsrc, hdst⟩
    have hmem : (⟨eid, e⟩ : Σ _ : EdgeId, Edge) ∈
        store.edges.entries.filter fun e => e.2.label == treeEdgeLabel :=
      List.mem_filter.mpr ⟨AList.mem_lookup_iff.mp he, by simp [hlabel]⟩
    exact ⟨⟨eid, e⟩, hmem, by rw [hsrc, hdst]⟩

/-- A deleted `CHILD` edge goes once. -/
theorem childEdges_dropEdge {store : Store} {eid : EdgeId} {e : Edge}
    (he : store.edges.lookup eid = some e) (hlabel : e.label = treeEdgeLabel) :
    childEdges (store.dropEdge eid) = (childEdges store).erase (e.src, e.dst) := by
  have hkey : eid ∈ store.edges.entries.keys := by
    have hmem : eid ∈ store.edges := by
      rw [← AList.lookup_isSome, he]
      rfl
    exact AList.mem_keys.mp hmem
  obtain ⟨e', before, after, hnot, hentries, hrest⟩ := List.exists_of_kerase hkey
  -- the entry that `kerase` takes is the one that the lookup finds
  have hsame : e' = e := by
    have hlook : store.edges.lookup eid = some e' := AList.mem_lookup_iff.mpr (by
      rw [hentries]
      simp)
    exact Option.some.inj (hlook.symm.trans he)
  subst hsame
  show (childPairs (store.edges.entries.kerase eid) : Multiset (NodeId × NodeId))
    = Multiset.erase (childPairs store.edges.entries) (e'.src, e'.dst)
  rw [hrest, hentries]
  unfold childPairs
  simp only [List.filter_append, List.filter_cons, hlabel, beq_self_eq_true, if_true,
    List.map_append, List.map_cons]
  rw [← Multiset.coe_add, ← Multiset.coe_add, ← Multiset.cons_coe, Multiset.add_cons,
    Multiset.erase_cons_head]

/-- A created `CHILD` edge comes once. -/
theorem childEdges_addEdge {store : Store} (p c : NodeId)
    (props : List (Σ _ : String, Value)) (hfresh : store.nextEdge ∉ store.edges) :
    childEdges (store.addEdge p c treeEdgeLabel props) = (p, c) ::ₘ childEdges store := by
  have hentries : (store.addEdge p c treeEdgeLabel props).edges.entries
      = ⟨store.nextEdge, ⟨p, c, treeEdgeLabel, insertAll ∅ props⟩⟩ :: store.edges.entries :=
    AList.entries_insert_of_notMem hfresh
  show (childPairs _ : Multiset (NodeId × NodeId)) = _
  rw [hentries]
  unfold childPairs
  rw [List.filter_cons_of_pos (by simp)]
  rfl

/-- The writes of a move on the store: the old edge goes, if there is one, and the new one
comes. -/
theorem childEdges_reparent {store : Store} (hfresh : ∀ id ∈ store.edges, id < store.nextEdge)
    (nodeId oldParent newParent : NodeId) :
    childEdges (reparent (oldParentEdge store oldParent nodeId) nodeId newParent store)
      = (newParent, nodeId) ::ₘ (childEdges store).erase (oldParent, nodeId) := by
  have hnew : store.nextEdge ∉ store.edges := fun hmem => Nat.lt_irrefl _ (hfresh _ hmem)
  cases hold : oldParentEdge store oldParent nodeId with
  | none =>
    have habsent : (oldParent, nodeId) ∉ childEdges store :=
      fun hmem => oldParentEdge_none hold (mem_childEdges.mp hmem)
    rw [Multiset.erase_of_notMem habsent]
    exact childEdges_addEdge newParent nodeId [] hnew
  | some eid =>
    obtain ⟨e, he, hlabel, hsrc, hdst⟩ := oldParentEdge_some hold
    have herase := childEdges_dropEdge he hlabel
    rw [hsrc, hdst] at herase
    rw [← herase]
    -- the deletion hands out no id, so the next id is still new
    apply childEdges_addEdge newParent nodeId []
    intro hmem
    exact hnew (AList.mem_erase.mp hmem).2

/-! ### The move on the store -/

/-- The `CHILD` edges depend on the edges of the store only. -/
theorem childEdges_congr {store store' : Store} (h : store'.edges = store.edges) :
    childEdges store' = childEdges store := by
  unfold childEdges
  rw [h]

/-- A move on the store that succeeds. -/
theorem childEdges_syncTreeMove {debug : NodeId → String} {fault : Nat → Bool}
    {nodeId oldParent newParent : NodeId} {store store' : Store}
    (hfresh : ∀ id ∈ store.edges, id < store.nextEdge) (hnode : nodeId ∈ store.nodes)
    (hnew : newParent ∈ store.nodes)
    (hok : syncTreeMoveToGrafeo debug fault nodeId oldParent newParent store = (.ok (), store')) :
    childEdges store' = if oldParent = newParent then childEdges store
      else (newParent, nodeId) ::ₘ (childEdges store).erase (oldParent, nodeId) := by
  have hprobe : probeTreeMove debug nodeId oldParent newParent store
      = if oldParent = newParent then some (.ok ()) else none := by
    simp [probeTreeMove, nodeExists, hnode, hnew]
  by_cases hsame : oldParent = newParent
  · -- the call returns before it opens a transaction
    rw [if_pos hsame] at hprobe ⊢
    simp only [syncTreeMoveToGrafeo, hprobe] at hok
    rw [(Prod.mk.inj hok).2]
  · rw [if_neg hsame] at hprobe ⊢
    have hedges := (syncTreeMove_ok hprobe hok).2
    rw [childEdges_congr hedges]
    exact childEdges_reparent hfresh nodeId oldParent newParent

/-! ### The move on the bridge -/

/-- The edge that a bound key of two bound nodes names connects the two nodes. -/
theorem Mirrored.edge_of_bound {b : Bridge} (h : Mirrored b) {parentKey nodeKey label : String}
    {parent nodeId : NodeId} {eid : EdgeId}
    (hparent : b.maps.nodeIdMap.lookup parentKey = some parent)
    (hnode : b.maps.nodeIdMap.lookup nodeKey = some nodeId)
    (hkey : b.maps.edgeIdMap.lookup (parentKey, nodeKey, label) = some eid) :
    ∃ e, b.store.edges.lookup eid = some e ∧ e.label = label ∧ e.src = parent ∧
      e.dst = nodeId := by
  have hlive := AList.lookup_isSome.mpr (h.edgeLive _ eid hkey)
  obtain ⟨e, he⟩ := Option.isSome_iff_exists.mp hlive
  obtain ⟨hsrc, hdst, hlabel⟩ := h.edgeRef _ _ _ eid e hkey he
  have hp : e.src = parent := Option.some.inj (hsrc.symm.trans hparent)
  have hn : e.dst = nodeId := Option.some.inj (hdst.symm.trans hnode)
  exact ⟨e, he, hlabel, hp, hn⟩

/-- On a mirrored bridge, the key of a `CHILD` edge is bound exactly when the store has the
edge. -/
theorem Mirrored.bound_iff {b : Bridge} (h : Mirrored b) {parentKey nodeKey : String}
    {parent nodeId : NodeId} (hparent : b.maps.nodeIdMap.lookup parentKey = some parent)
    (hnode : b.maps.nodeIdMap.lookup nodeKey = some nodeId) :
    b.maps.edgeIdMap.lookup (parentKey, nodeKey, treeEdgeLabel) ≠ none ↔
      (parent, nodeId) ∈ childEdges b.store := by
  rw [mem_childEdges]
  constructor
  · intro hbound
    obtain ⟨eid, hkey⟩ := Option.ne_none_iff_exists'.mp hbound
    exact ⟨eid, h.edge_of_bound hparent hnode hkey⟩
  · rintro ⟨eid, e, he, hlabel, rfl, rfl⟩
    -- the binding of the edge names its endpoints, and a node has one key
    have hmem : eid ∈ b.store.edges := by
      rw [← AList.lookup_isSome, he]
      rfl
    obtain ⟨⟨src, dst, label⟩, hkey⟩ := Option.ne_none_iff_exists'.mp (h.edgeBound eid hmem)
    have hid := (h.edgeInverse _ eid).mpr hkey
    obtain ⟨hsrc, hdst, hlabel'⟩ := h.edgeRef src dst label eid e hid he
    have hs : src = parentKey := h.nodeInverse.key_unique hsrc hparent
    have hd : dst = nodeKey := h.nodeInverse.key_unique hdst hnode
    rw [← hs, ← hd, ← hlabel, hlabel', hid]
    exact Option.some_ne_none eid

/-- The `CHILD` edges after the old edge was unbound. -/
theorem Mirrored.childEdges_deleteEdge {b : Bridge} (h : Mirrored b)
    {parentKey nodeKey : String} {parent nodeId : NodeId}
    (hparent : b.maps.nodeIdMap.lookup parentKey = some parent)
    (hnode : b.maps.nodeIdMap.lookup nodeKey = some nodeId) :
    childEdges (applyDeleteEdge (parentKey, nodeKey, treeEdgeLabel) b).store
      = (childEdges b.store).erase (parent, nodeId) := by
  have hbound := h.bound_iff hparent hnode
  rw [applyDeleteEdge_eq]
  cases hkey : b.maps.edgeIdMap.lookup (parentKey, nodeKey, treeEdgeLabel) with
  | none =>
    rw [hkey] at hbound
    have habsent : (parent, nodeId) ∉ childEdges b.store :=
      fun hmem => absurd rfl (hbound.mpr hmem)
    exact (Multiset.erase_of_notMem habsent).symm
  | some eid =>
    obtain ⟨e, he, hlabel, rfl, rfl⟩ := h.edge_of_bound hparent hnode hkey
    exact childEdges_dropEdge he hlabel

/-- A move on the bridge. -/
theorem childEdges_applyTreeMove {b : Bridge} (h : Mirrored b)
    {nodeKey oldKey newKey : String} {nodeId oldParent newParent : NodeId}
    (hnode : b.maps.nodeIdMap.lookup nodeKey = some nodeId)
    (hold : b.maps.nodeIdMap.lookup oldKey = some oldParent)
    (hnew : b.maps.nodeIdMap.lookup newKey = some newParent) :
    childEdges (applyTreeMove nodeKey oldKey newKey b).store =
      if oldParent ≠ newParent ∧ (newParent, nodeId) ∈ childEdges b.store then
        (childEdges b.store).erase (oldParent, nodeId)
      else (newParent, nodeId) ::ₘ (childEdges b.store).erase (oldParent, nodeId) := by
  have hdelete := h.childEdges_deleteEdge hold hnode
  have hbridge := bridgeOk_applyLoroOp (fun _ => false)
    (.deleteEdge oldKey nodeKey treeEdgeLabel) h.toBridgeOk
  change BridgeOk (applyDeleteEdge (oldKey, nodeKey, treeEdgeLabel) b) at hbridge
  have hbound : (applyDeleteEdge (oldKey, nodeKey, treeEdgeLabel) b).maps.edgeIdMap.lookup
      (newKey, nodeKey, treeEdgeLabel) ≠ none ↔
        oldParent ≠ newParent ∧ (newParent, nodeId) ∈ childEdges b.store := by
    have herase := edgeIdMap_applyDeleteEdge b (oldKey, nodeKey, treeEdgeLabel)
      (newKey, nodeKey, treeEdgeLabel)
    rw [herase, h.bound_iff hnew hnode, and_comm]
    apply and_congr_left
    intro _
    -- the keys are equal exactly when the nodes are
    constructor
    · intro hne heq
      exact hne (by rw [h.nodeInverse.key_unique hnew (heq ▸ hold)])
    · intro hne heq
      have hkeys : newKey = oldKey := congrArg Prod.fst heq
      rw [hkeys, hold] at hnew
      exact hne (Option.some.inj hnew)
  unfold applyTreeMove
  rw [hnode, hnew]
  dsimp only
  cases hkey : (applyDeleteEdge (oldKey, nodeKey, treeEdgeLabel) b).maps.edgeIdMap.lookup
      (newKey, nodeKey, treeEdgeLabel) with
  | some eid =>
    -- the new parent has the node already
    rw [hkey] at hbound
    rw [if_pos (hbound.mp (Option.some_ne_none eid))]
    exact hdelete
  | none =>
    rw [hkey] at hbound
    rw [if_neg fun hcond => hbound.mpr hcond rfl, ← hdelete]
    apply childEdges_addEdge newParent nodeId []
    exact fun hmem => Nat.lt_irrefl _ (hbridge.edgeFresh _ hmem)

/-! ### The comparison -/

/-- On a mirrored bridge, a move on the store that succeeds leaves the same `CHILD` edges as the
move on the bridge exactly when this holds: the old parent is the new parent if and only if the
new parent has the node already. -/
theorem reparent_agree_iff (debug : NodeId → String) (fault : Nat → Bool) (b : Bridge)
    (hmirror : Mirrored b) (nodeKey oldKey newKey : String)
    (nodeId oldParent newParent : NodeId) (store' : Store)
    (hnode : b.maps.nodeIdMap.lookup nodeKey = some nodeId)
    (hold : b.maps.nodeIdMap.lookup oldKey = some oldParent)
    (hnew : b.maps.nodeIdMap.lookup newKey = some newParent)
    (hok : syncTreeMoveToGrafeo debug fault nodeId oldParent newParent b.store
      = (.ok (), store')) :
    childEdges store' = childEdges (applyTreeMove nodeKey oldKey newKey b).store ↔
      (oldParent = newParent ↔ (newParent, nodeId) ∈ childEdges b.store) := by
  rw [childEdges_applyTreeMove hmirror hnode hold hnew,
    childEdges_syncTreeMove hmirror.edgeFresh (hmirror.nodeLive _ _ hnode)
      (hmirror.nodeLive _ _ hnew) hok]
  have hmore : ∀ (x : NodeId × NodeId) (s : Multiset (NodeId × NodeId)), s ≠ x ::ₘ s := by
    intro x s heq
    have hcard := congrArg Multiset.card heq
    rw [Multiset.card_cons] at hcard
    omega
  -- the two results differ by one copy of the new edge, or not at all
  by_cases hsame : oldParent = newParent
  · subst hsame
    by_cases hhas : (oldParent, nodeId) ∈ childEdges b.store
    · -- the edge goes and comes again
      simp [hhas, Multiset.cons_erase]
    · simp [hhas, hmore]
  · by_cases hhas : (newParent, nodeId) ∈ childEdges b.store
    · simp [hsame, hhas, (hmore _ _).symm]
    · simp [hsame, hhas]

/-- A consistent bridge with finitely many things to look at: it is mirrored if every id of the
store has a key and every id with an edge key is in the store. -/
theorem mirrored_of_keys {b : Bridge} (h : BridgeOk b)
    (hnodes : ∀ id ∈ b.store.nodes.keys, b.maps.nodeKeyMap.lookup id ≠ none)
    (hedges : ∀ id ∈ b.store.edges.keys, b.maps.edgeKeyMap.lookup id ≠ none)
    (hlive : ∀ id ∈ b.maps.edgeKeyMap.keys, id ∈ b.store.edges) : Mirrored b where
  toBridgeOk := h
  edgeLive key id hkey := by
    have hid := (h.edgeInverse key id).mp hkey
    exact hlive id (Finmap.mem_keys.mpr (Finmap.mem_iff.mpr ⟨key, hid⟩))
  nodeBound id hid := hnodes id (AList.mem_keys.mp hid)
  edgeBound id hid := hedges id (AList.mem_keys.mp hid)

/-- Three vertices, and the first is a child of the third. -/
def oneChild : Bridge :=
  runOps (fun _ => false) [.upsertNode "a" [] ∅, .upsertNode "b" [] ∅, .upsertNode "c" [] ∅,
    .treeMove "a" "" "c"] Bridge.empty

theorem oneChild_mirrored : Mirrored oneChild :=
  mirrored_of_keys (bridgeOk_runOps _ _ _ bridgeOk_empty) (by decide) (by decide) (by decide)

/-- The two ways move the child to the second vertex. -/
theorem reparent_agree_move :
    childEdges (syncTreeMoveToGrafeo (fun _ => "") (fun _ => false) 0 2 1 oneChild.store).2
      = childEdges (applyTreeMove "a" "c" "b" oneChild).store :=
  (reparent_agree_iff (fun _ => "") (fun _ => false) oneChild oneChild_mirrored "a" "c" "b" 0 2 1
    _ (by decide) (by decide) (by decide) (Prod.ext (by decide) rfl)).mpr (by decide)

/-- The child is moved from the second vertex to the third, whose child it is: the move on the
store adds a second edge. The second vertex is moved from the first to the first, whose child
it is not: only the move on the bridge adds an edge. -/
theorem reparent_disagree :
    Mirrored oneChild ∧
      ((syncTreeMoveToGrafeo (fun _ => "") (fun _ => false) 0 1 2 oneChild.store).1 = .ok () ∧
        childEdges (syncTreeMoveToGrafeo (fun _ => "") (fun _ => false) 0 1 2
          oneChild.store).2 = {(2, 0), (2, 0)} ∧
        childEdges (applyTreeMove "a" "b" "c" oneChild).store = {(2, 0)}) ∧
      (syncTreeMoveToGrafeo (fun _ => "") (fun _ => false) 1 0 0 oneChild.store).1 = .ok () ∧
        childEdges (syncTreeMoveToGrafeo (fun _ => "") (fun _ => false) 1 0 0
          oneChild.store).2 = {(2, 0)} ∧
        childEdges (applyTreeMove "b" "a" "a" oneChild).store = {(0, 1), (2, 0)} :=
  ⟨oneChild_mirrored, ⟨by decide, by decide, by decide⟩, by decide, by decide, by decide⟩

end GrafeoLoro.Proofs
