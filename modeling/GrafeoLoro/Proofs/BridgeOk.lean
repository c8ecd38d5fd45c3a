import GrafeoLoro.Proofs.ApplyLoroOp

/-!
# `GrafeoLoro.Proofs.BridgeOk`: the consistency of the store and the id maps

`BridgeOk b` says that the two maps of each pair are mutually inverse, that every bound node
exists, that no id in use is one the store has yet to hand out, and that a bound edge that is
still in the store connects the nodes its key names. The last part does not say that a bound
edge is in the store: `DeleteNode` deletes the edges at the node and leaves their bindings.

* `bridgeOk_applyLoroOp`: every op keeps the invariant, whatever fails.
* `bridgeOk_runOps`: so it holds after every sequence of ops from the empty bridge.
* `upsertEdge_linked_iff`: after such a sequence, a successful `UpsertEdge` leaves its key
  bound to an edge between the two nodes exactly when the binding it found, if any, was of
  an edge that is still in the store.
-/

set_option autoImplicit false

namespace GrafeoLoro.Proofs

open GrafeoLoro GrafeoLoro.Lib

/-- The maps are consistent with the store. -/
structure BridgeOk (b : Bridge) : Prop where
  nodeInverse : MutualInverse b.maps.nodeIdMap b.maps.nodeKeyMap
  edgeInverse : MutualInverse b.maps.edgeIdMap b.maps.edgeKeyMap
  nodeLive : ∀ key id, b.maps.nodeIdMap.lookup key = some id → id ∈ b.store.nodes
  nodeFresh : ∀ id, id ∈ b.store.nodes → id < b.store.nextNode
  edgeFresh : ∀ id, id ∈ b.store.edges → id < b.store.nextEdge
  edgeBoundFresh : ∀ key id, b.maps.edgeIdMap.lookup key = some id → id < b.store.nextEdge
  edgeRef : ∀ srcKey dstKey label id e,
    b.maps.edgeIdMap.lookup (srcKey, dstKey, label) = some id →
    b.store.edges.lookup id = some e →
    b.maps.nodeIdMap.lookup srcKey = some e.src ∧
      b.maps.nodeIdMap.lookup dstKey = some e.dst ∧ e.label = label

/-- The maps are consistent with the store, stale edge bindings excluded. -/
structure Consistent (b : Bridge) : Prop extends BridgeOk b where
  edgeLive : ∀ key id, b.maps.edgeIdMap.lookup key = some id → id ∈ b.store.edges

/-- The empty bridge is consistent. -/
theorem bridgeOk_empty : BridgeOk Bridge.empty where
  nodeInverse := MutualInverse.empty
  edgeInverse := MutualInverse.empty
  nodeLive := fun key id h => by simp [Bridge.empty, BridgeMaps.new] at h
  nodeFresh := fun id h => absurd h (AList.notMem_empty id)
  edgeFresh := fun id h => absurd h (AList.notMem_empty id)
  edgeBoundFresh := fun key id h => by simp [Bridge.empty, BridgeMaps.new] at h
  edgeRef := fun s d l id e h => by simp [Bridge.empty, BridgeMaps.new] at h

namespace BridgeOk

/-- A bound node id was handed out before. -/
theorem nodeBoundFresh {b : Bridge} (h : BridgeOk b) {key : String} {id : NodeId}
    (hkey : b.maps.nodeIdMap.lookup key = some id) : id < b.store.nextNode :=
  h.nodeFresh id (h.nodeLive key id hkey)

/-! ### One touch -/

/-- An edge that is left after a node was deleted was there before and is not at the node. -/
theorem mem_dropNode_edges {store : Store} {id : NodeId} {eid : EdgeId} {e : Edge}
    (he : (store.dropNode id).edges.lookup eid = some e) :
    store.edges.lookup eid = some e ∧ e.src ≠ id ∧ e.dst ≠ id := by
  change (filterEntries _ store.edges).lookup eid = some e at he
  rw [lookup_filterEntries] at he
  obtain ⟨hlook, hne⟩ := Option.filter_eq_some_iff.mp he
  simp only [Bool.and_eq_true, bne_iff_ne, ne_eq] at hne
  exact ⟨hlook, hne⟩

/-- Property writes keep the invariant. -/
theorem props {store store' : Store} {maps : BridgeMaps} (h : BridgeOk ⟨store, maps⟩)
    (hp : PropsOnly store store') : BridgeOk ⟨store', maps⟩ where
  nodeInverse := h.nodeInverse
  edgeInverse := h.edgeInverse
  nodeLive := fun key id hkey => (hp.mem_nodes id).mpr (h.nodeLive key id hkey)
  nodeFresh := fun id hid => by
    show id < store'.nextNode
    rw [hp.nextNode]
    exact h.nodeFresh id ((hp.mem_nodes id).mp hid)
  edgeFresh := fun id hid => by
    show id < store'.nextEdge
    rw [hp.nextEdge]
    exact h.edgeFresh id ((hp.mem_edges id).mp hid)
  edgeBoundFresh := fun key id hkey => by
    show id < store'.nextEdge
    rw [hp.nextEdge]
    exact h.edgeBoundFresh key id hkey
  edgeRef := fun s d l id e' hkey he' => by
    obtain ⟨e, he, hsrc, hdst, hlabel⟩ := hp.lookup_edge he'
    obtain ⟨h1, h2, h3⟩ := h.edgeRef s d l id e hkey he
    rw [← hsrc, ← hdst, ← hlabel]
    exact ⟨h1, h2, h3⟩

/-- A new node under an unbound key keeps the invariant. -/
theorem bindNode {store : Store} {maps : BridgeMaps} (h : BridgeOk ⟨store, maps⟩)
    (key : String) (labels : List String) (props : List (Σ _ : String, Value))
    (hkey : maps.nodeIdMap.lookup key = none) :
    BridgeOk ⟨store.addNode labels props, maps.insertNode key store.nextNode⟩ where
  nodeInverse := by
    -- the next id is above every bound id, so no key is bound to it
    refine MutualInverse.insert h.nodeInverse hkey fun k' hk' => ?_
    exact Nat.lt_irrefl store.nextNode (h.nodeBoundFresh hk')
  edgeInverse := h.edgeInverse
  nodeLive := fun k id hk => by
    show id ∈ store.nodes.insert store.nextNode _
    change (maps.nodeIdMap.insert key store.nextNode).lookup k = some id at hk
    rw [finmap_lookup_insert] at hk
    split at hk
    · obtain rfl := Option.some.inj hk
      exact (AList.mem_insert _).mpr (.inl rfl)
    · exact (AList.mem_insert _).mpr (.inr (h.nodeLive k id hk))
  nodeFresh := fun id hid => by
    show id < store.nextNode + 1
    rcases (AList.mem_insert store.nodes).mp hid with rfl | hid
    · exact Nat.lt_succ_self _
    · exact Nat.lt_succ_of_lt (h.nodeFresh id hid)
  edgeFresh := h.edgeFresh
  edgeBoundFresh := h.edgeBoundFresh
  edgeRef := fun s d l id e hk he => by
    obtain ⟨hs, hd, hl⟩ := h.edgeRef s d l id e hk he
    -- the new binding is of an unbound key, so the bindings of the endpoints stay
    exact ⟨finmap_lookup_insert_of_none hkey hs, finmap_lookup_insert_of_none hkey hd, hl⟩

/-- The removal of a bound node keeps the invariant. -/
theorem unbindNode {store : Store} {maps : BridgeMaps} (h : BridgeOk ⟨store, maps⟩)
    (key : String) (id : NodeId) (hkey : maps.nodeIdMap.lookup key = some id) :
    BridgeOk ⟨store.dropNode id, (maps.removeNode key).2⟩ := by
  rw [removeNode_bound hkey]
  -- a key whose id is not the deleted one is not the removed key
  have hkeep : ∀ k v, v ≠ id → maps.nodeIdMap.lookup k = some v →
      (maps.nodeIdMap.erase key).lookup k = some v := by
    intro k v hv hk
    have hkk : k ≠ key := fun h => by
      rw [h, hkey] at hk
      exact hv (Option.some.inj hk).symm
    rw [finmap_lookup_erase, if_neg hkk]
    exact hk
  constructor
  case nodeInverse => exact h.nodeInverse.erase hkey
  case edgeInverse => exact h.edgeInverse
  case nodeLive =>
    intro k v hk
    change (maps.nodeIdMap.erase key).lookup k = some v at hk
    rw [finmap_lookup_erase] at hk
    split at hk
    · cases hk
    · -- another key has another id, so its node is not the deleted one
      rename_i hne
      have hv : v ≠ id := fun hv => hne (h.nodeInverse.key_unique hk (hv ▸ hkey))
      exact (AList.mem_erase).mpr ⟨hv, h.nodeLive k v hk⟩
  case nodeFresh => exact fun v hv => h.nodeFresh v (AList.mem_erase.mp hv).2
  case edgeFresh =>
    intro e he
    refine h.edgeFresh e ?_
    rw [← AList.lookup_isSome] at he ⊢
    obtain ⟨ed, hed⟩ := Option.isSome_iff_exists.mp he
    rw [(mem_dropNode_edges hed).1]
    rfl
  case edgeBoundFresh => exact h.edgeBoundFresh
  case edgeRef =>
    intro s d l e ed hk hed
    -- an edge that is left is not at the deleted node, so its endpoints stay bound
    obtain ⟨hlook, hsrc, hdst⟩ := mem_dropNode_edges hed
    obtain ⟨hs, hd, hl⟩ := h.edgeRef s d l e ed hk hlook
    exact ⟨hkeep s _ hsrc hs, hkeep d _ hdst hd, hl⟩

/-- A new edge between two bound nodes under an unbound key keeps the invariant. -/
theorem bindEdge {store : Store} {maps : BridgeMaps} (h : BridgeOk ⟨store, maps⟩)
    (srcKey dstKey label : String) (src dst : NodeId) (props : List (Σ _ : String, Value))
    (hsrc : maps.nodeIdMap.lookup srcKey = some src)
    (hdst : maps.nodeIdMap.lookup dstKey = some dst)
    (hkey : maps.edgeIdMap.lookup (srcKey, dstKey, label) = none) :
    BridgeOk ⟨store.addEdge src dst label props,
      maps.insertEdge (srcKey, dstKey, label) store.nextEdge⟩ where
  nodeInverse := h.nodeInverse
  edgeInverse := by
    refine MutualInverse.insert h.edgeInverse hkey fun k' hk' => ?_
    exact Nat.lt_irrefl store.nextEdge (h.edgeBoundFresh k' _ hk')
  nodeLive := h.nodeLive
  nodeFresh := h.nodeFresh
  edgeFresh := fun id hid => by
    show id < store.nextEdge + 1
    rcases (AList.mem_insert store.edges).mp hid with rfl | hid
    · exact Nat.lt_succ_self _
    · exact Nat.lt_succ_of_lt (h.edgeFresh id hid)
  edgeBoundFresh := fun k id hk => by
    show id < store.nextEdge + 1
    change (maps.edgeIdMap.insert (srcKey, dstKey, label) store.nextEdge).lookup k = some id at hk
    rw [finmap_lookup_insert] at hk
    split at hk
    · obtain rfl := Option.some.inj hk
      exact Nat.lt_succ_self _
    · exact Nat.lt_succ_of_lt (h.edgeBoundFresh k id hk)
  edgeRef := fun s d l id e hk he => by
    change (maps.edgeIdMap.insert (srcKey, dstKey, label) store.nextEdge).lookup (s, d, l)
      = some id at hk
    change (store.edges.insert store.nextEdge _).lookup id = some e at he
    rw [finmap_lookup_insert] at hk
    rw [alist_lookup_insert] at he
    split at hk
    · -- the new edge connects the nodes that its key names
      rename_i hkk
      obtain rfl := Option.some.inj hk
      obtain ⟨rfl, rfl, rfl⟩ : s = srcKey ∧ d = dstKey ∧ l = label := by
        simpa only [Prod.mk.injEq] using hkk
      rw [if_pos rfl] at he
      obtain rfl := Option.some.inj he
      exact ⟨hsrc, hdst, rfl⟩
    · have hlt : id < store.nextEdge := h.edgeBoundFresh (s, d, l) id hk
      rw [if_neg (Nat.ne_of_lt hlt)] at he
      exact h.edgeRef s d l id e hk he

/-- The removal of a bound edge keeps the invariant. -/
theorem unbindEdge {store : Store} {maps : BridgeMaps} (h : BridgeOk ⟨store, maps⟩)
    (key : EdgeKey) (id : EdgeId) (hkey : maps.edgeIdMap.lookup key = some id) :
    BridgeOk ⟨store.dropEdge id, (maps.removeEdge key).2⟩ := by
  rw [removeEdge_bound hkey]
  have hbound : ∀ k v, (maps.edgeIdMap.erase key).lookup k = some v →
      maps.edgeIdMap.lookup k = some v := by
    intro k v hk
    rw [finmap_lookup_erase] at hk
    split at hk
    · cases hk
    · exact hk
  constructor
  case nodeInverse => exact h.nodeInverse
  case edgeInverse => exact h.edgeInverse.erase hkey
  case nodeLive => exact h.nodeLive
  case nodeFresh => exact h.nodeFresh
  case edgeFresh => exact fun e he => h.edgeFresh e (AList.mem_erase.mp he).2
  case edgeBoundFresh => exact fun k v hk => h.edgeBoundFresh k v (hbound k v hk)
  case edgeRef =>
    intro s d l e ed hk hed
    change (store.edges.erase id).lookup e = some ed at hed
    rw [alist_lookup_erase] at hed
    split at hed
    · cases hed
    · exact h.edgeRef s d l e ed (hbound _ _ hk) hed

/-- Every touch keeps the invariant. -/
theorem touch {b b' : Bridge} (h : BridgeOk b) (ht : Touch b b') : BridgeOk b' := by
  cases ht with
  | props hp => exact h.props hp
  | bindNode key labels props hkey => exact h.bindNode key labels props hkey
  | unbindNode key id hkey => exact h.unbindNode key id hkey
  | bindEdge s d l src dst props hsrc hdst hkey =>
    exact h.bindEdge s d l src dst props hsrc hdst hkey
  | unbindEdge key id hkey => exact h.unbindEdge key id hkey

/-- Every sequence of touches keeps the invariant. -/
theorem touches {b b' : Bridge} (h : BridgeOk b) (ht : Touches b b') : BridgeOk b' := by
  induction ht with
  | refl => exact h
  | tail _ hstep ih => exact ih.touch hstep

end BridgeOk

/-! ### Runs of ops -/

/-- Every op keeps the invariant, whatever fails. -/
theorem bridgeOk_applyLoroOp (fault : Nat → Bool) (op : LoroOp) {b : Bridge}
    (h : BridgeOk b) : BridgeOk (applyLoroOp fault op b).2 :=
  h.touches (applyLoroOp_touches fault op b)

/-- Every sequence of ops keeps the invariant. -/
theorem bridgeOk_runOps (fault : Nat → Bool) (ops : List LoroOp) :
    ∀ b, BridgeOk b → BridgeOk (runOps fault ops b) := by
  induction ops with
  | nil => exact fun b h => h
  | cons op rest ih => exact fun b h => ih _ (bridgeOk_applyLoroOp fault op h)

/-! ### A successful `UpsertEdge` -/

/-- The key is bound to an edge of the store, and the edge has the key's label and connects
the nodes bound to the key's endpoints. -/
def EdgeLinked (b : Bridge) (srcKey dstKey label : String) : Prop :=
  ∃ src dst eid e, b.maps.nodeIdMap.lookup srcKey = some src ∧
    b.maps.nodeIdMap.lookup dstKey = some dst ∧
    b.maps.edgeIdMap.lookup (srcKey, dstKey, label) = some eid ∧
    b.store.edges.lookup eid = some e ∧ e.src = src ∧ e.dst = dst ∧ e.label = label

/-- The binding of the key, if there is one, is of an edge that is in the store. -/
def EdgeBindingLive (b : Bridge) (key : EdgeKey) : Prop :=
  ∀ eid, b.maps.edgeIdMap.lookup key = some eid → eid ∈ b.store.edges

/-- On a consistent bridge, a bound key is linked exactly when its edge is in the store. -/
theorem edgeLinked_iff {b : Bridge} (h : BridgeOk b) {srcKey dstKey label : String}
    {eid : EdgeId} (hkey : b.maps.edgeIdMap.lookup (srcKey, dstKey, label) = some eid) :
    EdgeLinked b srcKey dstKey label ↔ eid ∈ b.store.edges := by
  constructor
  · rintro ⟨src, dst, eid', e, -, -, hkey', he, -⟩
    obtain rfl : eid = eid' := Option.some.inj (hkey.symm.trans hkey')
    rw [← AList.lookup_isSome, he]
    rfl
  · intro hmem
    obtain ⟨e, he⟩ := Option.isSome_iff_exists.mp (AList.lookup_isSome.mpr hmem)
    obtain ⟨hsrc, hdst, hlabel⟩ := h.edgeRef _ _ _ _ _ hkey he
    exact ⟨e.src, e.dst, eid, e, hsrc, hdst, hkey, he, rfl, rfl, hlabel⟩

/-- What a successful `UpsertEdge` did: it wrote properties on the bound edge, or it created
the edge it bound. -/
theorem applyUpsertEdge_ok_cases {fault : Nat → Bool} {srcKey dstKey label : String}
    {properties : Table String GraphValue} {b b' : Bridge}
    (hok : applyUpsertEdge fault srcKey dstKey label properties b = (.ok (), b')) :
    (∃ eid, b.maps.edgeIdMap.lookup (srcKey, dstKey, label) = some eid ∧
        b'.maps = b.maps ∧ PropsOnly b.store b'.store) ∨
      (b.maps.edgeIdMap.lookup (srcKey, dstKey, label) = none ∧
        ∃ src dst, b'.maps = b.maps.insertEdge (srcKey, dstKey, label) b.store.nextEdge ∧
          b'.store = b.store.tick.addEdge src dst label (grafeoProps properties.entries)) := by
  obtain heq | ⟨src, dst, _, _, hbound⟩ :=
    applyUpsertEdge_cases fault srcKey dstKey label properties b
  · cases (Prod.mk.inj (heq.symm.trans hok)).1
  · obtain ⟨eid, res, store, hkey, hprops, heq⟩ | ⟨_, heq⟩ | ⟨hkey, heq⟩ := hbound
    · obtain rfl := (Prod.mk.inj (heq.symm.trans hok)).2
      exact .inl ⟨eid, hkey, rfl, hprops⟩
    · cases (Prod.mk.inj (heq.symm.trans hok)).1
    · obtain rfl := (Prod.mk.inj (heq.symm.trans hok)).2
      exact .inr ⟨hkey, src, dst, rfl, rfl⟩

/-- On a consistent bridge, a successful `UpsertEdge` links its key exactly when the binding
it found, if any, was live. -/
theorem applyUpsertEdge_linked_iff {fault : Nat → Bool} {srcKey dstKey label : String}
    {properties : Table String GraphValue} {b b' : Bridge} (h : BridgeOk b)
    (hok : applyUpsertEdge fault srcKey dstKey label properties b = (.ok (), b')) :
    EdgeLinked b' srcKey dstKey label ↔ EdgeBindingLive b (srcKey, dstKey, label) := by
  have hafter : BridgeOk b' := by
    have htouches := applyUpsertEdge_touches fault srcKey dstKey label properties b
    rw [hok] at htouches
    exact h.touches htouches
  obtain ⟨eid, hkey, hmaps, hprops⟩ | ⟨hkey, src, dst, hmaps, hstore⟩ :=
    applyUpsertEdge_ok_cases hok
  · -- a hit writes properties only, so the bound edge is as live as it was
    rw [edgeLinked_iff hafter (hmaps ▸ hkey), hprops.mem_edges]
    exact ⟨fun hmem _ heid => Option.some.inj (hkey.symm.trans heid) ▸ hmem,
      fun hlive => hlive eid hkey⟩
  · -- a miss creates the edge that it binds
    have hbound : b'.maps.edgeIdMap.lookup (srcKey, dstKey, label) = some b.store.nextEdge := by
      rw [hmaps]
      exact Finmap.lookup_insert _
    have hmem : b.store.nextEdge ∈ b'.store.edges := by
      rw [hstore]
      exact (AList.mem_insert _).mpr (.inl rfl)
    rw [edgeLinked_iff hafter hbound]
    refine ⟨fun _ eid heid => ?_, fun _ => hmem⟩
    rw [hkey] at heid
    cases heid

/-- After every sequence of ops from the empty bridge, a successful `UpsertEdge` links its
key exactly when the binding it found, if any, was live. -/
theorem upsertEdge_linked_iff (fault : Nat → Bool) (ops : List LoroOp)
    (srcKey dstKey label : String) (properties : Table String GraphValue)
    (hok : (applyLoroOp fault (.upsertEdge srcKey dstKey label properties)
      (runOps fault ops Bridge.empty)).1 = .ok ()) :
    EdgeLinked (applyLoroOp fault (.upsertEdge srcKey dstKey label properties)
        (runOps fault ops Bridge.empty)).2 srcKey dstKey label ↔
      EdgeBindingLive (runOps fault ops Bridge.empty) (srcKey, dstKey, label) :=
  applyUpsertEdge_linked_iff (bridgeOk_runOps fault ops _ bridgeOk_empty)
    (Prod.ext hok rfl)

/-- Two vertices and an edge between them. Then the source vertex is deleted and written
again. -/
def recreatedSource : List LoroOp :=
  [.upsertNode "a" [] ∅, .upsertNode "b" [] ∅, .upsertEdge "a" "b" "KNOWS" ∅,
    .deleteNode "a", .upsertNode "a" [] ∅]

/-- A first `UpsertEdge` between two vertices links its key. -/
theorem upsertEdge_linked_first :
    EdgeLinked (applyLoroOp (fun _ => false) (.upsertEdge "a" "b" "KNOWS" ∅)
      (runOps (fun _ => false) [.upsertNode "a" [] ∅, .upsertNode "b" [] ∅] Bridge.empty)).2
      "a" "b" "KNOWS" := by
  refine (upsertEdge_linked_iff (fun _ => false) [.upsertNode "a" [] ∅, .upsertNode "b" [] ∅]
    "a" "b" "KNOWS" ∅ (by decide)).mpr fun eid heid => ?_
  have hnone : (runOps (fun _ => false) [.upsertNode "a" [] ∅, .upsertNode "b" [] ∅]
      Bridge.empty).maps.edgeIdMap.lookup ("a", "b", "KNOWS") = none := by decide
  rw [hnone] at heid
  cases heid

/-- The `UpsertEdge` after `recreatedSource` succeeds and links nothing: it finds the binding
of the edge that went with the deleted vertex. -/
theorem upsertEdge_stale_binding :
    (applyLoroOp (fun _ => false) (.upsertEdge "a" "b" "KNOWS" ∅)
        (runOps (fun _ => false) recreatedSource Bridge.empty)).1 = .ok () ∧
      ¬ EdgeLinked (applyLoroOp (fun _ => false) (.upsertEdge "a" "b" "KNOWS" ∅)
        (runOps (fun _ => false) recreatedSource Bridge.empty)).2 "a" "b" "KNOWS" := by
  refine ⟨by decide, ?_⟩
  rintro ⟨src, dst, eid, e, -, -, hkey, he, -⟩
  have hbound : (applyLoroOp (fun _ => false) (.upsertEdge "a" "b" "KNOWS" ∅)
      (runOps (fun _ => false) recreatedSource Bridge.empty)).2.maps.edgeIdMap.lookup
      ("a", "b", "KNOWS") = some 0 := by decide
  obtain rfl := Option.some.inj (hbound.symm.trans hkey)
  have hgone : 0 ∉ (applyLoroOp (fun _ => false) (.upsertEdge "a" "b" "KNOWS" ∅)
      (runOps (fun _ => false) recreatedSource Bridge.empty)).2.store.edges := by decide
  rw [← AList.lookup_isSome, he] at hgone
  exact hgone rfl

end GrafeoLoro.Proofs
