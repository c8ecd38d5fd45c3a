import GrafeoLoro.Bridge.SyncRun
import GrafeoLoro.Proofs.ApplyLoroOp

/-!
# `GrafeoLoro.Proofs.Bijection`: the id maps under both directions

An inbound op edits a pair of id maps by at most one erase of a bound pair and one insert of
an unbound key with the id that Grafeo handed out (`applyLoroOp_nodeEdits`,
`applyLoroOp_edgeEdits`). An outbound event does the same, with one exception: the create of an
edge binds the key of its endpoints without a look at the binding that is there.

* `validateTextBijection_ok_iff`: the runtime check accepts exactly the mutually inverse maps.
* `nodeBijection_always`: the node maps are mutually inverse in every state of every run, and
  the runtime check accepts them.
* `edgeBijection_iff`: the edge maps are mutually inverse in every state of a run exactly when
  no outbound create binds a key that is bound to another edge.
* `edgeBijection_parallel`: two parallel edges of Grafeo break the edge maps.
-/

set_option autoImplicit false

namespace GrafeoLoro.Proofs

open GrafeoLoro GrafeoLoro.Lib

/-! ### The runtime check -/

/-- Check 1 passes exactly when the inverse map sends every id of the list back. -/
theorem checkForward_ok_iff (inverse : HashMap NodeId String)
    (entries : List (Σ _ : String, NodeId)) :
    checkForward inverse entries = .ok () ↔
      ∀ e ∈ entries, inverse.lookup e.2 = some e.1 := by
  induction entries with
  | nil => simp [checkForward]
  | cons e rest ih =>
    rw [List.forall_mem_cons, ← ih, checkForward]
    cases hid : inverse.lookup e.2 with
    | none => simp
    | some key =>
      by_cases hkey : key = e.1
      · simp [hkey]
      · simp [hkey]

/-- Check 2 passes exactly when the forward map sends every key of the list back. -/
theorem checkInverse_ok_iff (forward : HashMap String NodeId)
    (entries : List (Σ _ : NodeId, String)) :
    checkInverse forward entries = .ok () ↔
      ∀ e ∈ entries, forward.lookup e.2 = some e.1 := by
  induction entries with
  | nil => simp [checkInverse]
  | cons e rest ih =>
    rw [List.forall_mem_cons, ← ih, checkInverse]
    cases hkey : forward.lookup e.2 with
    | none => simp
    | some id =>
      by_cases hid : id = e.1
      · simp [hid]
      · simp [hid]

/-- The runtime check accepts exactly the mutually inverse maps, in every order of
iteration. -/
theorem validateTextBijection_ok_iff (forward : Table String NodeId)
    (inverse : Table NodeId String) :
    validateTextBijection forward inverse = .ok () ↔
      MutualInverse forward.toFinmap inverse.toFinmap := by
  have hsplit : validateTextBijection forward inverse = .ok () ↔
      checkForward inverse.toFinmap forward.entries = .ok () ∧
        checkInverse forward.toFinmap inverse.entries = .ok () := by
    unfold validateTextBijection
    cases checkForward inverse.toFinmap forward.entries <;> simp
  rw [hsplit, checkForward_ok_iff, checkInverse_ok_iff]
  constructor
  · rintro ⟨hforward, hinverse⟩ key id
    constructor
    · intro hkey
      exact hforward ⟨key, id⟩ (AList.mem_lookup_iff.mp hkey)
    · intro hid
      exact hinverse ⟨id, key⟩ (AList.mem_lookup_iff.mp hid)
  · intro h
    constructor
    · intro e he
      exact (h e.1 e.2).mp (AList.mem_lookup_iff.mpr he)
    · intro e he
      exact (h e.2 e.1).mpr (AList.mem_lookup_iff.mpr he)

/-! ### The helper methods -/

/-- Edits of the node maps. -/
abbrev NodeEdits (new : NodeId → Prop) (maps maps' : BridgeMaps) : Prop :=
  Edits new maps.nodeIdMap maps.nodeKeyMap maps'.nodeIdMap maps'.nodeKeyMap

/-- Edits of the edge maps. -/
abbrev EdgeEdits (new : EdgeId → Prop) (maps maps' : BridgeMaps) : Prop :=
  Edits new maps.edgeIdMap maps.edgeKeyMap maps'.edgeIdMap maps'.edgeKeyMap

theorem removeNode_unbinds (key : String) (maps : BridgeMaps) :
    Unbinds maps.nodeIdMap maps.nodeKeyMap (maps.removeNode key).2.nodeIdMap
      (maps.removeNode key).2.nodeKeyMap := by
  unfold BridgeMaps.removeNode
  split
  · exact .inl ⟨rfl, rfl⟩
  · rename_i id hkey
    exact .inr ⟨key, id, hkey, rfl, rfl⟩

theorem removeEdge_unbinds (key : EdgeKey) (maps : BridgeMaps) :
    Unbinds maps.edgeIdMap maps.edgeKeyMap (maps.removeEdge key).2.edgeIdMap
      (maps.removeEdge key).2.edgeKeyMap := by
  unfold BridgeMaps.removeEdge
  split
  · exact .inl ⟨rfl, rfl⟩
  · rename_i id hkey
    exact .inr ⟨key, id, hkey, rfl, rfl⟩

/-- A removal by id needs the inverse map to be right: the key it finds is bound to the id. -/
theorem removeEdgeById_unbinds (id : EdgeId) {maps : BridgeMaps}
    (h : MutualInverse maps.edgeIdMap maps.edgeKeyMap) :
    Unbinds maps.edgeIdMap maps.edgeKeyMap (maps.removeEdgeById id).2.edgeIdMap
      (maps.removeEdgeById id).2.edgeKeyMap := by
  unfold BridgeMaps.removeEdgeById
  split
  · exact .inl ⟨rfl, rfl⟩
  · rename_i key hid
    exact .inr ⟨key, id, (h key id).mpr hid, rfl, rfl⟩

theorem removeEdgeById_nodeMaps (id : EdgeId) (maps : BridgeMaps) :
    (maps.removeEdgeById id).2.nodeIdMap = maps.nodeIdMap ∧
      (maps.removeEdgeById id).2.nodeKeyMap = maps.nodeKeyMap := by
  unfold BridgeMaps.removeEdgeById
  split
  · exact ⟨rfl, rfl⟩
  · exact ⟨rfl, rfl⟩

/-! ### The inbound direction -/

/-- Grafeo handed out the node id between the two bridges. -/
def NewNode (b b' : Bridge) (id : NodeId) : Prop :=
  id = b.store.nextNode ∧ b'.store.nextNode ≠ b.store.nextNode

/-- Grafeo handed out the edge id between the two bridges. -/
def NewEdge (b b' : Bridge) (id : EdgeId) : Prop :=
  id = b.store.nextEdge ∧ b'.store.nextEdge ≠ b.store.nextEdge

/-- An upsert of a vertex binds its key to the node it creates, if it creates one. -/
theorem applyUpsertNode_binds (fault : Nat → Bool) (key : String) (labels : List String)
    (properties : Table String GraphValue) (b : Bridge) :
    Binds (NewNode b (applyUpsertNode fault key labels properties b).2) b.maps.nodeIdMap
        b.maps.nodeKeyMap (applyUpsertNode fault key labels properties b).2.maps.nodeIdMap
        (applyUpsertNode fault key labels properties b).2.maps.nodeKeyMap ∧
      (applyUpsertNode fault key labels properties b).2.maps.edgeIdMap = b.maps.edgeIdMap ∧
      (applyUpsertNode fault key labels properties b).2.maps.edgeKeyMap = b.maps.edgeKeyMap := by
  obtain ⟨id, res, store, _, _, heq⟩ | ⟨_, heq⟩ | ⟨hkey, heq⟩ :=
    applyUpsertNode_cases fault key labels properties b
  · rw [heq]
    exact ⟨.inl ⟨rfl, rfl⟩, rfl, rfl⟩
  · rw [heq]
    exact ⟨.inl ⟨rfl, rfl⟩, rfl, rfl⟩
  · rw [heq]
    have hnew : b.store.nextNode + 1 ≠ b.store.nextNode := Nat.succ_ne_self _
    exact ⟨.inr ⟨key, b.store.nextNode, hkey, ⟨rfl, hnew⟩, rfl, rfl⟩, rfl, rfl⟩

/-- An upsert of an edge binds its key to the edge it creates, if it creates one. -/
theorem applyUpsertEdge_binds (fault : Nat → Bool) (src dst label : String)
    (properties : Table String GraphValue) (b : Bridge) :
    Binds (NewEdge b (applyUpsertEdge fault src dst label properties b).2) b.maps.edgeIdMap
        b.maps.edgeKeyMap (applyUpsertEdge fault src dst label properties b).2.maps.edgeIdMap
        (applyUpsertEdge fault src dst label properties b).2.maps.edgeKeyMap ∧
      (applyUpsertEdge fault src dst label properties b).2.maps.nodeIdMap = b.maps.nodeIdMap ∧
      (applyUpsertEdge fault src dst label properties b).2.maps.nodeKeyMap
        = b.maps.nodeKeyMap := by
  obtain heq | ⟨_, _, _, _, hbound⟩ := applyUpsertEdge_cases fault src dst label properties b
  · rw [heq]
    exact ⟨.inl ⟨rfl, rfl⟩, rfl, rfl⟩
  · obtain ⟨eid, res, store, _, _, heq⟩ | ⟨_, heq⟩ | ⟨hkey, heq⟩ := hbound
    · rw [heq]
      exact ⟨.inl ⟨rfl, rfl⟩, rfl, rfl⟩
    · rw [heq]
      exact ⟨.inl ⟨rfl, rfl⟩, rfl, rfl⟩
    · rw [heq]
      have hnew : b.store.nextEdge + 1 ≠ b.store.nextEdge := Nat.succ_ne_self _
      exact ⟨.inr ⟨_, b.store.nextEdge, hkey, ⟨rfl, hnew⟩, rfl, rfl⟩, rfl, rfl⟩

/-- A delete of an edge hands out no id. -/
theorem applyDeleteEdge_nextEdge (key : EdgeKey) (b : Bridge) :
    (applyDeleteEdge key b).store.nextEdge = b.store.nextEdge := by
  rw [applyDeleteEdge_eq]
  cases b.maps.edgeIdMap.lookup key <;> rfl

/-- A tree move unbinds the edge from the old parent, if it is bound, and binds the edge from
the new parent, if it is not. -/
theorem applyTreeMove_edits (node oldParent newParent : String) (b : Bridge) :
    EdgeEdits (NewEdge b (applyTreeMove node oldParent newParent b)) b.maps
        (applyTreeMove node oldParent newParent b).maps ∧
      (applyTreeMove node oldParent newParent b).maps.nodeIdMap = b.maps.nodeIdMap ∧
      (applyTreeMove node oldParent newParent b).maps.nodeKeyMap = b.maps.nodeKeyMap := by
  have hunbind := removeEdge_unbinds (oldParent, node, treeEdgeLabel) b.maps
  have hnodes := removeEdge_nodeMaps (oldParent, node, treeEdgeLabel) b.maps
  have hnext := applyDeleteEdge_nextEdge (oldParent, node, treeEdgeLabel) b
  rw [← applyDeleteEdge_maps] at hunbind hnodes
  unfold applyTreeMove
  split
  · rename_i nodeId newParentId _ _
    dsimp only
    split
    · exact ⟨.unbind hunbind, hnodes⟩
    · -- the new edge comes after the unbinding, and the id is the one of the store before it
      rename_i hkey
      refine ⟨⟨_, _, hunbind, .inr ⟨_, _, hkey, ⟨hnext, ?_⟩, rfl, rfl⟩⟩, hnodes⟩
      show (applyDeleteEdge (oldParent, node, treeEdgeLabel) b).store.nextEdge + 1 ≠ _
      rw [hnext]
      exact Nat.succ_ne_self _
  · exact ⟨.same ⟨rfl, rfl⟩, rfl, rfl⟩

/-- What an inbound op does to the node maps. -/
theorem applyLoroOp_nodeEdits (fault : Nat → Bool) (op : LoroOp) (b : Bridge) :
    NodeEdits (NewNode b (applyLoroOp fault op b).2) b.maps (applyLoroOp fault op b).2.maps := by
  -- the ops on edges leave the node maps alone
  cases op with
  | upsertNode key labels properties =>
    exact .bind (applyUpsertNode_binds fault key labels properties b).1
  | upsertEdge src dst label properties =>
    exact .same (applyUpsertEdge_binds fault src dst label properties b).2
  | deleteNode key =>
    show NodeEdits _ b.maps (applyDeleteNode key b).maps
    rw [applyDeleteNode_maps]
    exact .unbind (removeNode_unbinds key b.maps)
  | deleteEdge src dst label =>
    show NodeEdits _ b.maps (applyDeleteEdge (src, dst, label) b).maps
    rw [applyDeleteEdge_maps]
    exact .same (removeEdge_nodeMaps (src, dst, label) b.maps)
  | treeMove node oldParent newParent =>
    exact .same (applyTreeMove_edits node oldParent newParent b).2

/-- What an inbound op does to the edge maps. -/
theorem applyLoroOp_edgeEdits (fault : Nat → Bool) (op : LoroOp) (b : Bridge) :
    EdgeEdits (NewEdge b (applyLoroOp fault op b).2) b.maps (applyLoroOp fault op b).2.maps := by
  -- the ops on vertices leave the edge maps alone
  cases op with
  | upsertNode key labels properties =>
    exact .same (applyUpsertNode_binds fault key labels properties b).2
  | upsertEdge src dst label properties =>
    exact .bind (applyUpsertEdge_binds fault src dst label properties b).1
  | deleteNode key =>
    show EdgeEdits _ b.maps (applyDeleteNode key b).maps
    rw [applyDeleteNode_maps]
    exact .same (removeNode_edgeMaps key b.maps)
  | deleteEdge src dst label =>
    show EdgeEdits _ b.maps (applyDeleteEdge (src, dst, label) b).maps
    rw [applyDeleteEdge_maps]
    exact .unbind (removeEdge_unbinds (src, dst, label) b.maps)
  | treeMove node oldParent newParent =>
    exact (applyTreeMove_edits node oldParent newParent b).1

/-! ### The outbound direction -/

/-- The event is the create of the edge `id`, its endpoints resolve to `key`, and Loro accepts
the write. -/
structure BindsEdge (fails : Bool) (event : ChangeEvent EntityChange) (maps : BridgeMaps)
    (id : EdgeId) (key : EdgeKey) : Prop where
  accepted : fails = false
  entityId : event.payload.entityId = .edge id
  kind : event.payload.kind = .create
  endpoints : lookupEdgeEndpoints event.payload maps = some key

/-- A write of a node leaves the maps alone. -/
theorem applyNodeWrite_maps (fails : Bool) (id : NodeId) (change : EntityChange)
    (doc : LoroDoc) (maps : BridgeMaps) :
    (applyNodeWrite fails id change doc maps).2.2 = maps := by
  unfold applyNodeWrite writeVertex
  split
  · split <;> rfl
  · rfl

/-- A delete of a node unbinds it. -/
theorem applyNodeDelete_maps (fails : Bool) (id : NodeId) (doc : LoroDoc)
    (maps : BridgeMaps) :
    (applyNodeDelete fails id doc maps).2.2 = maps ∨
      ∃ key, (applyNodeDelete fails id doc maps).2.2 = (maps.removeNode key).2 := by
  unfold applyNodeDelete
  split
  · rename_i key _
    exact .inr ⟨key, rfl⟩
  · exact .inl rfl

/-- An update of an edge leaves the maps alone. -/
theorem applyEdgeUpdate_maps (fails : Bool) (id : EdgeId) (change : EntityChange)
    (doc : LoroDoc) (maps : BridgeMaps) :
    (applyEdgeUpdate fails id change doc maps).2.2 = maps := by
  unfold applyEdgeUpdate writeEdge
  split
  · split <;> rfl
  · rfl

/-- A delete of an edge unbinds it. -/
theorem applyEdgeDelete_maps (fails : Bool) (id : EdgeId) (doc : LoroDoc)
    (maps : BridgeMaps) :
    (applyEdgeDelete fails id doc maps).2.2 = (maps.removeEdgeById id).2 := by
  unfold applyEdgeDelete
  split
  · rename_i key maps' hremove
    rw [hremove]
  · rename_i maps' hremove
    rw [hremove]

/-- A create of an edge binds it, or leaves the maps alone. -/
theorem applyEdgeCreate_maps (fails : Bool) (id : EdgeId) (change : EntityChange)
    (doc : LoroDoc) (maps : BridgeMaps) :
    (applyEdgeCreate fails id change doc maps).2.2 =
      match lookupEdgeEndpoints change maps with
      | some key => if fails then maps else maps.insertEdge key id
      | none => maps := by
  unfold applyEdgeCreate writeEdge
  cases lookupEdgeEndpoints change maps with
  | none => rfl
  | some key => cases fails <;> rfl

/-- Everything an outbound event can do to the maps: nothing, unbind a node, unbind an edge by
its id, or bind the edge it creates. -/
theorem outbound_maps_cases (fails : Bool) (event : ChangeEvent EntityChange)
    (doc : LoroDoc) (maps : BridgeMaps) :
    (applyChangeEventToLoro fails event doc maps).2.2 = maps ∨
    (∃ key, (applyChangeEventToLoro fails event doc maps).2.2 = (maps.removeNode key).2) ∨
    (∃ id, (applyChangeEventToLoro fails event doc maps).2.2 = (maps.removeEdgeById id).2) ∨
    ∃ id key, BindsEdge fails event maps id key ∧
      (applyChangeEventToLoro fails event doc maps).2.2 = maps.insertEdge key id := by
  unfold applyChangeEventToLoro
  split
  · exact .inl (applyNodeWrite_maps fails _ _ doc maps)
  · exact .inl (applyNodeWrite_maps fails _ _ doc maps)
  · cases applyNodeDelete_maps fails _ doc maps with
    | inl hsame => exact .inl hsame
    | inr hremove => exact .inr (.inl hremove)
  · rename_i id hid hkind
    have hcreate := applyEdgeCreate_maps fails id event.payload doc maps
    cases hends : lookupEdgeEndpoints event.payload maps with
    | none =>
      rw [hends] at hcreate
      exact .inl hcreate
    | some key =>
      rw [hends] at hcreate
      cases fails with
      | true => exact .inl hcreate
      | false => exact .inr (.inr (.inr ⟨id, key, ⟨rfl, hid, hkind, hends⟩, hcreate⟩))
  · exact .inl (applyEdgeUpdate_maps fails _ _ doc maps)
  · exact .inr (.inr (.inl ⟨_, applyEdgeDelete_maps fails _ doc maps⟩))
  · exact .inl rfl

/-- What an outbound event does to the node maps: at most an erase. -/
theorem outbound_nodeUnbinds (fails : Bool) (event : ChangeEvent EntityChange)
    (doc : LoroDoc) (maps : BridgeMaps) :
    Unbinds maps.nodeIdMap maps.nodeKeyMap
      (applyChangeEventToLoro fails event doc maps).2.2.nodeIdMap
      (applyChangeEventToLoro fails event doc maps).2.2.nodeKeyMap := by
  obtain hmaps | ⟨key, hmaps⟩ | ⟨id, hmaps⟩ | ⟨id, key, _, hmaps⟩ :=
    outbound_maps_cases fails event doc maps
  · rw [hmaps]
    exact .inl ⟨rfl, rfl⟩
  · rw [hmaps]
    exact removeNode_unbinds key maps
  · rw [hmaps]
    exact .inl (removeEdgeById_nodeMaps id maps)
  · rw [hmaps]
    exact .inl ⟨rfl, rfl⟩

/-- What an outbound event that binds an edge does to the maps. -/
theorem outbound_bindsEdge {fails : Bool} {event : ChangeEvent EntityChange}
    {maps : BridgeMaps} {id : EdgeId} {key : EdgeKey}
    (hbinds : BindsEdge fails event maps id key) (doc : LoroDoc) :
    (applyChangeEventToLoro fails event doc maps).2.2 = maps.insertEdge key id := by
  unfold applyChangeEventToLoro
  rw [hbinds.entityId, hbinds.kind]
  show (applyEdgeCreate fails id event.payload doc maps).2.2 = _
  rw [applyEdgeCreate_maps, hbinds.endpoints, hbinds.accepted]
  rfl

/-- What an outbound event that binds no edge does to the edge maps: at most an erase. -/
theorem outbound_edgeUnbinds {fails : Bool} {event : ChangeEvent EntityChange}
    {maps : BridgeMaps} (hbinds : ∀ id key, ¬ BindsEdge fails event maps id key)
    (doc : LoroDoc) (h : MutualInverse maps.edgeIdMap maps.edgeKeyMap) :
    Unbinds maps.edgeIdMap maps.edgeKeyMap
      (applyChangeEventToLoro fails event doc maps).2.2.edgeIdMap
      (applyChangeEventToLoro fails event doc maps).2.2.edgeKeyMap := by
  obtain hmaps | ⟨key, hmaps⟩ | ⟨id, hmaps⟩ | ⟨id, key, hbind, _⟩ :=
    outbound_maps_cases fails event doc maps
  · rw [hmaps]
    exact .inl ⟨rfl, rfl⟩
  · rw [hmaps]
    exact .inl (removeNode_edgeMaps key maps)
  · rw [hmaps]
    exact removeEdgeById_unbinds id h
  · exact absurd hbind (hbinds id key)

/-! ### Runs -/

/-- Grafeo hands out no node id that is bound. -/
def FreshNodeId (s : SyncState) : SyncAction → Prop
  | .inbound fault op => ∀ id, NewNode s.bridge (s.inbound fault op).bridge id →
      s.maps.nodeKeyMap.lookup id = none
  | _ => True

/-- Grafeo hands out no edge id that is bound. An edge that another session created is unbound,
and an edge of the bridge itself comes back under the key it is bound to. -/
def FreshEdgeId (s : SyncState) : SyncAction → Prop
  | .inbound fault op => ∀ id, NewEdge s.bridge (s.inbound fault op).bridge id →
      s.maps.edgeKeyMap.lookup id = none
  | .outbound fails event => ∀ id key, BindsEdge fails event s.maps id key →
      s.maps.edgeKeyMap.lookup id = none ∨ s.maps.edgeKeyMap.lookup id = some key
  | .outside _ _ => True

/-- No outbound create binds a key that is bound to another edge. -/
def NoParallelEdge (s : SyncState) : SyncAction → Prop
  | .outbound fails event => ∀ id key, BindsEdge fails event s.maps id key →
      s.maps.edgeIdMap.lookup key = none ∨ s.maps.edgeIdMap.lookup key = some id
  | _ => True

/-- The node maps are mutually inverse, and the runtime check accepts them in every order of
iteration. -/
def NodeBijection (s : SyncState) : Prop :=
  MutualInverse s.maps.nodeIdMap s.maps.nodeKeyMap ∧
    ∀ forward inverse, forward.toFinmap = s.maps.nodeIdMap →
      inverse.toFinmap = s.maps.nodeKeyMap → validateTextBijection forward inverse = .ok ()

/-- The edge maps are mutually inverse and have one size. -/
def EdgeBijection (s : SyncState) : Prop :=
  MutualInverse s.maps.edgeIdMap s.maps.edgeKeyMap ∧
    s.maps.edgeIdMap.keys.card = s.maps.edgeKeyMap.keys.card

/-- The runtime check accepts mutually inverse maps. -/
theorem nodeBijection_of_mutualInverse {s : SyncState}
    (h : MutualInverse s.maps.nodeIdMap s.maps.nodeKeyMap) : NodeBijection s := by
  refine ⟨h, fun forward inverse hforward hinverse => ?_⟩
  rw [validateTextBijection_ok_iff, hforward, hinverse]
  exact h

/-- A step keeps the node maps mutually inverse. -/
theorem next_nodeMaps {s s' : SyncState} {a : SyncAction} (hstep : s.next a = some s')
    (hfresh : FreshNodeId s a) (h : MutualInverse s.maps.nodeIdMap s.maps.nodeKeyMap) :
    MutualInverse s'.maps.nodeIdMap s'.maps.nodeKeyMap := by
  cases a with
  | inbound fault op =>
    obtain rfl := Option.some.inj hstep
    exact h.edits (applyLoroOp_nodeEdits fault op s.bridge) hfresh
  | outbound fails event =>
    obtain rfl := Option.some.inj hstep
    exact h.unbinds (outbound_nodeUnbinds fails event s.doc s.maps)
  | outside store doc =>
    obtain rfl := Option.some.inj hstep
    exact h

/-- In every run from empty maps in which Grafeo hands out no bound node id, the node maps are
mutually inverse in every state. -/
theorem nodeBijection_always (store : Store) (doc : LoroDoc)
    (h : List (SyncState × SyncAction)) (t : SyncState)
    (hrun : Exec SyncState.next (SyncState.init store doc) h t)
    (hfresh : Steps FreshNodeId h) : Always NodeBijection h t := by
  have hinverse := hrun.invariant_of_steps
    (I := fun s => MutualInverse s.maps.nodeIdMap s.maps.nodeKeyMap)
    (fun s a s' hstep hC hI => next_nodeMaps hstep hC hI) MutualInverse.empty hfresh
  exact ⟨fun p hp => nodeBijection_of_mutualInverse (hinverse.1 p hp),
    nodeBijection_of_mutualInverse hinverse.2⟩

/-- Mutually inverse maps have one size, so the second part of `EdgeBijection` follows. -/
theorem edgeBijection_iff_mutualInverse (s : SyncState) :
    EdgeBijection s ↔ MutualInverse s.maps.edgeIdMap s.maps.edgeKeyMap :=
  ⟨fun h => h.1, fun h => ⟨h, h.card_keys⟩⟩

/-- A step keeps the edge maps mutually inverse exactly when it binds no key that is bound to
another edge. -/
theorem next_edgeMaps {s s' : SyncState} {a : SyncAction} (hstep : s.next a = some s')
    (hfresh : FreshEdgeId s a) (h : MutualInverse s.maps.edgeIdMap s.maps.edgeKeyMap) :
    MutualInverse s'.maps.edgeIdMap s'.maps.edgeKeyMap ↔ NoParallelEdge s a := by
  cases a with
  | inbound fault op =>
    obtain rfl := Option.some.inj hstep
    exact iff_of_true (h.edits (applyLoroOp_edgeEdits fault op s.bridge) hfresh) trivial
  | outbound fails event =>
    obtain rfl := Option.some.inj hstep
    show MutualInverse (applyChangeEventToLoro fails event s.doc s.maps).2.2.edgeIdMap
      (applyChangeEventToLoro fails event s.doc s.maps).2.2.edgeKeyMap ↔ _
    by_cases hbinds : ∃ id key, BindsEdge fails event s.maps id key
    · obtain ⟨id, key, hbind⟩ := hbinds
      -- the insert keeps the maps inverse exactly when the key is free or has this edge
      rw [outbound_bindsEdge hbind]
      have hiff := h.insert_iff (hfresh id key hbind)
      constructor
      · intro h' id' key' hbind'
        -- the event determines the edge and its key
        obtain rfl : id = id' := by
          have hid := hbind.entityId.symm.trans hbind'.entityId
          exact EntityId.edge.inj hid
        obtain rfl : key = key' :=
          Option.some.inj (hbind.endpoints.symm.trans hbind'.endpoints)
        exact hiff.mp h'
      · intro hpar
        exact hiff.mpr (hpar id key hbind)
    · have hno : ∀ id key, ¬ BindsEdge fails event s.maps id key :=
        fun id key hbind => hbinds ⟨id, key, hbind⟩
      exact iff_of_true (h.unbinds (outbound_edgeUnbinds hno s.doc h))
        fun id key hbind => absurd hbind (hno id key)
  | outside store doc =>
    obtain rfl := Option.some.inj hstep
    exact iff_of_true h trivial

/-- In every run from empty maps with fresh edge ids, the edge maps are mutually inverse and of
one size in every state exactly when no outbound create binds a key that is bound to another
edge. -/
theorem edgeBijection_iff (store : Store) (doc : LoroDoc)
    (h : List (SyncState × SyncAction)) (t : SyncState)
    (hrun : Exec SyncState.next (SyncState.init store doc) h t)
    (hfresh : Steps FreshEdgeId h) :
    Always EdgeBijection h t ↔ Steps NoParallelEdge h := by
  have hempty : EdgeBijection (SyncState.init store doc) :=
    (edgeBijection_iff_mutualInverse _).mpr MutualInverse.empty
  exact hrun.always_iff (I := fun _ => True) (fun _ _ _ _ _ _ => trivial) trivial hempty
    (fun s a s' hstep hG _ hP => by
      rw [edgeBijection_iff_mutualInverse]
      exact next_edgeMaps hstep hG hP.1) hfresh

/-! ### Two runs -/

/-- An upsert of a vertex without properties. -/
def upsertVertex (key : String) : SyncAction := .inbound (fun _ => false) (.upsertNode key [] ∅)

/-- The delete event of the node `id`. -/
def deleteEvent (id : NodeId) : SyncAction :=
  .outbound false ⟨7, ⟨.node id, .delete, none, none, none, none⟩⟩

/-- The create event of an edge from the node `0` to the node `1`. -/
def knowsEvent (id : EdgeId) : SyncAction :=
  .outbound false ⟨7, ⟨.edge id, .create, none, some 0, some 1, some "KNOWS"⟩⟩

/-- A vertex is written, deleted by Grafeo, and written again. -/
theorem nodeBijection_recreated :
    ∃ h t, Exec SyncState.next (SyncState.init Store.empty ⟨∅, ∅⟩) h t ∧
      h.map Prod.snd = [upsertVertex "a", deleteEvent 0, upsertVertex "a"] ∧
      t.maps.nodeIdMap.lookup "a" = some 1 ∧ Always NodeBijection h t := by
  have hrun : Exec SyncState.next (SyncState.init Store.empty ⟨∅, ∅⟩) _ _ :=
    Exec.snoc (Exec.snoc (Exec.snoc .nil (a := upsertVertex "a") rfl) (a := deleteEvent 0) rfl)
      (a := upsertVertex "a") rfl
  refine ⟨_, _, hrun, rfl, by decide, nodeBijection_always Store.empty ⟨∅, ∅⟩ _ _ hrun ?_⟩
  refine steps_snoc.mpr ⟨steps_snoc.mpr ⟨steps_snoc.mpr ⟨steps_nil, ?_⟩, ?_⟩, ?_⟩
  · rintro id ⟨rfl, -⟩
    decide
  · trivial
  · rintro id ⟨rfl, -⟩
    decide

/-- One edge between two vertices keeps the edge maps. -/
theorem edgeBijection_one_edge :
    ∃ h t, Exec SyncState.next (SyncState.init Store.empty ⟨∅, ∅⟩) h t ∧
      h.map Prod.snd = [upsertVertex "a", upsertVertex "b", knowsEvent 0] ∧
      t.maps.edgeIdMap.lookup ("a", "b", "KNOWS") = some 0 ∧ Always EdgeBijection h t := by
  have hrun : Exec SyncState.next (SyncState.init Store.empty ⟨∅, ∅⟩) _ _ :=
    Exec.snoc (Exec.snoc (Exec.snoc .nil (a := upsertVertex "a") rfl) (a := upsertVertex "b") rfl)
      (a := knowsEvent 0) rfl
  refine ⟨_, _, hrun, rfl, by decide,
    (edgeBijection_iff Store.empty ⟨∅, ∅⟩ _ _ hrun ?_).mpr ?_⟩
  · refine steps_snoc.mpr ⟨steps_snoc.mpr ⟨steps_snoc.mpr ⟨steps_nil,
      fun id hid => absurd rfl hid.2⟩, fun id hid => absurd rfl hid.2⟩, ?_⟩
    intro id key hbind
    obtain rfl := EntityId.edge.inj hbind.entityId
    exact .inl (by decide)
  · refine steps_snoc.mpr ⟨steps_snoc.mpr ⟨steps_snoc.mpr ⟨steps_nil, trivial⟩, trivial⟩, ?_⟩
    intro id key hbind
    obtain rfl := Option.some.inj hbind.endpoints
    exact .inl (by decide)

/-- Grafeo has two edges with the same endpoints and label. The second create takes the key of
the first, and the entry of the first stays in the inverse map. -/
theorem edgeBijection_parallel :
    ∃ h t, Exec SyncState.next (SyncState.init Store.empty ⟨∅, ∅⟩) h t ∧
      h.map Prod.snd = [upsertVertex "a", upsertVertex "b", knowsEvent 0, knowsEvent 1] ∧
      Steps FreshEdgeId h ∧ t.maps.edgeIdMap.keys.card = 1 ∧
      t.maps.edgeKeyMap.keys.card = 2 ∧ ¬ EdgeBijection t := by
  have hrun : Exec SyncState.next (SyncState.init Store.empty ⟨∅, ∅⟩) _ _ :=
    Exec.snoc (Exec.snoc (Exec.snoc (Exec.snoc .nil (a := upsertVertex "a") rfl)
      (a := upsertVertex "b") rfl) (a := knowsEvent 0) rfl) (a := knowsEvent 1) rfl
  refine ⟨_, _, hrun, rfl, ?_, by decide, by decide, fun hbij => ?_⟩
  · refine steps_snoc.mpr ⟨steps_snoc.mpr ⟨steps_snoc.mpr ⟨steps_snoc.mpr ⟨steps_nil,
      fun id hid => absurd rfl hid.2⟩, fun id hid => absurd rfl hid.2⟩, ?_⟩, ?_⟩
    · intro id key hbind
      obtain rfl := EntityId.edge.inj hbind.entityId
      exact .inl (by decide)
    · intro id key hbind
      obtain rfl := EntityId.edge.inj hbind.entityId
      exact .inl (by decide)
  · exact absurd hbij.2 (by decide)

end GrafeoLoro.Proofs
