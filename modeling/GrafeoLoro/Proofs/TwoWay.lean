import GrafeoLoro.Proofs.SyncViews

/-!
# `GrafeoLoro.Proofs.TwoWay`: what the two sides agree on when the queues are empty

The proof looks through the queues: the view of the document after all events on their way
agrees with the view of the store after all ops on their way. A user step crosses another one
when it touches a vertex that has a change of the other side on its way (`Uncrossed`).

An inbound write sets the properties of the new entry and removes none. So the node keeps what
a write of the document drops, and the two sides have the same properties only when no write
drops one (`KeepsEntry`).

* `twoWayOk_next`: every uncrossed step of portable values keeps the invariant `TwoWayOk`.
* `twoWay_converges`: so after every run of such steps, in any order, the two sides agree as
  soon as both queues are empty.
* `crossing_writes_swap`: two crossing writes of one property swap its values, in every order.
-/

set_option autoImplicit false

namespace GrafeoLoro.Proofs

open GrafeoLoro GrafeoLoro.Lib

/-! ### The invariant -/

/-- The event is one of the node `id`. -/
def onNode (id : NodeId) (event : ChangeEvent EntityChange) : Bool :=
  match event.payload.entityId with
  | .node id' => id' == id
  | _ => false

/-- The ops of the key on their way. -/
def inboundOps (s : TwoWay) (key : String) : List LoroOp :=
  s.inbound.filter fun op => writtenKey op == some key

/-- The events of the node of the key on their way. -/
def pendingEvents (s : TwoWay) (key : String) : List (ChangeEvent EntityChange) :=
  match s.bridge.maps.nodeIdMap.lookup key with
  | some id => s.outbound.filter (onNode id)
  | none => []

/-- At most one side has changes of the key on their way, and the two sides agree on the key
once these have arrived. -/
structure KeyOk (exact : Prop) (s : TwoWay) (key : String) : Prop where
  oneSided : inboundOps s key = [] ∨ pendingEvents s key = []
  portable : ∀ event ∈ pendingEvents s key, PortableEvent event
  agree : Agree exact ((pendingEvents s key).foldl viewEvent (docView s.doc key))
    ((inboundOps s key).foldl viewOp (storeView s.bridge key))

/-- An event on its way is one of a node that was handed out, and the node of a delete is gone. -/
structure EventOk (store : Store) (event : ChangeEvent EntityChange) : Prop where
  shape : ∃ epoch id kind after, event = nodeEvent epoch id kind after ∧ kind ≠ .other ∧
    id < store.nextNode ∧ (kind = .delete → id ∉ store.nodes)

/-- The invariant of the uncrossed runs. -/
structure TwoWayOk (exact : Prop) (s : TwoWay) : Prop where
  bound : Bound s.bridge
  ops : ∀ op ∈ s.inbound, ∃ key, writtenKey op = some key
  events : ∀ event ∈ s.outbound, EventOk s.bridge.store event
  /-- The delete of a node is its last event. -/
  deleteLast : s.outbound.Pairwise fun event later =>
    event.payload.kind = .delete → later.payload.entityId ≠ event.payload.entityId
  /-- A bound node that is gone has its delete on the way. -/
  missing : ∀ key id, s.bridge.maps.nodeIdMap.lookup key = some id → id ∉ s.bridge.store.nodes →
    ∃ event ∈ s.outbound, event.payload.kind = .delete ∧ event.payload.entityId = .node id
  keys : ∀ key, KeyOk exact s key

section
variable {exact : Prop} {s s' : TwoWay} {key : String} {id : NodeId}

/-- The events on their way of a bound key. -/
theorem pendingEvents_bound (hkey : s.bridge.maps.nodeIdMap.lookup key = some id) :
    pendingEvents s key = s.outbound.filter (onNode id) := by
  rw [pendingEvents, hkey]

/-- An unbound key has no events on their way. -/
theorem pendingEvents_unbound (hkey : s.bridge.maps.nodeIdMap.lookup key = none) :
    pendingEvents s key = [] := by
  rw [pendingEvents, hkey]

/-- An event of another node. -/
theorem onNode_ne {id' : NodeId} {event : ChangeEvent EntityChange}
    (hnode : event.payload.entityId = .node id) (hne : id ≠ id') : onNode id' event = false := by
  rw [onNode, hnode]
  exact beq_eq_false_iff_ne.mpr hne

/-- The events on their way of a key whose node the step does not touch. -/
theorem pendingEvents_frame
    (hmap : s'.bridge.maps.nodeIdMap.lookup key = s.bridge.maps.nodeIdMap.lookup key)
    (hqueue : ∀ id, s.bridge.maps.nodeIdMap.lookup key = some id →
      s'.outbound.filter (onNode id) = s.outbound.filter (onNode id)) :
    pendingEvents s' key = pendingEvents s key := by
  cases hkey : s.bridge.maps.nodeIdMap.lookup key with
  | none => rw [pendingEvents_unbound hkey, pendingEvents_unbound (hmap.trans hkey)]
  | some id =>
    rw [pendingEvents_bound hkey, pendingEvents_bound (hmap.trans hkey), hqueue id hkey]

/-- A key that the step does not touch. -/
theorem KeyOk.frame (h : KeyOk exact s key) (hdoc : docView s'.doc key = docView s.doc key)
    (hstore : storeView s'.bridge key = storeView s.bridge key)
    (hops : inboundOps s' key = inboundOps s key)
    (hevents : pendingEvents s' key = pendingEvents s key) : KeyOk exact s' key := by
  constructor
  · rw [hops, hevents]
    exact h.oneSided
  · rw [hevents]
    exact h.portable
  · rw [hdoc, hstore, hops, hevents]
    exact h.agree

/-- An event on its way of the node of a bound key. -/
theorem mem_pendingEvents {event : ChangeEvent EntityChange}
    (hkey : s.bridge.maps.nodeIdMap.lookup key = some id) (hmem : event ∈ s.outbound)
    (hnode : event.payload.entityId = .node id) : event ∈ pendingEvents s key := by
  rw [pendingEvents_bound hkey]
  refine List.mem_filter.mpr ⟨hmem, ?_⟩
  rw [onNode, hnode]
  exact beq_self_eq_true id

/-- The node of a bound key without events on their way is in the store. -/
theorem TwoWayOk.live (h : TwoWayOk exact s) (hnone : pendingEvents s key = [])
    (hkey : s.bridge.maps.nodeIdMap.lookup key = some id) : id ∈ s.bridge.store.nodes := by
  by_contra hgone
  obtain ⟨event, hmem, -, hnode⟩ := h.missing key id hkey hgone
  have hpending := mem_pendingEvents hkey hmem hnode
  rw [hnone] at hpending
  cases hpending

/-- An event stays in order when the store takes no node back. -/
theorem EventOk.frame {store store' : Store} {event : ChangeEvent EntityChange}
    (h : EventOk store event) (hnext : store.nextNode ≤ store'.nextNode)
    (hback : ∀ id, event.payload.entityId = .node id → id < store.nextNode →
      id ∈ store'.nodes → id ∈ store.nodes) : EventOk store' event := by
  obtain ⟨epoch, id, kind, after, rfl, hkind, hlt, hdelete⟩ := h.shape
  exact ⟨epoch, id, kind, after, rfl, hkind, Nat.lt_of_lt_of_le hlt hnext,
    fun heq hmem => hdelete heq (hback id rfl hlt hmem)⟩

/-! ### The steps of the users -/

/-- A commit of the document that touches a key without events on their way. -/
theorem TwoWayOk.loroCommit (h : TwoWayOk exact s) {updated : Option ValueOrContainer}
    {op : LoroOp} (htrans : translateDiffEvent (vertexEvent "" key updated) = [op])
    (hop : writtenKey op = some key) (hnone : pendingEvents s key = [])
    (hagree : ∀ y, Agree exact (docView s.doc key) y →
      Agree exact (updated.map entryProp) (viewOp y op)) :
    TwoWayOk exact (s.loroCommit key updated) := by
  have hinbound : (s.loroCommit key updated).inbound = s.inbound ++ [op] := by
    rw [← htrans]
    rfl
  have hops : ∀ other, inboundOps (s.loroCommit key updated) other
      = inboundOps s other ++ [op].filter fun op => writtenKey op == some other := by
    intro other
    rw [inboundOps, hinbound, List.filter_append]
    rfl
  have hdoc : ∀ other, docView (s.loroCommit key updated).doc other
      = if other = key then updated.map entryProp else docView s.doc other := by
    intro other
    cases updated with
    | some entry =>
      show ((s.doc.vertices.insert key entry).lookup other).map _ = _
      rw [finmap_lookup_insert]
      split <;> rfl
    | none =>
      show ((s.doc.vertices.erase key).lookup other).map _ = _
      rw [finmap_lookup_erase]
      split <;> rfl
  constructor
  case bound => exact h.bound
  case ops =>
    intro op' hmem
    rw [hinbound] at hmem
    rcases List.mem_append.mp hmem with hold | hnew
    · exact h.ops op' hold
    · obtain rfl := List.mem_singleton.mp hnew
      exact ⟨key, hop⟩
  case events => exact h.events
  case deleteLast => exact h.deleteLast
  case missing => exact h.missing
  case keys =>
    intro other
    by_cases hother : other = key
    · subst hother
      have hmine : ([op].filter fun op => writtenKey op == some other) = [op] := by simp [hop]
      constructor
      · exact .inr hnone
      · exact (h.keys other).portable
      · -- the new op comes after those that are on their way
        have hold := (h.keys other).agree
        rw [hnone] at hold
        rw [hops, hmine, List.foldl_append, hdoc, if_pos rfl]
        show Agree exact ((pendingEvents s other).foldl viewEvent _) _
        rw [hnone]
        exact hagree _ hold
    · have hnot : ([op].filter fun op => writtenKey op == some other) = [] := by
        simp [hop, Ne.symm hother]
      refine (h.keys other).frame ?_ rfl ?_ rfl
      · rw [hdoc, if_neg hother]
      · rw [hops, hnot, List.append_nil]

/-- A commit of Grafeo with an event of the node `id`. It touches no other node. -/
theorem TwoWayOk.grafeoCommit (h : TwoWayOk exact s) {store : Store} {epoch : EpochId}
    {kind : ChangeKind} {after : Option (Table String Value)}
    (hnext : s.bridge.store.nextNode ≤ store.nextNode)
    (hfresh : ∀ id', id' ∈ store.nodes → id' < store.nextNode) (hid : id < store.nextNode)
    (hframe : ∀ id', id' ≠ id → store.nodes.lookup id' = s.bridge.store.nodes.lookup id')
    (hkind : kind ≠ .other) (hlive : kind = .delete ↔ id ∉ store.nodes)
    (hprev : ∀ event ∈ s.outbound, event.payload.entityId = .node id →
      event.payload.kind ≠ .delete)
    (hkey : ∀ key, s.bridge.maps.nodeIdMap.lookup key = some id →
      inboundOps s key = [] ∧ PortableEvent (nodeEvent epoch id kind after) ∧
        storeView ⟨store, s.bridge.maps⟩ key
          = viewEvent (storeView s.bridge key) (nodeEvent epoch id kind after)) :
    TwoWayOk exact (s.grafeoCommit store (nodeEvent epoch id kind after)) := by
  have hback : ∀ event ∈ s.outbound, EventOk store event := by
    intro event hmem
    obtain ⟨epoch', id', kind', after', rfl, hkind', hlt, hdelete⟩ := (h.events event hmem).shape
    refine ⟨epoch', id', kind', after', rfl, hkind', Nat.lt_of_lt_of_le hlt hnext, ?_⟩
    intro heq
    have hne : id' ≠ id := fun hsame => hprev _ hmem (congrArg EntityId.node hsame) heq
    rw [← AList.lookup_isSome, hframe id' hne, AList.lookup_isSome]
    exact hdelete heq
  constructor
  case bound =>
    refine ⟨h.bound.inverse, hfresh, fun key id' hkey' => ?_⟩
    exact Nat.lt_of_lt_of_le (h.bound.boundFresh key id' hkey') hnext
  case ops => exact h.ops
  case events =>
    intro event hmem
    rcases List.mem_append.mp hmem with hold | hnew
    · exact hback event hold
    · obtain rfl := List.mem_singleton.mp hnew
      exact ⟨epoch, id, kind, after, rfl, hkind, hid, hlive.mp⟩
  case deleteLast =>
    refine List.pairwise_append.mpr ⟨h.deleteLast, List.pairwise_singleton _ _, ?_⟩
    intro event hmem later hlater hdelete heq
    obtain rfl := List.mem_singleton.mp hlater
    exact hprev event hmem heq.symm hdelete
  case missing =>
    intro key id' hkey' hgone
    by_cases hids : id' = id
    · subst hids
      exact ⟨nodeEvent epoch id' kind after,
        List.mem_append_right _ (List.mem_singleton.mpr rfl), hlive.mpr hgone, rfl⟩
    · have hgone' : id' ∉ s.bridge.store.nodes := by
        rw [← AList.lookup_isSome, ← hframe id' hids, AList.lookup_isSome]
        exact hgone
      obtain ⟨event, hmem, hevent⟩ := h.missing key id' hkey' hgone'
      exact ⟨event, List.mem_append_left _ hmem, hevent⟩
  case keys =>
    intro key
    by_cases hmine : s.bridge.maps.nodeIdMap.lookup key = some id
    · obtain ⟨hnone, hportable, hview⟩ := hkey key hmine
      have hevents : pendingEvents (s.grafeoCommit store (nodeEvent epoch id kind after)) key
          = pendingEvents s key ++ [nodeEvent epoch id kind after] := by
        have hone : [nodeEvent epoch id kind after].filter (onNode id)
            = [nodeEvent epoch id kind after] := by simp [onNode, nodeEvent]
        rw [pendingEvents_bound hmine, ← hone, ← List.filter_append]
        exact pendingEvents_bound (s := s.grafeoCommit store _) hmine
      constructor
      · exact .inl hnone
      · rw [hevents]
        intro event hmem
        rcases List.mem_append.mp hmem with hold | hnew
        · exact (h.keys key).portable event hold
        · obtain rfl := List.mem_singleton.mp hnew
          exact hportable
      · -- the event comes after those that are on their way
        have hold := (h.keys key).agree
        rw [hnone] at hold
        rw [hevents, List.foldl_append]
        show Agree exact _ ((inboundOps s key).foldl viewOp
          (storeView ⟨store, s.bridge.maps⟩ key))
        rw [hnone, hview]
        exact hold.viewEvent _
    · have hids : ∀ id', s.bridge.maps.nodeIdMap.lookup key = some id' → id ≠ id' :=
        fun id' hkey' heq => hmine (heq ▸ hkey')
      have hother : ∀ id', s.bridge.maps.nodeIdMap.lookup key = some id' →
          onNode id' (nodeEvent epoch id kind after) = false :=
        fun id' hkey' => onNode_ne rfl (hids id' hkey')
      refine (h.keys key).frame rfl ?_ rfl (pendingEvents_frame rfl fun id' hkey' => ?_)
      · cases hbinding : s.bridge.maps.nodeIdMap.lookup key with
        | none =>
          rw [storeView_unbound hbinding]
          exact storeView_unbound (b := ⟨store, s.bridge.maps⟩) hbinding
        | some id' =>
          rw [storeView_bound hbinding, ← hframe id' (hids id' hbinding).symm]
          exact storeView_bound (b := ⟨store, s.bridge.maps⟩) hbinding
      · show (s.outbound ++ [_]).filter _ = _
        rw [List.filter_append, List.filter_cons_of_neg (by
          simp [hother id' hkey'])]
        exact List.append_nil _

/-! ### The steps of the workers -/

/-- The batcher applies the next op. -/
theorem TwoWayOk.inbound (h : TwoWayOk exact s) {op : LoroOp} {rest : List LoroOp}
    (hqueue : s.inbound = op :: rest) :
    TwoWayOk exact { s with bridge := (applyLoroOp noFault op s.bridge).2, inbound := rest } := by
  obtain ⟨key, hop⟩ := h.ops op (hqueue ▸ List.mem_cons_self)
  have hpending : ∀ other, inboundOps s other
      = ([op].filter fun op => writtenKey op == some other)
        ++ rest.filter fun op => writtenKey op == some other := by
    intro other
    rw [inboundOps, hqueue, ← List.filter_append]
    rfl
  have hmine : ([op].filter fun op => writtenKey op == some key) = [op] := by simp [hop]
  -- the key has an op on its way, so it has no events
  have hnone : pendingEvents s key = [] := by
    refine (h.keys key).oneSided.resolve_left fun hnil => ?_
    rw [hpending, hmine] at hnil
    cases hnil
  have heffect := opEffect h.bound hop fun id hkey => h.live hnone hkey
  generalize (applyLoroOp noFault op s.bridge).2 = bridge at heffect ⊢
  constructor
  case bound => exact heffect.bound
  case ops => exact fun op' hmem => h.ops op' (hqueue ▸ List.mem_cons_of_mem _ hmem)
  case events =>
    intro event hmem
    refine (h.events event hmem).frame heffect.next fun id hnode hlt hback => ?_
    have hne : s.bridge.maps.nodeIdMap.lookup key ≠ some id := by
      intro hkey
      have hmem' := mem_pendingEvents hkey hmem hnode
      rw [hnone] at hmem'
      cases hmem'
    rw [← AList.lookup_isSome, ← heffect.nodes id hlt hne, AList.lookup_isSome]
    exact hback
  case deleteLast => exact h.deleteLast
  case missing =>
    intro other id hother hgone
    by_cases hne : other = key
    · exact absurd (heffect.live id (hne ▸ hother)) hgone
    · rw [heffect.bindings other hne] at hother
      have hkey : s.bridge.maps.nodeIdMap.lookup key ≠ some id :=
        fun hkey => hne (h.bound.inverse.key_unique hother hkey)
      have hlt := h.bound.boundFresh other id hother
      refine h.missing other id hother ?_
      rw [← AList.lookup_isSome, ← heffect.nodes id hlt hkey, AList.lookup_isSome]
      exact hgone
  case keys =>
    intro other
    by_cases hne : other = key
    · subst hne
      have hevents : pendingEvents
          { s with bridge := bridge, inbound := rest } other = [] := by
        cases hkey : bridge.maps.nodeIdMap.lookup other with
        | none => exact pendingEvents_unbound hkey
        | some id =>
          rw [pendingEvents_bound (s := { s with bridge := bridge, inbound := rest }) hkey]
          refine List.filter_eq_nil_iff.mpr fun event hmem hnode => ?_
          obtain ⟨epoch, id', kind, after, rfl, -, hlt, -⟩ := (h.events event hmem).shape
          obtain rfl : id' = id := beq_iff_eq.mp hnode
          rcases heffect.binding id' hkey with hold | hnew
          · have hmem' := mem_pendingEvents hold hmem rfl
            rw [hnone] at hmem'
            cases hmem'
          · exact absurd hlt (Nat.not_lt.mpr hnew)
      constructor
      · exact .inr hevents
      · rw [hevents]
        exact fun event hmem => absurd hmem List.not_mem_nil
      · have hold := (h.keys other).agree
        rw [hnone, hpending, hmine] at hold
        rw [hevents]
        show Agree exact _ ((rest.filter _).foldl viewOp (storeView bridge other))
        rw [heffect.view]
        exact hold
    · have hnot : ([op].filter fun op => writtenKey op == some other) = [] := by
        simp [hop, Ne.symm hne]
      refine (h.keys other).frame rfl (heffect.views h.bound hne) ?_ ?_
      · rw [hpending, hnot]
        rfl
      · unfold pendingEvents
        rw [heffect.bindings other hne]

/-- The first event of the queue is not one of another node. -/
theorem filter_onNode_drop {id' : NodeId} {event : ChangeEvent EntityChange}
    {rest : List (ChangeEvent EntityChange)} (hqueue : s.outbound = event :: rest)
    (hnode : event.payload.entityId = .node id) (hne : id ≠ id') :
    rest.filter (onNode id') = s.outbound.filter (onNode id') := by
  rw [hqueue, List.filter_cons_of_neg (by simp [onNode_ne hnode hne])]

/-- What the outbound worker leaves as it is: all but the entry and the binding of the key of
the event. -/
theorem TwoWayOk.outbound (h : TwoWayOk exact s) {event : ChangeEvent EntityChange}
    {rest : List (ChangeEvent EntityChange)} {doc : LoroDoc} {maps : BridgeMaps}
    (hqueue : s.outbound = event :: rest) (hnode : event.payload.entityId = .node id)
    (hbound : Bound ⟨s.bridge.store, maps⟩)
    (hmine : ∀ key, maps.nodeIdMap.lookup key = some id → event.payload.kind ≠ .delete)
    (hother : ∀ key, s.bridge.maps.nodeIdMap.lookup key ≠ some id →
      maps.nodeIdMap.lookup key = s.bridge.maps.nodeIdMap.lookup key ∧
        docView doc key = docView s.doc key)
    (hkey : ∀ key, s.bridge.maps.nodeIdMap.lookup key = some id →
      KeyOk exact ⟨doc, ⟨s.bridge.store, maps⟩, s.inbound, rest⟩ key)
    (hkeep : ∀ key id, maps.nodeIdMap.lookup key = some id →
      s.bridge.maps.nodeIdMap.lookup key = some id) :
    TwoWayOk exact ⟨doc, ⟨s.bridge.store, maps⟩, s.inbound, rest⟩ := by
  constructor
  case bound => exact hbound
  case ops => exact h.ops
  case events => exact fun e hmem => h.events e (hqueue ▸ List.mem_cons_of_mem _ hmem)
  case deleteLast => exact (List.pairwise_cons.mp (hqueue ▸ h.deleteLast)).2
  case missing =>
    intro key id' hkey' hgone
    obtain ⟨e, hmem, hdelete, hnode'⟩ := h.missing key id' (hkeep key id' hkey') hgone
    rw [hqueue] at hmem
    rcases List.mem_cons.mp hmem with rfl | hmem
    · -- the binding does not outlive the delete
      obtain rfl : id = id' := EntityId.node.inj (hnode.symm.trans hnode')
      exact absurd hdelete (hmine key hkey')
    · exact ⟨e, hmem, hdelete, hnode'⟩
  case keys =>
    intro key
    by_cases hkey' : s.bridge.maps.nodeIdMap.lookup key = some id
    · exact hkey key hkey'
    · obtain ⟨hmap, hdoc⟩ := hother key hkey'
      refine (h.keys key).frame hdoc ?_ rfl (pendingEvents_frame hmap fun id' hid' => ?_)
      · show storeView ⟨s.bridge.store, maps⟩ key = _
        unfold storeView
        rw [hmap]
      · exact filter_onNode_drop hqueue hnode fun heq => hkey' (heq ▸ hid')

section
variable {epoch : EpochId} {kind : ChangeKind} {after : Option (Table String Value)}
  {rest : List (ChangeEvent EntityChange)}

end

/-! ### Every step -/

/-- A write of the document. -/
theorem TwoWayOk.loroWrite (h : TwoWayOk exact s) {m : VertexMap}
    (hnone : pendingEvents s key = []) (hsup : Supported m)
    (hkeep : exact → ∀ p ∈ currentProperties (s.doc.vertices.lookup key), p ∈ m) :
    TwoWayOk exact (s.loroCommit key (some (.value m.toLoroValue))) := by
  obtain ⟨props, htrans, hprops⟩ := translate_write key hsup
  refine h.loroCommit htrans rfl hnone fun y hy => ?_
  have hnew : entryProp (.value m.toLoroValue) = m.converted := by
    funext p
    rw [entryProp, VertexMap.toLoroValue, lookup_currentProperties]
    rfl
  show Agree exact (some (entryProp _)) _
  rw [hnew]
  refine hy.write key [] props hprops fun hexact p hp => ?_
  refine (converted_isSome hsup p).mpr (hkeep hexact p ?_)
  -- a property of the view is one of the entry
  cases hentry : s.doc.vertices.lookup key with
  | none =>
    rw [docView, hentry] at hp
    cases hp
  | some entry =>
    rw [docView, hentry] at hp
    change (((currentProperties (some entry)).lookup p).bind convert).isSome at hp
    rw [← AList.lookup_isSome]
    exact Option.isSome_of_isSome_bind hp

/-- A delete of the document. -/
theorem TwoWayOk.loroDelete (h : TwoWayOk exact s) (hnone : pendingEvents s key = []) :
    TwoWayOk exact (s.loroCommit key none) :=
  h.loroCommit (translate_delete key) rfl hnone fun _ _ => trivial

/-- A new node. No key is bound to it. -/
theorem TwoWayOk.grafeoCreate (h : TwoWayOk exact s) (epoch : EpochId) (labels : List String)
    (props : Table String Value) :
    TwoWayOk exact (s.grafeoCommit (s.bridge.store.addNode labels props.entries)
      (nodeEvent epoch s.bridge.store.nextNode .create (some props))) := by
  have hnodes : ∀ id, (s.bridge.store.addNode labels props.entries).nodes.lookup id
      = if id = s.bridge.store.nextNode then some ⟨labels, insertAll ∅ props.entries⟩
        else s.bridge.store.nodes.lookup id := fun id => alist_lookup_insert _ _ _ _
  have hlive : s.bridge.store.nextNode ∈ (s.bridge.store.addNode labels props.entries).nodes :=
    AList.mem_insert _ |>.mpr (.inl rfl)
  refine h.grafeoCommit (Nat.le_succ _) ?_ (Nat.lt_succ_self _) ?_ (by simp) ?_ ?_ ?_
  · intro id hmem
    rw [← AList.lookup_isSome, hnodes] at hmem
    split at hmem
    · rename_i heq
      exact Nat.lt_succ_of_le (Nat.le_of_eq heq)
    · exact Nat.lt_succ_of_lt (h.bound.nodeFresh id (AList.lookup_isSome.mp hmem))
  · exact fun id hne => (hnodes id).trans (if_neg hne)
  · exact iff_of_false (by simp) (not_not.mpr hlive)
  · intro event hmem hnode
    obtain ⟨_, id, _, _, rfl, _, hlt, _⟩ := (h.events event hmem).shape
    obtain rfl := EntityId.node.inj hnode
    exact absurd hlt (Nat.lt_irrefl _)
  · exact fun key hkey => absurd (h.bound.boundFresh key _ hkey) (Nat.lt_irrefl _)

/-- A node in the store has no delete on its way. -/
theorem TwoWayOk.no_delete (h : TwoWayOk exact s) (hlive : id ∈ s.bridge.store.nodes) :
    ∀ event ∈ s.outbound, event.payload.entityId = .node id → event.payload.kind ≠ .delete := by
  intro event hmem hnode hdelete
  obtain ⟨_, id', _, _, rfl, _, _, hgone⟩ := (h.events event hmem).shape
  obtain rfl := EntityId.node.inj hnode
  exact hgone hdelete hlive

/-- The only property of a singleton. -/
theorem lookup_singleton (p p' : String) (v : Value) :
    (AList.singleton p v : Table String Value).lookup p' = if p' = p then some v else none :=
  alist_lookup_insert ∅ p p' v

/-- A written property. -/
theorem TwoWayOk.grafeoSet (h : TwoWayOk exact s) (epoch : EpochId) (p : String) {v : Value}
    (hlive : id ∈ s.bridge.store.nodes)
    (hkey : ∀ key, s.bridge.maps.nodeIdMap.lookup key = some id →
      inboundOps s key = [] ∧ KeyOrdered v ∧ ¬ Lossy v) :
    TwoWayOk exact (s.grafeoCommit (s.bridge.store.putNodeProperty id p v)
      (nodeEvent epoch id .update (some (AList.singleton p v)))) := by
  have hprops := propsOnly_putNodeProperty s.bridge.store id p v
  have hnodes := lookup_putNodeProperty s.bridge.store id p v
  generalize s.bridge.store.putNodeProperty id p v = store at hprops hnodes
  have hlive' := (hprops.mem_nodes id).mpr hlive
  refine h.grafeoCommit (Nat.le_of_eq hprops.nextNode.symm) ?_ ?_ ?_ (by simp) ?_
    (h.no_delete hlive) fun key hbinding => ?_
  · intro id' hmem
    rw [hprops.nextNode]
    exact h.bound.nodeFresh id' ((hprops.mem_nodes id').mp hmem)
  · rw [hprops.nextNode]
    exact h.bound.nodeFresh id hlive
  · exact fun id' hne => (hnodes id').trans (if_neg hne)
  · exact iff_of_false (by simp) (not_not.mpr hlive')
  · obtain ⟨hnone, hkeys, hlossy⟩ := hkey key hbinding
    refine ⟨hnone, fun p' v' hp' => ?_, ?_⟩
    · have hvalue := (lookup_singleton p p' v).symm.trans hp'
      split at hvalue
      · obtain rfl := Option.some.inj hvalue
        exact ⟨hkeys, hlossy⟩
      · cases hvalue
    · obtain ⟨node, hnode⟩ := Option.isSome_iff_exists.mp (AList.lookup_isSome.mpr hlive)
      rw [storeView_bound (b := ⟨store, s.bridge.maps⟩) hbinding, storeView_bound hbinding,
        viewEvent_write (by simp)]
      show (store.nodes.lookup id).map _ = _
      rw [hnodes, if_pos rfl, hnode]
      refine congrArg some (funext fun p' => ?_)
      show (node.properties.insert p v).lookup p'
        = ((AList.singleton p v : Table String Value).lookup p').or (node.properties.lookup p')
      rw [finmap_lookup_insert, lookup_singleton]
      split <;> rfl

/-- A deleted node. -/
theorem TwoWayOk.grafeoDelete (h : TwoWayOk exact s) (epoch : EpochId)
    (hlive : id ∈ s.bridge.store.nodes)
    (hkey : ∀ key, s.bridge.maps.nodeIdMap.lookup key = some id → inboundOps s key = []) :
    TwoWayOk exact (s.grafeoCommit (s.bridge.store.dropNode id)
      (nodeEvent epoch id .delete none)) := by
  have hnodes : ∀ id', (s.bridge.store.dropNode id).nodes.lookup id'
      = if id' = id then none else s.bridge.store.nodes.lookup id' :=
    fun id' => alist_lookup_erase _ _ _
  have hgone : id ∉ (s.bridge.store.dropNode id).nodes := by
    rw [← AList.lookup_isSome, hnodes, if_pos rfl]
    simp
  refine h.grafeoCommit (Nat.le_refl _) ?_ (h.bound.nodeFresh id hlive) ?_ (by simp)
    (iff_of_true rfl hgone) (h.no_delete hlive) fun key hbinding => ⟨hkey key hbinding, ?_, ?_⟩
  · intro id' hmem
    rw [← AList.lookup_isSome, hnodes] at hmem
    split at hmem
    · cases hmem
    · exact h.bound.nodeFresh id' (AList.lookup_isSome.mp hmem)
  · exact fun id' hne => (hnodes id').trans (if_neg hne)
  · intro p v hp
    cases hp
  · rw [storeView_bound (b := ⟨s.bridge.store.dropNode id, s.bridge.maps⟩) hbinding]
    show ((s.bridge.store.dropNode id).nodes.lookup id).map _ = _
    rw [hnodes, if_pos rfl]
    rfl

/-- A key without an entry in `V` is unbound, and a key with an entry is bound to a node with the
properties of the entry. When `exact` the node has no others. -/
def InSync (exact : Prop) (s : TwoWay) : Prop :=
  ∀ key, match s.doc.vertices.lookup key with
    | none => s.bridge.maps.nodeIdMap.lookup key = none
    | some entry => ∃ id node, s.bridge.maps.nodeIdMap.lookup key = some id ∧
        s.bridge.store.nodes.lookup id = some node ∧
        ∀ p, exact ∨ (entryProp entry p).isSome → node.properties.lookup p = entryProp entry p

/-- In sync, a property of the document is one of the store. -/
theorem InSync.prop {p : String} {v : Value} (h : InSync exact s)
    (hdoc : (docView s.doc key).prop p = some v) :
    (storeView s.bridge key).prop p = some v := by
  have hkey := h key
  cases hentry : s.doc.vertices.lookup key with
  | none =>
    rw [docView, hentry] at hdoc
    cases hdoc
  | some entry =>
    rw [docView, hentry] at hdoc
    change entryProp entry p = some v at hdoc
    rw [hentry] at hkey
    obtain ⟨id, node, hbinding, hnode, hprops⟩ := hkey
    rw [storeView_bound hbinding, hnode]
    show node.properties.lookup p = some v
    rw [hprops p (.inr (by rw [hdoc]; rfl)), hdoc]

-- a property that a write of the document drops stays on the node
example : (runActions TwoWay.next TwoWay.init [.loroWrite "k" (mapA.insert "b" (.i64 2)), .inbound,
    .loroWrite "k" mapA, .inbound]).map (fun t =>
      ((docView t.doc "k").prop "b", (storeView t.bridge "k").prop "b"))
    = some (none, some (.int64 2)) := rfl

/-! ### Crossing writes -/

/-- A commit of the document that writes a supported map. -/
theorem next_loroWrite (key : String) {m : VertexMap} (hsup : Supported m) :
    ∃ props : Table String GraphValue,
      (∀ p, (props.lookup p).map gvalToGrafeoValue = m.converted p) ∧
      ∀ s : TwoWay, s.next (.loroWrite key m) = some ⟨putVertex s.doc key (.value m.toLoroValue),
        s.bridge, s.inbound ++ [.upsertNode key [] props], s.outbound⟩ := by
  obtain ⟨props, htrans, hprops⟩ := translate_write key hsup
  refine ⟨props, hprops, fun s => ?_⟩
  rw [← htrans]
  rfl

/-- A commit of Grafeo that writes a property of a node. -/
theorem next_grafeoSet (hlive : id ∈ s.bridge.store.nodes) (epoch : EpochId) (p : String)
    (v : Value) : s.next (.grafeoSet epoch id p v)
      = some ⟨s.doc, ⟨s.bridge.store.putNodeProperty id p v, s.bridge.maps⟩, s.inbound,
          s.outbound ++ [nodeEvent epoch id .update (some (AList.singleton p v))]⟩ :=
  if_pos (decide_eq_true hlive)

/-- A property of a node and the entry of its vertex are written while both queues are empty, in
either order, and then both changes arrive, in either order. The document ends with the value
that was written to the node, and the node with the one that was written to the document. -/
theorem crossing_writes_swap (s : TwoWay) (hin : s.inbound = []) (hout : s.outbound = [])
    (key p : String) (id : NodeId) (epoch : EpochId) (m : VertexMap) (v w : Value)
    (hkey : s.bridge.maps.nodeIdMap.lookup key = some id)
    (hid : s.bridge.maps.nodeKeyMap.lookup id = some key) (hlive : id ∈ s.bridge.store.nodes)
    (hsup : Supported m) (hv : m.converted p = some v) (hw : KeyOrdered w ∧ ¬ Lossy w)
    (hne : v ≠ w) (commits deliveries : List TwoWayAction)
    (hcommits : commits = [.grafeoSet epoch id p w, .loroWrite key m] ∨
      commits = [.loroWrite key m, .grafeoSet epoch id p w])
    (hdeliveries : deliveries = [.inbound, .outbound] ∨ deliveries = [.outbound, .inbound]) :
    ∃ t, runActions TwoWay.next s (commits ++ deliveries) = some t ∧
      t.inbound = [] ∧ t.outbound = [] ∧ (docView t.doc key).prop p = some w ∧
      (storeView t.bridge key).prop p = some v ∧ ¬ InSync False t := by
  obtain ⟨props, hprops, hwrite⟩ := next_loroWrite key hsup
  obtain ⟨node, hnode⟩ := Option.isSome_iff_exists.mp (AList.lookup_isSome.mpr hlive)
  let after : Option (Table String Value) := some (AList.singleton p w)
  let doc := putVertex s.doc key (.value m.toLoroValue)
  let doc' := putVertex doc key (mergeAfter (doc.vertices.lookup key) after)
  let store := s.bridge.store.putNodeProperty id p w
  let store' := (setProperties (setNodeProperty noFault id) props.entries store).2
  -- the commits meet in one state, and so do the deliveries
  have hcommit : runActions TwoWay.next s commits = some ⟨doc, ⟨store, s.bridge.maps⟩,
      [.upsertNode key [] props], [nodeEvent epoch id .update after]⟩ := by
    rcases hcommits with rfl | rfl
    · simp only [runActions, next_grafeoSet hlive, hwrite, hin, hout, Option.bind_some]
      rfl
    · have hset := next_grafeoSet (s := ⟨doc, s.bridge, [.upsertNode key [] props], []⟩)
        hlive epoch p w
      simp only [runActions, hwrite, hin, hout, Option.bind_some, List.nil_append]
      rw [hset]
      rfl
  have hdeliver : runActions TwoWay.next ⟨doc, ⟨store, s.bridge.maps⟩,
      [.upsertNode key [] props], [nodeEvent epoch id .update after]⟩ deliveries
        = some ⟨doc', ⟨store', s.bridge.maps⟩, [], []⟩ := by
    have hop : ∀ store, (applyLoroOp (fun _ => false) (.upsertNode key [] props)
        ⟨store, s.bridge.maps⟩).2 = ⟨(setProperties (setNodeProperty noFault id) props.entries
          store).2, s.bridge.maps⟩ :=
      fun store => congrArg Prod.snd (upsertNode_hit (b := ⟨store, s.bridge.maps⟩) [] props hkey)
    have hevent : applyChangeEventToLoro false (nodeEvent epoch id .update after) doc s.bridge.maps
        = (.ok (), putVertex doc key (mergeAfter (doc.vertices.lookup key) after),
          s.bridge.maps) := event_write doc hid (.inr rfl)
    rcases hdeliveries with rfl | rfl
    · simp only [runActions, TwoWay.next, hop, hevent, Option.bind_some]
      rfl
    · simp only [runActions, TwoWay.next, hop, hevent, Option.bind_some]
      rfl
  have hrun := runActions_append hcommit hdeliver
  have hdoc : (docView doc' key).prop p = some w := by
    have hportable : PortableEvent (nodeEvent epoch id .update after) := by
      intro p' v' hp'
      have hvalue := (lookup_singleton p p' w).symm.trans hp'
      split at hvalue
      · obtain rfl := Option.some.inj hvalue
        exact hw
      · cases hvalue
    rw [docView_putVertex, if_pos rfl]
    show entryProp _ p = some w
    rw [entryProp_mergeAfter _ epoch id .update after hportable]
    show ((AList.singleton p w : Table String Value).lookup p).or _ = some w
    rw [lookup_singleton, if_pos rfl]
    rfl
  have hstore : (storeView ⟨store', s.bridge.maps⟩ key).prop p = some v := by
    rw [storeView_bound (b := ⟨store', s.bridge.maps⟩) hkey]
    show View.prop ((store'.nodes.lookup id).map _) p = some v
    rw [lookup_setNodeProperties, if_pos rfl, lookup_putNodeProperty, if_pos rfl, hnode]
    show (insertAll _ (grafeoProps props.entries)).lookup p = some v
    rw [lookup_overwritten, hprops, hv]
    rfl
  refine ⟨_, hrun, rfl, rfl, hdoc, hstore, fun hsync => hne ?_⟩
  exact Option.some.inj (hstore.symm.trans (hsync.prop hdoc))

/-- A document and a store with one vertex. -/
def oneVertex : TwoWay where
  doc := ⟨Finmap.singleton "k" (.value (.map [])), ∅⟩
  bridge := ⟨Store.empty.addNode [] [], BridgeMaps.new.insertNode "k" 0⟩
  inbound := []
  outbound := []

/-- The property `a` is set to `2` in Grafeo and to `1` in the document. -/
theorem crossing_writes_swap_a :
    ∃ t, runActions TwoWay.next oneVertex
        [.grafeoSet 1 0 "a" (.int64 2), .loroWrite "k" mapA, .inbound, .outbound] = some t ∧
      ¬ InSync False t := by
  have hsup : Supported mapA := by
    show ∀ e ∈ mapA.entries, _
    decide
  obtain ⟨t, hrun, -, -, -, -, hsync⟩ := crossing_writes_swap oneVertex rfl rfl "k" "a" 0 1 mapA
    (.int64 1) (.int64 2) rfl rfl (by decide) hsup rfl
    ⟨trivial, fun hlossy => nomatch hlossy⟩ (by simp) _ _ (.inl rfl) (.inl rfl)
  exact ⟨t, hrun, hsync⟩

end

end GrafeoLoro.Proofs
