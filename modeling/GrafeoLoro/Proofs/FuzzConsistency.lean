import GrafeoLoro.Fuzz.Consistency
import GrafeoLoro.Lib.Exec
import GrafeoLoro.Proofs.Bijection
import GrafeoLoro.Proofs.TreeOps

/-!
# `GrafeoLoro.Proofs.FuzzConsistency`: when the parity checks of the fuzz target hold

The live keys follow from the ops alone, so they are what the id maps are meant to hold. But the
bridge rejects some ops, and the target ignores the error. `AcceptsNode` and `AcceptsEdge` say which
ops change the bridge as they change the live keys.

* `nodeKeys_step` and `edgeKeys_step`: a check that holds survives an op exactly when the op is
  accepted.
* `fuzzParity_iff`: so both checks hold in every state of a run exactly when every op is accepted.
* `fuzzParity_false_alarm`: one `UpsertEdge` on unknown nodes breaks I2 with an intact bridge.
-/

set_option autoImplicit false

namespace GrafeoLoro.Proofs

open GrafeoLoro GrafeoLoro.Lib

/-! ### The bound keys -/

/-- A key has an entry. -/
theorem mem_boundKeys {K V : Type} [DecidableEq K] {m : Finmap fun _ : K => V} {key : K} :
    key ∈ m.keys ↔ m.lookup key ≠ none := by
  rw [Finmap.mem_keys, ne_eq, Finmap.lookup_eq_none, not_not]

section
variable (fault : Nat → Bool) (b : Bridge)

/-- The op is a delete, or a node op that finds its node or creates it. -/
def AcceptsNode : LoroOp → Prop
  | .upsertNode loroKey _ _ => loroKey ∈ b.maps.nodeIdMap.keys ∨ fault b.store.calls = false
  | _ => True

/-- The edge of the op is bound, or it can be: its nodes are bound, and a fallible call succeeds.
Of a tree move, the new edge is bound, and the old one is not, unless it is the new one. -/
def AcceptsEdge : LoroOp → Prop
  | .upsertEdge srcKey dstKey label _ => (srcKey, dstKey, label) ∈ b.maps.edgeIdMap.keys ∨
      srcKey ∈ b.maps.nodeIdMap.keys ∧ dstKey ∈ b.maps.nodeIdMap.keys ∧
        fault b.store.calls = false
  | .treeMove nodeKey oldParentKey newParentKey =>
    (nodeKey ∈ b.maps.nodeIdMap.keys ∧ newParentKey ∈ b.maps.nodeIdMap.keys) ∨
      (newParentKey, nodeKey, treeEdgeLabel) ∈ b.maps.edgeIdMap.keys ∧
        (oldParentKey = newParentKey ∨
          (oldParentKey, nodeKey, treeEdgeLabel) ∉ b.maps.edgeIdMap.keys)
  | _ => True

/-- The bound nodes after an upsert of a node. -/
theorem nodeKeys_upsertNode (key : String) (labels : List String)
    (properties : Table String GraphValue) :
    (applyUpsertNode fault key labels properties b).2.maps.nodeIdMap.keys
        = insert key b.maps.nodeIdMap.keys ↔
      key ∈ b.maps.nodeIdMap.keys ∨ fault b.store.calls = false := by
  unfold applyUpsertNode
  cases hkey : b.maps.nodeIdMap.lookup key with
  | some id =>
    have hmem : key ∈ b.maps.nodeIdMap.keys := mem_boundKeys.mpr (by simp [hkey])
    exact iff_of_true (Finset.insert_eq_of_mem hmem).symm (.inl hmem)
  | none =>
    have hnot : key ∉ b.maps.nodeIdMap.keys := fun hmem => mem_boundKeys.mp hmem hkey
    unfold createNodeWithProps call
    cases hfault : fault b.store.calls with
    | true =>
      -- nothing is bound
      refine iff_of_false (fun heq => hnot ?_) (by simp [hnot])
      show key ∈ b.maps.nodeIdMap.keys
      rw [show b.maps.nodeIdMap.keys = insert key b.maps.nodeIdMap.keys from heq]
      exact Finset.mem_insert_self key _
    | false => exact iff_of_true (finmap_keys_insert _ _ _) (.inr rfl)

/-- The bound nodes after a delete of a node. -/
theorem nodeKeys_deleteNode (key : String) :
    (applyDeleteNode key b).maps.nodeIdMap.keys = b.maps.nodeIdMap.keys.erase key := by
  ext other
  rw [applyDeleteNode_maps, Finset.mem_erase, mem_boundKeys, mem_boundKeys]
  unfold BridgeMaps.removeNode
  split
  · rename_i hnone
    -- an unbound key is no member
    refine ⟨fun hother => ⟨?_, hother⟩, And.right⟩
    rintro rfl
    exact hother hnone
  · by_cases hother : other = key
    · simp [hother]
    · simp [hother]

/-- An op binds and unbinds node keys as the live nodes change exactly when it is accepted. -/
theorem nodeKeys_step (op : FuzzOp) :
    (applyLoroOp fault (convertFuzzOp op) b).2.maps.nodeIdMap.keys
        = FuzzState.mirrorNodes b.maps.nodeIdMap.keys op ↔
      AcceptsNode fault b (convertFuzzOp op) := by
  cases op with
  | upsertNode key labels properties => exact nodeKeys_upsertNode fault b key labels _
  | deleteNode key => exact iff_of_true (nodeKeys_deleteNode b key) trivial
  | upsertEdge src dst label properties =>
    exact iff_of_true (congrArg Finmap.keys
      (applyUpsertEdge_binds fault src dst label (collectProperties properties) b).2.1) trivial
  | deleteEdge src dst label =>
    refine iff_of_true (congrArg Finmap.keys ?_) trivial
    show (applyDeleteEdge (src, dst, label) b).maps.nodeIdMap = b.maps.nodeIdMap
    rw [applyDeleteEdge_maps]
    exact (removeEdge_nodeMaps (src, dst, label) b.maps).1
  | treeMove node old new =>
    exact iff_of_true (congrArg Finmap.keys (applyTreeMove_edits node old new b).2.1) trivial

/-- The bound edges after an upsert of an edge. -/
theorem edgeKeys_upsertEdge (src dst label : String) (properties : Table String GraphValue) :
    (applyUpsertEdge fault src dst label properties b).2.maps.edgeIdMap.keys
        = insert (src, dst, label) b.maps.edgeIdMap.keys ↔
      (src, dst, label) ∈ b.maps.edgeIdMap.keys ∨
        src ∈ b.maps.nodeIdMap.keys ∧ dst ∈ b.maps.nodeIdMap.keys ∧
          fault b.store.calls = false := by
  have hstays : b.maps.edgeIdMap.keys = insert (src, dst, label) b.maps.edgeIdMap.keys ↔
      (src, dst, label) ∈ b.maps.edgeIdMap.keys := eq_comm.trans Finset.insert_eq_self
  unfold applyUpsertEdge
  split
  · rename_i srcId dstId hsrc hdst
    have hends : src ∈ b.maps.nodeIdMap.keys ∧ dst ∈ b.maps.nodeIdMap.keys :=
      ⟨mem_boundKeys.mpr (by simp [hsrc]), mem_boundKeys.mpr (by simp [hdst])⟩
    cases hkey : b.maps.edgeIdMap.lookup (src, dst, label) with
    | some eid =>
      have hmem : (src, dst, label) ∈ b.maps.edgeIdMap.keys := mem_boundKeys.mpr (by simp [hkey])
      exact iff_of_true (hstays.mpr hmem) (.inl hmem)
    | none =>
      have hnot : (src, dst, label) ∉ b.maps.edgeIdMap.keys :=
        fun hmem => mem_boundKeys.mp hmem hkey
      unfold createEdgeWithProps call
      cases hfault : fault b.store.calls with
      | true => exact iff_of_false (fun heq => hnot (hstays.mp heq)) (by simp [hnot])
      | false => exact iff_of_true (finmap_keys_insert _ _ _) (.inr ⟨hends.1, hends.2, rfl⟩)
  · -- the op is rejected, and nothing changes
    rename_i hunknown
    refine hstays.trans ⟨.inl, ?_⟩
    rintro (hmem | ⟨hsrc, hdst, -⟩)
    · exact hmem
    · obtain ⟨srcId, hsrc⟩ := Option.ne_none_iff_exists'.mp (mem_boundKeys.mp hsrc)
      obtain ⟨dstId, hdst⟩ := Option.ne_none_iff_exists'.mp (mem_boundKeys.mp hdst)
      exact (hunknown srcId dstId hsrc hdst).elim

/-- The bound edges after a tree move. -/
theorem edgeKeys_treeMove (node old new : String) :
    (applyTreeMove node old new b).maps.edgeIdMap.keys
        = insert (new, node, treeEdgeLabel)
          (b.maps.edgeIdMap.keys.erase (old, node, treeEdgeLabel)) ↔
      (node ∈ b.maps.nodeIdMap.keys ∧ new ∈ b.maps.nodeIdMap.keys) ∨
        (new, node, treeEdgeLabel) ∈ b.maps.edgeIdMap.keys ∧
          (old = new ∨ (old, node, treeEdgeLabel) ∉ b.maps.edgeIdMap.keys) := by
  by_cases hends : node ∈ b.maps.nodeIdMap.keys ∧ new ∈ b.maps.nodeIdMap.keys
  · refine iff_of_true ?_ (.inl hends)
    ext key
    rw [mem_boundKeys, edgeIdMap_applyTreeMove (mem_boundKeys.mp hends.1)
      (mem_boundKeys.mp hends.2), Finset.mem_insert, Finset.mem_erase, mem_boundKeys]
    tauto
  · -- the move does nothing
    have hsame : applyTreeMove node old new b = b := by
      refine applyTreeMove_unbound ?_
      by_contra hbound
      rw [not_or] at hbound
      exact hends ⟨mem_boundKeys.mpr hbound.1, mem_boundKeys.mpr hbound.2⟩
    rw [hsame, or_iff_right hends]
    constructor
    · intro heq
      have hnew : (new, node, treeEdgeLabel) ∈ b.maps.edgeIdMap.keys := by
        rw [heq]
        exact Finset.mem_insert_self _ _
      refine ⟨hnew, ?_⟩
      by_cases hold : old = new
      · exact .inl hold
      · refine .inr fun hmem => ?_
        rw [heq, Finset.mem_insert] at hmem
        rcases hmem with hmem | hmem
        · exact hold (Prod.mk.inj hmem).1
        · exact absurd rfl (Finset.mem_erase.mp hmem).1
    · rintro ⟨hnew, rfl | hold⟩
      · exact (Finset.insert_erase hnew).symm
      · rw [Finset.erase_eq_of_notMem hold, Finset.insert_eq_of_mem hnew]

/-- An op binds and unbinds edge keys as the live edges change exactly when it is accepted. -/
theorem edgeKeys_step (op : FuzzOp) :
    (applyLoroOp fault (convertFuzzOp op) b).2.maps.edgeIdMap.keys
        = FuzzState.mirrorEdges b.maps.edgeIdMap.keys op ↔
      AcceptsEdge fault b (convertFuzzOp op) := by
  cases op with
  | upsertNode key labels properties =>
    exact iff_of_true (congrArg Finmap.keys
      (applyUpsertNode_binds fault key labels (collectProperties properties) b).2.1) trivial
  | deleteNode key =>
    refine iff_of_true (congrArg Finmap.keys ?_) trivial
    show (applyDeleteNode key b).maps.edgeIdMap = b.maps.edgeIdMap
    rw [applyDeleteNode_maps]
    exact (removeNode_edgeMaps key b.maps).1
  | upsertEdge src dst label properties => exact edgeKeys_upsertEdge fault b src dst label _
  | deleteEdge src dst label =>
    refine iff_of_true ?_ trivial
    show (applyDeleteEdge (src, dst, label) b).maps.edgeIdMap.keys
      = b.maps.edgeIdMap.keys.erase (src, dst, label)
    ext key
    rw [mem_boundKeys, edgeIdMap_applyDeleteEdge, Finset.mem_erase, mem_boundKeys]
    exact and_comm
  | treeMove node old new => exact edgeKeys_treeMove b node old new

end

/-! ### Runs of the fuzz target -/

/-- The op is accepted by the session of its round. -/
def Accepted (fault : Nat → Bool) (s : FuzzState) (op : FuzzOp) : Prop :=
  AcceptsNode fault ⟨s.bridge.store.tick, s.bridge.maps⟩ (convertFuzzOp op) ∧
    AcceptsEdge fault ⟨s.bridge.store.tick, s.bridge.maps⟩ (convertFuzzOp op)

/-- The end of a session leaves the id maps alone, even when it undoes the writes. -/
theorem commitOrDrop_maps (fault : Nat → Bool) (before : Store) (b : Bridge) :
    (FuzzState.commitOrDrop fault before b).maps = b.maps := by
  unfold FuzzState.commitOrDrop dropSession
  split
  · rfl
  · split
    · rfl
    · rfl

/-- One round. -/
theorem fuzz_next_cases {fault : Nat → Bool} {s t : FuzzState} {op : FuzzOp}
    (h : s.next fault op = some t) :
    t.bridge.maps
        = (applyLoroOp fault (convertFuzzOp op) ⟨s.bridge.store.tick, s.bridge.maps⟩).2.maps ∧
      t.liveNodeKeys = FuzzState.mirrorNodes s.liveNodeKeys op ∧
      t.liveEdgeKeys = FuzzState.mirrorEdges s.liveEdgeKeys op := by
  unfold FuzzState.next beginTransaction call at h
  cases hfault : fault s.bridge.store.calls with
  | true => simp [hfault] at h
  | false =>
    rw [hfault] at h
    obtain rfl := Option.some.inj h
    exact ⟨commitOrDrop_maps _ _ _, rfl, rfl⟩

/-- The two checks hold in every state of a run exactly when every op of the run is accepted. -/
theorem fuzzParity_iff (fault : Nat → Bool) {h : List (FuzzState × FuzzOp)} {t : FuzzState}
    (hrun : Exec (FuzzState.next fault) FuzzState.init h t) :
    Always (fun s => s.checkI1TreeStateParity = true ∧ s.checkI2EdgeStateParity = true) h t ↔
      Steps (Accepted fault) h := by
  refine hrun.always_iff (I := fun _ => True) (G := fun _ _ => True) (fun _ _ _ _ _ _ => trivial)
    trivial ⟨rfl, rfl⟩ ?_ (fun _ _ => trivial)
  intro s op u hstep _ _ hchecks
  obtain ⟨hmaps, hnodes, hedges⟩ := fuzz_next_cases hstep
  simp only [FuzzState.checkI1TreeStateParity, FuzzState.checkI2EdgeStateParity,
    decide_eq_true_eq] at hchecks ⊢
  rw [hmaps, hnodes, hedges, ← hchecks.1, ← hchecks.2]
  exact and_congr (nodeKeys_step fault _ op) (edgeKeys_step fault _ op)

/-- An edge between unknown nodes: the bridge rejects the op and stays empty, and I2 fails. -/
theorem fuzzParity_false_alarm :
    ∃ h t, Exec (FuzzState.next fun _ => false) FuzzState.init h t ∧
      h.map Prod.snd = [.upsertEdge "a" "b" "KNOWS" []] ∧ t.bridge.maps = BridgeMaps.new ∧
      ¬ Always (fun s => s.checkI1TreeStateParity = true ∧ s.checkI2EdgeStateParity = true)
        h t := by
  have hrun : Exec (FuzzState.next fun _ => false) FuzzState.init _ _ :=
    Exec.nil.snoc (a := .upsertEdge "a" "b" "KNOWS" []) rfl
  refine ⟨_, _, hrun, rfl, rfl, fun halways => ?_⟩
  have haccepted := (fuzzParity_iff (fun _ => false) hrun).mp halways
  rcases (haccepted _ (List.mem_singleton_self _)).2 with hkey | ⟨hsrc, -, -⟩
  · exact mem_boundKeys.mp hkey (Finmap.lookup_empty _)
  · exact mem_boundKeys.mp hsrc (Finmap.lookup_empty _)

end GrafeoLoro.Proofs
