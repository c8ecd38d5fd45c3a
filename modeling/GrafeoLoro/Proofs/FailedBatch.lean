import GrafeoLoro.Hydration
import GrafeoLoro.Lib.KeyTags
import GrafeoLoro.Proofs.BridgeOk
import GrafeoLoro.Proofs.Loops

/-!
# `GrafeoLoro.Proofs.FailedBatch`: the id maps after a rolled back transaction

A transaction that fails is rolled back, and the id maps keep what the ops before the failure
did to them. `Follows b₀ b tags` compares the maps of `b` with those of the start `b₀`: each
key is unbound, bound as at the start, or bound anew. `replayOps` moves the tags op by op
without store, ids or failures.

* `follows_applyEach`: the tags follow the loop of a transaction, wherever it stops.
* `failedBatch_restores_iff`: after a failed flush, and after a failed hydration chunk, the maps
  are those of the start exactly when the replay of the ops that were applied gives back the
  tags of the start.
* `failedBatch_keeps_binding`: the maps can bind a key to a node that was rolled back.
-/

set_option autoImplicit false

namespace GrafeoLoro.Proofs

open GrafeoLoro GrafeoLoro.Lib

/-! ### Tags of all keys -/

/-- The tags of the node keys and of the edge keys. -/
@[ext] structure Tags where
  nodes : String → KeyTag
  edges : EdgeKey → KeyTag

/-- The tags of the keys at the start of a batch. -/
def Tags.start (maps : BridgeMaps) : Tags := ⟨startTags maps.nodeIdMap, startTags maps.edgeIdMap⟩

/-- What a tree move does to the tags. It needs the node and the new parent to be bound. -/
def replayTreeMove (node old new : String) (tags : Tags) : Tags :=
  if tags.nodes node = .unbound ∨ tags.nodes new = .unbound then tags
  else
    ⟨tags.nodes,
      bindTag (unbindTag tags.edges (old, node, treeEdgeLabel)) (new, node, treeEdgeLabel)⟩

/-- What an op that succeeds does to the tags. -/
def replayOp (op : LoroOp) (tags : Tags) : Tags :=
  match op with
  | .upsertNode key _ _ => { tags with nodes := bindTag tags.nodes key }
  | .upsertEdge src dst label _ => { tags with edges := bindTag tags.edges (src, dst, label) }
  | .deleteNode key => { tags with nodes := unbindTag tags.nodes key }
  | .deleteEdge src dst label => { tags with edges := unbindTag tags.edges (src, dst, label) }
  | .treeMove node old new => replayTreeMove node old new tags

/-- What ops that succeed do to the tags. -/
def replayOps : List LoroOp → Tags → Tags
  | [], tags => tags
  | op :: rest, tags => replayOps rest (replayOp op tags)

/-- The ops, when all of them succeed, leave every binding of the start in place and take back
every binding that they add. -/
def RestoresKeys (ops : List LoroOp) (maps : BridgeMaps) : Prop :=
  replayOps ops (Tags.start maps) = Tags.start maps

/-- The tags describe the maps of `b`, compared with `b₀`. -/
structure Follows (b₀ b : Bridge) (tags : Tags) : Prop where
  nodes : Tagged b₀.maps.nodeIdMap b₀.store.nextNode b.maps.nodeIdMap b.store.nextNode tags.nodes
  edges : Tagged b₀.maps.edgeIdMap b₀.store.nextEdge b.maps.edgeIdMap b.store.nextEdge tags.edges

namespace Follows

variable {b₀ b : Bridge} {tags : Tags}

theorem start (b : Bridge) : Follows b b (Tags.start b.maps) :=
  ⟨Tagged.start _ _, Tagged.start _ _⟩

/-- A change of the store that hands out no id. -/
theorem props (h : Follows b₀ b tags) {store : Store} (hprops : PropsOnly b.store store) :
    Follows b₀ ⟨store, b.maps⟩ tags :=
  ⟨h.nodes.mono (Nat.le_of_eq hprops.nextNode.symm),
    h.edges.mono (Nat.le_of_eq hprops.nextEdge.symm)⟩

/-- A `DeleteNode`. -/
theorem deleteNode (h : Follows b₀ b tags) (key : String) :
    Follows b₀ (applyDeleteNode key b) { tags with nodes := unbindTag tags.nodes key } := by
  rw [applyDeleteNode_eq]
  cases hkey : b.maps.nodeIdMap.lookup key with
  | none =>
    have htags := h.nodes.unbind_unbound hkey
    rw [htags]
    exact h
  | some id =>
    simp only [removeNode_bound hkey]
    exact ⟨h.nodes.unbind key, h.edges⟩

/-- A `DeleteEdge`. -/
theorem deleteEdge (h : Follows b₀ b tags) (key : EdgeKey) :
    Follows b₀ (applyDeleteEdge key b) { tags with edges := unbindTag tags.edges key } := by
  rw [applyDeleteEdge_eq]
  cases hkey : b.maps.edgeIdMap.lookup key with
  | none =>
    have htags := h.edges.unbind_unbound hkey
    rw [htags]
    exact h
  | some id =>
    simp only [removeEdge_bound hkey]
    exact ⟨h.nodes, h.edges.unbind key⟩

/-- A new edge is bound to an unbound key. -/
theorem bindEdge (h : Follows b₀ b tags) (src dst : NodeId) (key : EdgeKey) (label : String)
    (props : List (Σ _ : String, Value)) (hkey : b.maps.edgeIdMap.lookup key = none) :
    Follows b₀ ⟨b.store.addEdge src dst label props, b.maps.insertEdge key b.store.nextEdge⟩
      { tags with edges := bindTag tags.edges key } :=
  ⟨h.nodes, h.edges.bind hkey⟩

/-- A new node is bound to an unbound key. -/
theorem bindNode (h : Follows b₀ b tags) (key : String) (labels : List String)
    (props : List (Σ _ : String, Value)) (hkey : b.maps.nodeIdMap.lookup key = none) :
    Follows b₀ ⟨b.store.addNode labels props, b.maps.insertNode key b.store.nextNode⟩
      { tags with nodes := bindTag tags.nodes key } :=
  ⟨h.nodes.bind hkey, h.edges⟩

/-- An `UpsertNode` that succeeds. -/
theorem upsertNode (h : Follows b₀ b tags) {fault : Nat → Bool} {key : String}
    {labels : List String} {properties : Table String GraphValue}
    (hok : (applyUpsertNode fault key labels properties b).1 = .ok ()) :
    Follows b₀ (applyUpsertNode fault key labels properties b).2
      { tags with nodes := bindTag tags.nodes key } := by
  obtain ⟨id, res, store, hkey, hprops, heq⟩ | ⟨_, heq⟩ | ⟨hkey, heq⟩ :=
    applyUpsertNode_cases fault key labels properties b
  · -- a hit binds nothing
    have hbound : b.maps.nodeIdMap.lookup key ≠ none := by simp [hkey]
    rw [heq, h.nodes.bind_bound hbound]
    exact h.props hprops
  · rw [heq] at hok
    cases hok
  · rw [heq]
    have htick : Follows b₀ ⟨b.store.tick, b.maps⟩ tags := h.props (PropsOnly.tick _)
    exact htick.bindNode key labels _ hkey

/-- An `UpsertEdge` that succeeds. -/
theorem upsertEdge (h : Follows b₀ b tags) {fault : Nat → Bool} {src dst label : String}
    {properties : Table String GraphValue}
    (hok : (applyUpsertEdge fault src dst label properties b).1 = .ok ()) :
    Follows b₀ (applyUpsertEdge fault src dst label properties b).2
      { tags with edges := bindTag tags.edges (src, dst, label) } := by
  obtain heq | ⟨srcId, dstId, _, _, hends⟩ :=
    applyUpsertEdge_cases fault src dst label properties b
  · rw [heq] at hok
    cases hok
  · obtain ⟨eid, res, store, hkey, hprops, heq⟩ | ⟨_, heq⟩ | ⟨hkey, heq⟩ := hends
    · have hbound : b.maps.edgeIdMap.lookup (src, dst, label) ≠ none := by simp [hkey]
      rw [heq, h.edges.bind_bound hbound]
      exact h.props hprops
    · rw [heq] at hok
      cases hok
    · rw [heq]
      have htick : Follows b₀ ⟨b.store.tick, b.maps⟩ tags := h.props (PropsOnly.tick _)
      exact htick.bindEdge srcId dstId _ label _ hkey

/-- A `TreeMove`. -/
theorem treeMove (h : Follows b₀ b tags) (node old new : String) :
    Follows b₀ (applyTreeMove node old new b) (replayTreeMove node old new tags) := by
  unfold applyTreeMove replayTreeMove
  have hnode := h.nodes.unbound_iff node
  have hnew := h.nodes.unbound_iff new
  split
  · rename_i nodeId newParentId hlnode hlnew
    have hbound : ¬ (tags.nodes node = .unbound ∨ tags.nodes new = .unbound) := by
      rw [hnode, hnew, hlnode, hlnew]
      simp
    rw [if_neg hbound]
    -- the old edge goes first, and the new one comes unless it is bound then
    have hdel := h.deleteEdge (old, node, treeEdgeLabel)
    dsimp only
    split
    · rename_i id hkey
      have hkept : (applyDeleteEdge (old, node, treeEdgeLabel) b).maps.edgeIdMap.lookup
          (new, node, treeEdgeLabel) ≠ none := by simp [hkey]
      rw [hdel.edges.bind_bound hkept]
      exact hdel
    · rename_i hkey
      exact hdel.bindEdge newParentId nodeId _ treeEdgeLabel [] hkey
  · rename_i hcases
    have hunbound : tags.nodes node = .unbound ∨ tags.nodes new = .unbound := by
      rw [hnode, hnew]
      cases hlnode : b.maps.nodeIdMap.lookup node with
      | none => exact .inl rfl
      | some nodeId =>
        cases hlnew : b.maps.nodeIdMap.lookup new with
        | none => exact .inr rfl
        | some newParentId => exact absurd hlnew (hcases nodeId newParentId hlnode)
    rw [if_pos hunbound]
    exact h

/-- An op that succeeds moves the tags as the replay says. -/
theorem applyLoroOp_ok (h : Follows b₀ b tags) {fault : Nat → Bool} {op : LoroOp}
    (hok : (applyLoroOp fault op b).1 = .ok ()) :
    Follows b₀ (applyLoroOp fault op b).2 (replayOp op tags) := by
  cases op with
  | upsertNode key labels properties => exact h.upsertNode hok
  | upsertEdge src dst label properties => exact h.upsertEdge hok
  | deleteNode key => exact h.deleteNode key
  | deleteEdge src dst label => exact h.deleteEdge (src, dst, label)
  | treeMove node old new => exact h.treeMove node old new

end Follows

/-! ### Ops that fail -/

/-- A failed op leaves the maps alone. It may have written properties, and no more. -/
theorem applyLoroOp_error {fault : Nat → Bool} {op : LoroOp} {b : Bridge}
    {e : GrafeoLoroError} (herr : (applyLoroOp fault op b).1 = .error e) :
    (applyLoroOp fault op b).2.maps = b.maps ∧
      PropsOnly b.store (applyLoroOp fault op b).2.store := by
  cases op with
  | upsertNode key labels properties =>
    simp only [applyLoroOp] at herr ⊢
    obtain ⟨id, res, store, _, hprops, heq⟩ | ⟨_, heq⟩ | ⟨_, heq⟩ :=
      applyUpsertNode_cases fault key labels properties b
    · rw [heq]
      exact ⟨rfl, hprops⟩
    · rw [heq]
      exact ⟨rfl, PropsOnly.tick _⟩
    · rw [heq] at herr
      cases herr
  | upsertEdge src dst label properties =>
    simp only [applyLoroOp] at herr ⊢
    obtain heq | ⟨_, _, _, _, hends⟩ := applyUpsertEdge_cases fault src dst label properties b
    · rw [heq]
      exact ⟨rfl, PropsOnly.refl _⟩
    · obtain ⟨eid, res, store, _, hprops, heq⟩ | ⟨_, heq⟩ | ⟨_, heq⟩ := hends
      · rw [heq]
        exact ⟨rfl, hprops⟩
      · rw [heq]
        exact ⟨rfl, PropsOnly.tick _⟩
      · rw [heq] at herr
        cases herr
  | deleteNode key => cases herr
  | deleteEdge src dst label => cases herr
  | treeMove node old new => cases herr

section
variable (fault : Nat → Bool) {α : Type} (toOp : α → Except GrafeoLoroError LoroOp)

/-- The ops of a loop that succeeded before the first failure. -/
def appliedOps : List α → Bridge → List LoroOp
  | [], _ => []
  | item :: rest, b =>
    match toOp item with
    | .error _ => []
    | .ok op =>
      match applyLoroOp fault op b with
      | (.ok _, b') => op :: appliedOps rest b'
      | (.error _, _) => []

/-- The ops of a transaction that succeeded before the first failure: none when it could not
begin. -/
def appliedInTransaction (items : List α) (b : Bridge) : List LoroOp :=
  if fault b.store.calls then []
  else appliedOps fault toOp items { b with store := b.store.tick }

/-- The loop keeps the consistency of the bridge, wherever it stops. -/
theorem bridgeOk_applyEach (items : List α) :
    ∀ b, BridgeOk b → BridgeOk (applyEach fault toOp items b).2 :=
  fun _ h => applyEach_invariant fault toOp
    (fun _ op _ _ hb => bridgeOk_applyLoroOp fault op hb) items h

/-- The tags follow the loop, wherever it stops. -/
theorem follows_applyEach {b₀ : Bridge} (items : List α) :
    ∀ b tags, Follows b₀ b tags →
      Follows b₀ (applyEach fault toOp items b).2
        (replayOps (appliedOps fault toOp items b) tags) := by
  induction items with
  | nil => exact fun b tags h => h
  | cons item rest ih =>
    intro b tags h
    cases hitem : toOp item with
    | error e =>
      simp only [applyEach, appliedOps, hitem]
      exact h
    | ok op =>
      cases hop : applyLoroOp fault op b with
      | mk res b' =>
        simp only [applyEach, appliedOps, hitem, hop]
        cases res with
        | ok u =>
          have hok : (applyLoroOp fault op b).1 = .ok () := by rw [hop]
          have hstep := h.applyLoroOp_ok hok
          rw [hop] at hstep
          exact ih b' _ hstep
        | error e =>
          -- the failed op is not replayed, and it moved neither the maps nor the counters
          have herr : (applyLoroOp fault op b).1 = .error e := by rw [hop]
          obtain ⟨hmaps, hprops⟩ := applyLoroOp_error herr
          rw [hop] at hmaps hprops
          obtain ⟨store', maps'⟩ := b'
          obtain rfl : maps' = b.maps := hmaps
          exact h.props hprops

/-! ### A transaction that fails -/

/-- After a transaction that failed, the store has the nodes and edges of before, and the maps
are those of before when it could not begin, and otherwise those after the loop. -/
theorem inTransaction_error {body : Bridge → BridgeResult} {b b' : Bridge}
    {e : GrafeoLoroError} (herr : inTransaction fault body b = (.error e, b')) :
    b'.store.nodes = b.store.nodes ∧ b'.store.edges = b.store.edges ∧
      b'.maps = if fault b.store.calls then b.maps
        else (body { b with store := b.store.tick }).2.maps := by
  obtain ⟨hbegin, e', heq⟩ | ⟨hbegin, e', store, heq⟩ | ⟨-, -, heq⟩ :=
    inTransaction_cases fault body b
  · rw [heq] at herr
    obtain rfl := (Prod.mk.inj herr).2
    exact ⟨rfl, rfl, by simp [hbegin]⟩
  · rw [heq] at herr
    obtain rfl := (Prod.mk.inj herr).2
    refine ⟨rfl, rfl, ?_⟩
    simp only [hbegin, Bool.false_eq_true, if_false]
    rfl
  · rw [heq] at herr
    cases (Prod.mk.inj herr).1

/-- The maps of `b'` are those of `b`, and every binding is of a node or edge of the store. -/
def RolledBack (b b' : Bridge) : Prop :=
  b'.maps = b.maps ∧
    (∀ key id, b'.maps.nodeIdMap.lookup key = some id → id ∈ b'.store.nodes) ∧
    ∀ key id, b'.maps.edgeIdMap.lookup key = some id → id ∈ b'.store.edges

/-- Maps of consistent bridges are equal when their forward maps are. -/
theorem maps_eq_of_forward {b b' : Bridge} (h : BridgeOk b) (h' : BridgeOk b')
    (hnodes : b'.maps.nodeIdMap = b.maps.nodeIdMap)
    (hedges : b'.maps.edgeIdMap = b.maps.edgeIdMap) : b'.maps = b.maps := by
  -- a forward map determines its inverse
  have hnodeInverse := h'.nodeInverse
  have hedgeInverse := h'.edgeInverse
  rw [hnodes] at hnodeInverse
  rw [hedges] at hedgeInverse
  exact BridgeMaps.ext hnodes (hnodeInverse.ext h.nodeInverse) hedges
    (hedgeInverse.ext h.edgeInverse)

/-- After a transaction around a loop that failed, the maps are those of before exactly when
the replay of the ops that succeeded gives back the tags of the start. -/
theorem inTransaction_maps_iff {b b' : Bridge} (h : BridgeOk b) {items : List α}
    {e : GrafeoLoroError}
    (herr : inTransaction fault (applyEach fault toOp items) b = (.error e, b')) :
    b'.maps = b.maps ↔ RestoresKeys (appliedInTransaction fault toOp items b) b.maps := by
  obtain ⟨-, -, hmaps⟩ := inTransaction_error fault herr
  rw [hmaps, appliedInTransaction]
  by_cases hbegin : fault b.store.calls
  · rw [if_pos hbegin, if_pos hbegin]
    exact ⟨fun _ => rfl, fun _ => rfl⟩
  · rw [if_neg hbegin, if_neg hbegin]
    let start : Bridge := { b with store := b.store.tick }
    have hstart : BridgeOk start := h.props (PropsOnly.tick b.store)
    have hafter := bridgeOk_applyEach fault toOp items start hstart
    have hfollows := follows_applyEach fault toOp items start _ (Follows.start start)
    have hnodeFresh : ∀ k id, start.maps.nodeIdMap.lookup k = some id →
        id < start.store.nextNode := fun k id hk => hstart.nodeBoundFresh hk
    -- the ids of the start were handed out before, so the tags decide both maps
    have hnodes := hfollows.nodes.eq_iff hnodeFresh
    have hedges := hfollows.edges.eq_iff hstart.edgeBoundFresh
    constructor
    · intro heq
      have htagNodes := hnodes.mp (congrArg BridgeMaps.nodeIdMap heq)
      have htagEdges := hedges.mp (congrArg BridgeMaps.edgeIdMap heq)
      exact Tags.ext htagNodes htagEdges
    · intro htags
      have hnodeMap := hnodes.mpr (congrArg Tags.nodes htags)
      have hedgeMap := hedges.mpr (congrArg Tags.edges htags)
      exact maps_eq_of_forward h hafter hnodeMap hedgeMap

/-- After a transaction around a loop that failed from a consistent bridge, the maps are rolled
back exactly when the replay of the ops that succeeded gives back the tags of the start. -/
theorem inTransaction_rolledBack_iff {b b' : Bridge} (h : Consistent b) {items : List α}
    {e : GrafeoLoroError}
    (herr : inTransaction fault (applyEach fault toOp items) b = (.error e, b')) :
    RolledBack b b' ↔ RestoresKeys (appliedInTransaction fault toOp items b) b.maps := by
  rw [← inTransaction_maps_iff fault toOp h.toBridgeOk herr]
  obtain ⟨hnodes, hedges, -⟩ := inTransaction_error fault herr
  constructor
  · exact fun hrolled => hrolled.1
  · intro hmaps
    unfold RolledBack
    rw [hmaps, hnodes, hedges]
    exact ⟨rfl, h.nodeLive, h.edgeLive⟩

end

/-! ### Flushes and hydration chunks -/

/-- After a failed flush, and after a failed hydration chunk, the maps are those of before and
bind no rolled back id exactly when the ops that were applied before the failure left every
earlier binding in place and took back every binding they added. -/
theorem failedBatch_restores_iff (fault : Nat → Bool) (b : Bridge) (h : Consistent b) :
    (∀ ops e b', flushInner fault ops b = (.error e, b') →
      (RolledBack b b' ↔ RestoresKeys (appliedInTransaction fault .ok ops b) b.maps)) ∧
    ∀ hydrateMap root chunk e b', hydrateChunk hydrateMap fault root chunk b = (.error e, b') →
      (RolledBack b b' ↔ RestoresKeys
        (appliedInTransaction fault (hydrateVertex hydrateMap root) chunk b) b.maps) :=
  ⟨fun _ _ _ herr => inTransaction_rolledBack_iff fault _ h herr,
    fun _ _ _ _ _ herr => inTransaction_rolledBack_iff fault _ h herr⟩

/-- The empty bridge is consistent. -/
theorem consistent_empty : Consistent Bridge.empty where
  toBridgeOk := bridgeOk_empty
  edgeLive := fun key id h => by simp [Bridge.empty, BridgeMaps.new] at h

/-- A node is written and deleted again, and then comes an edge with unknown endpoints. -/
def writtenAndDeleted : List LoroOp :=
  [.upsertNode "a" [] ∅, .deleteNode "a", .upsertEdge "a" "b" "KNOWS" ∅]

/-- A root map whose only entry is a plain value. -/
def plainRoot : VertexRoot := AList.singleton "a" (.value .null)

/-- A flush that binds a node, unbinds it again and then fails leaves no trace. A chunk whose
first vertex is a plain value leaves none either. -/
theorem failedBatch_restored :
    RolledBack Bridge.empty (flushInner (fun _ => false) writtenAndDeleted Bridge.empty).2 ∧
    RolledBack Bridge.empty (hydrateChunk (fun _ => .error .hydrate) (fun _ => false)
      plainRoot ["a"] Bridge.empty).2 := by
  obtain ⟨hflush, hchunk⟩ :=
    failedBatch_restores_iff (fun _ => false) Bridge.empty consistent_empty
  constructor
  · refine (hflush writtenAndDeleted (.bridge (unknownNodeKeys "a" "b")) _ rfl).mpr ?_
    show replayOps [.upsertNode "a" [] ∅, .deleteNode "a"] _ = _
    refine Tags.ext ?_ rfl
    funext k
    show unbindTag (bindTag _ "a") "a" k = _
    by_cases hk : k = "a"
    · subst hk
      rfl
    · simp [unbindTag, bindTag, hk, Tags.start]
  · exact (hchunk (fun _ => .error .hydrate) plainRoot ["a"]
      (.bridge "vertex a is not a Container::Map") _ rfl).mpr rfl

/-- A flush that binds a node and then fails at an edge with an unknown endpoint: the key
stays bound, and its node was rolled back. -/
theorem failedBatch_keeps_binding :
    (flushInner (fun _ => false) [.upsertNode "a" [] ∅, .upsertEdge "a" "b" "KNOWS" ∅]
        Bridge.empty).1 = .error (.bridge (unknownNodeKeys "a" "b")) ∧
      ¬ RolledBack Bridge.empty (flushInner (fun _ => false)
        [.upsertNode "a" [] ∅, .upsertEdge "a" "b" "KNOWS" ∅] Bridge.empty).2 := by
  refine ⟨rfl, fun hrolled => ?_⟩
  have hmem := hrolled.2.1 "a" 0 (by decide)
  have hgone : 0 ∉ (flushInner (fun _ => false)
      [.upsertNode "a" [] ∅, .upsertEdge "a" "b" "KNOWS" ∅] Bridge.empty).2.store.nodes := by
    decide
  exact hgone hmem

end GrafeoLoro.Proofs
