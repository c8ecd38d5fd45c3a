import GrafeoLoro.Hydration.Schedule
import GrafeoLoro.Proofs.VertexFormat

/-!
# `GrafeoLoro.Proofs.HydrationAgree`: serial and parallel hydration build one graph

`Hydrated keys b` says that `b` binds the keys `keys` and no others, each to a node of its own with
the labels and the properties of the entry, and has no other node. A vertex call adds its key, the
calls of a session change nothing, and an interleaving has each key once.

* `runCalls_hydrated`: what any calls that do not fail leave, for keys that are not bound.
* `serial_parallelOk`, `parallelOk_of_run`: the serial loop, and threads that take whole chunks, are
  interleavings.
* `hydrations_agree`: so the serial function and every run of the threads that returns `Ok` build
  one graph, up to the node ids, and without failing calls both return `Ok`.
-/

set_option autoImplicit false

namespace GrafeoLoro.Proofs

open GrafeoLoro GrafeoLoro.Lib

/-! ### The calls and the loops -/

section
variable (hydrateMap : ContainerID → Except GrafeoLoroError VertexEntity) {fault : Nat → Bool}
variable {root : VertexRoot}

/-- Calls in two parts succeed when each part does. -/
theorem runCalls_append_ok {calls rest : List ChunkCall} {b after : Bridge} :
    runCalls hydrateMap fault root (calls ++ rest) b = (.ok (), after) ↔
      ∃ b', runCalls hydrateMap fault root calls b = (.ok (), b') ∧
        runCalls hydrateMap fault root rest b' = (.ok (), after) := by
  induction calls generalizing b with
  | nil => simp [runCalls]
  | cons call calls ih =>
    rw [List.cons_append, runCalls, runCalls]
    split
    · exact ih
    · simp

/-- The vertex calls of a chunk are its loop. -/
theorem runCalls_vertices (chunk : List String) (b : Bridge) :
    runCalls hydrateMap fault root (chunk.map .vertex) b =
      applyEach fault (hydrateVertex hydrateMap root) chunk b := by
  induction chunk generalizing b with
  | nil => rfl
  | cons key rest ih =>
    rw [List.map_cons, runCalls, ChunkCall.run, applyEach]
    cases hydrateVertex hydrateMap root key with
    | error e => rfl
    | ok op =>
      cases hstep : applyLoroOp fault op b with
      | mk res b' =>
        cases res with
        | error e => simp only [hstep]
        | ok u =>
          simp only [hstep]
          exact ih b'

/-- A chunk that commits made its calls without failure. -/
theorem runCalls_chunk_ok {chunk : List String} {b after : Bridge}
    (h : hydrateChunk hydrateMap fault root chunk b = (.ok (), after)) :
    runCalls hydrateMap fault root (chunkCalls chunk) b = (.ok (), after) := by
  -- every match of the transaction takes its first branch
  unfold hydrateChunk inTransaction at h
  split at h
  · cases h
  · rename_i store hbegin
    split at h
    · cases h
    · rename_i mid hbody
      split at h
      · cases h
      · rename_i store' hprepare
        split at h
        · cases h
        · rename_i store'' hcommit
          obtain rfl : ({ mid with store := store'' } : Bridge) = after := congrArg Prod.snd h
          have hfirst : runCalls hydrateMap fault root (chunkCalls chunk) b =
              runCalls hydrateMap fault root (chunk.map .vertex ++ [.prepare, .commit])
                { b with store } := by
            simp only [chunkCalls, runCalls, ChunkCall.run, sessionCall, hbegin]
          rw [hfirst, runCalls_append_ok, runCalls_vertices]
          refine ⟨mid, hbody, ?_⟩
          simp only [runCalls, ChunkCall.run, sessionCall, hprepare, hcommit]

/-- The serial loop, when it succeeds, made the calls of the chunks one after the other. -/
theorem runCalls_chunks_ok {cs : List (List String)} {b after : Bridge}
    (h : hydrateChunks hydrateMap fault root cs b = (.ok (), after)) :
    runCalls hydrateMap fault root (cs.map chunkCalls).flatten b = (.ok (), after) := by
  induction cs generalizing b with
  | nil => exact h
  | cons chunk rest ih =>
    rw [hydrateChunks] at h
    split at h
    · rename_i b' heq
      rw [List.map_cons, List.flatten_cons, runCalls_append_ok]
      exact ⟨b', runCalls_chunk_ok hydrateMap heq, ih h⟩
    · cases h

/-- Threads that take whole chunks, when they succeed, did what the serial loop does on the chunks
in this order. -/
theorem hydrateChunks_of_taken {cs : List (List String)} {b after : Bridge}
    (h : takeChunks hydrateMap fault root cs b = (.ok (), after)) :
    hydrateChunks hydrateMap fault root cs b = (.ok (), after) := by
  induction cs generalizing b with
  | nil => exact h
  | cons chunk rest ih =>
    rw [takeChunks] at h
    split at h
    · rename_i b' heq
      rw [hydrateChunks, heq]
      exact ih h
    · cases h

/-- The serial function, when it succeeds, is one of the interleavings. -/
theorem serial_parallelOk {b after : Bridge}
    (h : hydrateGrafeo hydrateMap fault root b = (.ok (), after)) :
    ParallelOk hydrateMap fault root b after :=
  ⟨_, interleaved_flatten _, runCalls_chunks_ok hydrateMap h⟩

/-- Threads that take whole chunks in any order, when they succeed, are one of the
interleavings. -/
theorem parallelOk_of_run {b after : Bridge} {taken : List (List String)}
    (h : ParallelRun hydrateMap fault root b taken (.ok (), after)) :
    ParallelOk hydrateMap fault root b after := by
  -- no chunk is left out
  have hperm : taken.Perm (keyChunks root) :=
    h.subperm.perm_of_length_le (Nat.le_of_eq (h.complete rfl).symm)
  have hserial := hydrateChunks_of_taken hydrateMap h.result
  refine ⟨(taken.map chunkCalls).flatten, ?_, runCalls_chunks_ok hydrateMap hserial⟩
  exact (interleaved_flatten _).of_perm (hperm.map chunkCalls)

end

/-! ### The keys of the calls -/

/-- The keys of the vertex calls. -/
def vertexKeys : List ChunkCall → List String
  | [] => []
  | .vertex key :: rest => key :: vertexKeys rest
  | _ :: rest => vertexKeys rest

theorem vertexKeys_append (calls rest : List ChunkCall) :
    vertexKeys (calls ++ rest) = vertexKeys calls ++ vertexKeys rest := by
  induction calls with
  | nil => rfl
  | cons call calls ih => cases call <;> simp [vertexKeys, ih]

theorem vertexKeys_chunkCalls (chunk : List String) : vertexKeys (chunkCalls chunk) = chunk := by
  have hvertices : vertexKeys (chunk.map .vertex) = chunk := by
    induction chunk with
    | nil => rfl
    | cons key rest ih => simp [vertexKeys, ih]
  simp [chunkCalls, vertexKeys, vertexKeys_append, hvertices]

/-- Calls in another order have the same keys, each as often. -/
theorem vertexKeys_perm {calls calls' : List ChunkCall} (h : calls.Perm calls') :
    (vertexKeys calls).Perm (vertexKeys calls') := by
  induction h with
  | nil => exact .refl _
  | cons call _ ih => cases call <;> simp [vertexKeys, ih]
  | swap call call' rest => cases call <;> cases call' <;> simp [vertexKeys, List.Perm.swap]
  | trans _ _ ih ih' => exact ih.trans ih'

/-- Interleaved chunks: every key of the root map once. -/
theorem vertexKeys_interleaved {root : VertexRoot} {calls : List ChunkCall}
    (h : Interleaved ((keyChunks root).map chunkCalls) calls) :
    (vertexKeys calls).Perm root.keys := by
  -- one chunk after the other: the chunks in a row are the keys
  have hflatten : ∀ cs : List (List String),
      vertexKeys (cs.map chunkCalls).flatten = cs.flatten := by
    intro cs
    induction cs with
    | nil => rfl
    | cons chunk rest ih => simp [vertexKeys_append, vertexKeys_chunkCalls, ih]
  have hperm := vertexKeys_perm h.perm
  rwa [hflatten, keyChunks, flatten_chunks] at hperm

/-! ### What the calls leave -/

section
variable (hydrateMap : ContainerID → Except GrafeoLoroError VertexEntity)

/-- The node has the labels and the properties of the vertex under the key. -/
def EntryNode (root : VertexRoot) (key : String) (node : Node) : Prop :=
  ∃ cid entity, root.lookup key = some (.container cid) ∧ hydrateMap cid = .ok entity ∧
    node = ⟨entity.labels, insertAll ∅ (grafeoProps entity.graphProperties.entries)⟩

/-- The bridge has a node for each of the keys, and nothing else. -/
structure Hydrated (root : VertexRoot) (keys : List String) (b : Bridge) : Prop where
  ok : BridgeOk b
  bound : ∀ key, key ∈ b.maps.nodeIdMap ↔ key ∈ keys
  entry : ∀ key id, b.maps.nodeIdMap.lookup key = some id →
    ∃ node, b.store.nodes.lookup id = some node ∧ EntryNode hydrateMap root key node
  owned : ∀ id ∈ b.store.nodes, ∃ key, b.maps.nodeIdMap.lookup key = some id

variable {hydrateMap} {fault : Nat → Bool} {root : VertexRoot} {keys : List String} {b : Bridge}

theorem hydrated_empty : Hydrated hydrateMap root [] Bridge.empty where
  ok := bridgeOk_empty
  bound := by simp [Bridge.empty, BridgeMaps.new, Finmap.notMem_empty]
  entry key id h := by simp [Bridge.empty, BridgeMaps.new] at h
  owned id h := absurd h (AList.notMem_empty id)

/-- A count of calls does not matter. -/
theorem Hydrated.tick (h : Hydrated hydrateMap root keys b) :
    Hydrated hydrateMap root keys { b with store := b.store.tick } where
  ok := h.ok.props (PropsOnly.tick _)
  bound := h.bound
  entry := h.entry
  owned := h.owned

/-- A call of a session that succeeds only counts. -/
theorem sessionCall_ok {after : Bridge}
    (h : sessionCall (fun s => call fault s () id) b = (.ok (), after)) :
    after = { b with store := b.store.tick } := by
  simp only [sessionCall, call] at h
  cases hfault : fault b.store.calls with
  | true => simp [hfault] at h
  | false =>
    simp only [hfault, Bool.false_eq_true, if_false, id] at h
    exact (congrArg Prod.snd h).symm

/-- The op of a vertex that hydration accepts makes its node. -/
theorem hydrateVertex_entry {key : String} {op : LoroOp}
    (h : hydrateVertex hydrateMap root key = .ok op) :
    ∃ labels properties, op = .upsertNode key labels properties ∧
      EntryNode hydrateMap root key ⟨labels, insertAll ∅ (grafeoProps properties.entries)⟩ := by
  unfold hydrateVertex intoMap at h
  cases hvoc : root.lookup key with
  | none =>
    rw [hvoc] at h
    cases h
  | some voc =>
    cases voc with
    | value v =>
      rw [hvoc] at h
      cases h
    | container cid =>
      simp only [hvoc] at h
      split at h
      · cases h
      · rename_i vertexMap hmap
        split at hmap
        · cases hmap
          split at h
          · cases h
          · rename_i entity hentity
            cases h
            exact ⟨_, _, rfl, cid, entity, hvoc, hentity, rfl⟩
        · cases hmap

/-- An upsert of an unbound key that succeeds makes a node and binds it. -/
theorem upsertNode_miss_ok {key : String} {labels : List String}
    {properties : Table String GraphValue} {after : Bridge}
    (hkey : b.maps.nodeIdMap.lookup key = none)
    (h : applyLoroOp fault (.upsertNode key labels properties) b = (.ok (), after)) :
    after = ⟨b.store.tick.addNode labels (grafeoProps properties.entries),
      b.maps.insertNode key b.store.nextNode⟩ := by
  simp only [applyLoroOp, applyUpsertNode, hkey, createNodeWithProps, call] at h
  split at h
  · rename_i id store hcall
    split at hcall
    · cases hcall
    · cases hcall
      exact (congrArg Prod.snd h).symm
  · cases h

/-- A vertex call that succeeds adds its key. -/
theorem Hydrated.vertex {key : String} {after : Bridge} (h : Hydrated hydrateMap root keys b)
    (hnew : key ∉ keys)
    (hrun : (ChunkCall.vertex key).run hydrateMap fault root b = (.ok (), after)) :
    Hydrated hydrateMap root (key :: keys) after := by
  -- an unbound key, so the upsert makes a node
  have hkey : b.maps.nodeIdMap.lookup key = none :=
    Finmap.lookup_eq_none.mpr fun hmem => hnew ((h.bound key).mp hmem)
  rw [ChunkCall.run] at hrun
  split at hrun
  · cases hrun
  · rename_i op hop
    obtain ⟨labels, properties, rfl, hentry⟩ := hydrateVertex_entry hop
    have hok : BridgeOk after := by
      have hstep := bridgeOk_applyLoroOp fault (.upsertNode key labels properties) h.ok
      rwa [hrun] at hstep
    obtain rfl := upsertNode_miss_ok hkey hrun
    refine ⟨hok, fun k => ?_, fun k id hid => ?_, fun id hid => ?_⟩
    · show k ∈ b.maps.nodeIdMap.insert key b.store.nextNode ↔ _
      rw [Finmap.mem_insert, h.bound, List.mem_cons]
    · change (b.maps.nodeIdMap.insert key b.store.nextNode).lookup k = some id at hid
      show ∃ node, (b.store.nodes.insert b.store.nextNode _).lookup id = some node ∧ _
      rw [finmap_lookup_insert] at hid
      split at hid
      · rename_i heq
        cases hid
        exact ⟨_, AList.lookup_insert _, heq ▸ hentry⟩
      · -- the new node has an id that no key was bound to
        have hne : id ≠ b.store.nextNode := Nat.ne_of_lt (h.ok.nodeBoundFresh hid)
        rw [alist_lookup_insert, if_neg hne]
        exact h.entry k id hid
    · show ∃ k, (b.maps.nodeIdMap.insert key b.store.nextNode).lookup k = some id
      rcases (AList.mem_insert b.store.nodes).mp hid with rfl | hid
      · exact ⟨key, Finmap.lookup_insert _⟩
      · obtain ⟨k, hk⟩ := h.owned id hid
        exact ⟨k, finmap_lookup_insert_of_none hkey hk⟩

/-- A call that succeeds adds the key it is about, if any. -/
theorem Hydrated.call {call : ChunkCall} {after : Bridge} (h : Hydrated hydrateMap root keys b)
    (hnew : ∀ key ∈ vertexKeys [call], key ∉ keys)
    (hrun : call.run hydrateMap fault root b = (.ok (), after)) :
    Hydrated hydrateMap root (vertexKeys [call] ++ keys) after := by
  cases call with
  | vertex key => exact h.vertex (hnew key (by simp [vertexKeys])) hrun
  | begin =>
    obtain rfl := sessionCall_ok hrun
    exact h.tick
  | prepare =>
    obtain rfl := sessionCall_ok hrun
    exact h.tick
  | commit =>
    obtain rfl := sessionCall_ok hrun
    exact h.tick

/-- Only the members of the list of keys matter. -/
theorem Hydrated.congr {keys' : List String} (h : Hydrated hydrateMap root keys b)
    (hkeys : ∀ key, key ∈ keys ↔ key ∈ keys') : Hydrated hydrateMap root keys' b where
  ok := h.ok
  bound key := (h.bound key).trans (hkeys key)
  entry := h.entry
  owned := h.owned

/-- Calls that succeed, on keys that are not bound yet and different from each other, add their
keys. -/
theorem runCalls_hydrated {calls : List ChunkCall} {after : Bridge}
    (h : Hydrated hydrateMap root keys b) (hnodup : (vertexKeys calls).Nodup)
    (hnew : ∀ key ∈ vertexKeys calls, key ∉ keys)
    (hrun : runCalls hydrateMap fault root calls b = (.ok (), after)) :
    Hydrated hydrateMap root (vertexKeys calls ++ keys) after := by
  -- for any keys that are bound before, since each call adds to them
  induction calls generalizing b keys with
  | nil =>
    cases hrun
    exact h
  | cons call rest ih =>
    have hsplit : vertexKeys (call :: rest) = vertexKeys [call] ++ vertexKeys rest :=
      vertexKeys_append [call] rest
    rw [hsplit] at hnodup hnew ⊢
    obtain ⟨-, hrest, hdisjoint⟩ := List.nodup_append.mp hnodup
    rw [runCalls] at hrun
    split at hrun
    · rename_i b' hcall
      have hnext := h.call (fun key hkey => hnew key (by simp [hkey])) hcall
      have hnew' : ∀ key ∈ vertexKeys rest, key ∉ vertexKeys [call] ++ keys := by
        intro key hkey hmem
        rcases List.mem_append.mp hmem with hin | hin
        · exact hdisjoint key hin key hkey rfl
        · exact hnew key (by simp [hkey]) hin
      refine (ih hnext hrest hnew' hrun).congr fun key => ?_
      simp only [List.mem_append]
      tauto
    · cases hrun

/-- A run that returns `Ok` from the empty bridge hydrates exactly the keys of the root map. -/
theorem hydrated_of_parallelOk (h : ParallelOk hydrateMap fault root Bridge.empty b) :
    Hydrated hydrateMap root root.keys b := by
  obtain ⟨calls, hcalls, hrun⟩ := h
  have hperm := vertexKeys_interleaved hcalls
  have hnodup : (vertexKeys calls).Nodup := hperm.nodup_iff.mpr root.nodupKeys
  refine (runCalls_hydrated hydrated_empty hnodup (by simp) hrun).congr fun key => ?_
  simp [hperm.mem_iff]

/-- Calls on entries that hydration accepts succeed when no Grafeo call fails. -/
theorem runCalls_noFault {calls : List ChunkCall}
    (hall : ∀ key ∈ vertexKeys calls, MapEntry hydrateMap root key) (b : Bridge) :
    (runCalls hydrateMap noFault root calls b).1 = .ok () := by
  induction calls generalizing b with
  | nil => rfl
  | cons call rest ih =>
    have hrest : ∀ key ∈ vertexKeys rest, MapEntry hydrateMap root key := fun key hkey =>
      hall key (by cases call <;> simp [vertexKeys, hkey])
    have hcall : (call.run hydrateMap noFault root b).1 = .ok () := by
      cases call with
      | vertex key =>
        have hentry := hall key (by simp [vertexKeys])
        obtain ⟨op, hop⟩ := (hydrateVertex_isOk hydrateMap key).mpr hentry
        obtain ⟨labels, properties, rfl⟩ := hydrateVertex_ok hydrateMap hop
        rw [ChunkCall.run, hop]
        exact upsertNode_ok key labels properties b
      | begin => rfl
      | prepare => rfl
      | commit => rfl
    rw [runCalls]
    split
    · exact ih hrest _
    · rename_i e b' heq
      rw [heq] at hcall
      cases hcall

end

/-! ### Two hydrations -/

/-- The node maps and the nodes of `b'` are those of `b` under other node ids. -/
def SameUpToIds (b b' : Bridge) : Prop :=
  ∃ rename : NodeId → NodeId,
    Set.BijOn rename {id | id ∈ b.store.nodes} {id | id ∈ b'.store.nodes} ∧
    (∀ key, b'.maps.nodeIdMap.lookup key = (b.maps.nodeIdMap.lookup key).map rename) ∧
    ∀ id ∈ b.store.nodes, b'.store.nodes.lookup (rename id) = b.store.nodes.lookup id

/-- The bridge binds the keys of the root map, each to a node of its own, and has no other key
and no other node. -/
structure BindsKeysOnce (root : VertexRoot) (b : Bridge) : Prop where
  keys : ∀ key, key ∈ b.maps.nodeIdMap ↔ key ∈ root.keys
  distinct : ∀ key key' id, b.maps.nodeIdMap.lookup key = some id →
    b.maps.nodeIdMap.lookup key' = some id → key = key'
  nodes : ∀ id, id ∈ b.store.nodes ↔ ∃ key, b.maps.nodeIdMap.lookup key = some id

section
variable {hydrateMap : ContainerID → Except GrafeoLoroError VertexEntity} {root root' : VertexRoot}
variable {b b' : Bridge}

theorem Hydrated.bindsKeysOnce (h : Hydrated hydrateMap root root.keys b) :
    BindsKeysOnce root b where
  keys := h.bound
  distinct _ _ _ hid hid' := h.ok.nodeInverse.key_unique hid hid'
  nodes id := ⟨h.owned id, fun ⟨key, hid⟩ => h.ok.nodeLive key id hid⟩

/-- The entry of a key determines its node. -/
theorem EntryNode.unique (hsame : ∀ key, root'.lookup key = root.lookup key) {key : String}
    {node node' : Node} (h : EntryNode hydrateMap root key node)
    (h' : EntryNode hydrateMap root' key node') : node = node' := by
  obtain ⟨cid, entity, hcid, hentity, rfl⟩ := h
  obtain ⟨cid', entity', hcid', hentity', rfl⟩ := h'
  rw [hsame, hcid] at hcid'
  cases hcid'
  rw [hentity] at hentity'
  cases hentity'
  rfl

/-- A key that is bound has an id. -/
theorem exists_id {key : String} (h : key ∈ b.maps.nodeIdMap) :
    ∃ id, b.maps.nodeIdMap.lookup key = some id :=
  Option.isSome_iff_exists.mp (Finmap.lookup_isSome.mpr h)

/-- The id in `b'` of the key that has the id `id` in `b`. -/
def idOfSameKey (b b' : Bridge) (id : NodeId) : NodeId :=
  ((b.maps.nodeKeyMap.lookup id).bind b'.maps.nodeIdMap.lookup).getD id

theorem idOfSameKey_eq (hok : BridgeOk b) {key : String} {id id' : NodeId}
    (hid : b.maps.nodeIdMap.lookup key = some id)
    (hid' : b'.maps.nodeIdMap.lookup key = some id') : idOfSameKey b b' id = id' := by
  have hkey := (hok.nodeInverse key id).mp hid
  simp [idOfSameKey, hkey, hid']

section
variable {keys : List String} (h : Hydrated hydrateMap root keys b)
variable (h' : Hydrated hydrateMap root' keys b')
include h h'

/-- A key that one hydration binds, the other binds. -/
theorem Hydrated.exists_other_id {key : String} {id : NodeId}
    (hid : b.maps.nodeIdMap.lookup key = some id) :
    ∃ id', b'.maps.nodeIdMap.lookup key = some id' := by
  have hmem : key ∈ b.maps.nodeIdMap := Finmap.mem_of_lookup_eq_some hid
  exact exists_id ((h'.bound key).mpr ((h.bound key).mp hmem))

/-- A node has a key, and the key has a node in the other hydration. -/
theorem Hydrated.exists_other_node {id : NodeId} (hid : id ∈ b.store.nodes) :
    ∃ key, b.maps.nodeIdMap.lookup key = some id ∧
      b'.maps.nodeIdMap.lookup key = some (idOfSameKey b b' id) := by
  obtain ⟨key, hkey⟩ := h.owned id hid
  obtain ⟨id', hid'⟩ := h.exists_other_id h' hkey
  rw [idOfSameKey_eq h.ok hkey hid']
  exact ⟨key, hkey, hid'⟩

/-- Nodes under one key correspond one to one. -/
theorem Hydrated.bijOn : Set.BijOn (idOfSameKey b b') {id | id ∈ b.store.nodes}
    {id | id ∈ b'.store.nodes} := by
  refine ⟨fun id hid => ?_, fun id hid id₂ hid₂ heq => ?_, fun id' hid' => ?_⟩
  · obtain ⟨key, -, hother⟩ := h.exists_other_node h' hid
    exact h'.ok.nodeLive key _ hother
  · obtain ⟨key, hkey, hother⟩ := h.exists_other_node h' hid
    obtain ⟨key₂, hkey₂, hother₂⟩ := h.exists_other_node h' hid₂
    rw [heq] at hother
    -- one id in the other hydration is of one key
    obtain rfl := h'.ok.nodeInverse.key_unique hother hother₂
    exact Option.some.inj (hkey.symm.trans hkey₂)
  · obtain ⟨key, hkey⟩ := h'.owned id' hid'
    obtain ⟨id, hid⟩ := h'.exists_other_id h hkey
    exact ⟨id, h.ok.nodeLive key id hid, idOfSameKey_eq h.ok hid hkey⟩

/-- Two hydrations of one document are the same up to the node ids. -/
theorem Hydrated.same (hsame : ∀ key, root'.lookup key = root.lookup key) : SameUpToIds b b' := by
  refine ⟨idOfSameKey b b', h.bijOn h', fun key => ?_, fun id hid => ?_⟩
  · cases hid : b.maps.nodeIdMap.lookup key with
    | none =>
      cases hid' : b'.maps.nodeIdMap.lookup key with
      | none => rfl
      | some id' =>
        obtain ⟨id, hsome⟩ := h'.exists_other_id h hid'
        rw [hid] at hsome
        cases hsome
    | some id =>
      obtain ⟨id', hid'⟩ := h.exists_other_id h' hid
      rw [hid', Option.map_some, idOfSameKey_eq h.ok hid hid']
  · obtain ⟨key, hkey, hother⟩ := h.exists_other_node h' hid
    obtain ⟨node, hnode, hentry⟩ := h.entry key id hkey
    obtain ⟨node', hnode', hentry'⟩ := h'.entry key _ hother
    rw [hnode, hnode', EntryNode.unique hsame hentry hentry']

end

/-- On a document whose vertices are all readable map containers, the serial function and every
interleaving of the threads return `Ok` when no Grafeo call fails, whatever the order of the keys.
And whenever both return `Ok`, they bind the keys of the document to the same nodes, up to the node
ids. -/
theorem hydrations_agree (hsame : ∀ key, root'.lookup key = root.lookup key)
    (hall : ∀ key ∈ root.keys, MapEntry hydrateMap root key) :
    (hydrateGrafeo hydrateMap noFault root Bridge.empty).1 = .ok () ∧
    (∀ calls, Interleaved ((keyChunks root').map chunkCalls) calls →
      (runCalls hydrateMap noFault root' calls Bridge.empty).1 = .ok ()) ∧
    ∀ fault fault' serial parallel,
      hydrateGrafeo hydrateMap fault root Bridge.empty = (.ok (), serial) →
      ParallelOk hydrateMap fault' root' Bridge.empty parallel →
      BindsKeysOnce root serial ∧ BindsKeysOnce root parallel ∧ SameUpToIds serial parallel := by
  have hkeys : ∀ key, key ∈ root'.keys ↔ key ∈ root.keys := by
    intro key
    rw [← AList.mem_keys, ← AList.mem_keys, ← AList.lookup_isSome, ← AList.lookup_isSome, hsame]
  refine ⟨(hydrateGrafeo_live hydrateMap root hall).1, fun calls hcalls => ?_,
    fun fault fault' serial parallel hserial hparallel => ?_⟩
  · refine runCalls_noFault (fun key hkey => ?_) _
    have hmem := (hkeys key).mp ((vertexKeys_interleaved hcalls).mem_iff.mp hkey)
    obtain ⟨cid, entity, hcid, htype, hentity⟩ := hall key hmem
    exact ⟨cid, entity, (hsame key).trans hcid, htype, hentity⟩
  · have hs := hydrated_of_parallelOk (serial_parallelOk hydrateMap hserial)
    have hp := hydrated_of_parallelOk hparallel
    have hbinds := hp.bindsKeysOnce
    refine ⟨hs.bindsKeysOnce, ⟨fun key => ?_, hbinds.distinct, hbinds.nodes⟩, ?_⟩
    · exact (hbinds.keys key).trans (hkeys key)
    · exact hs.same (hp.congr hkeys) hsame

end

/-- Two vertices, read in one order by the serial function and in the other by the threads. -/
theorem hydrations_agree_two_vertices :
    let ada : ContainerID := .normal 1 0 .map
    let grace : ContainerID := .normal 1 1 .map
    let hydrateMap : ContainerID → Except GrafeoLoroError VertexEntity := fun cid =>
      if cid = ada then .ok ⟨["Person"], AList.singleton "name" (.string "Ada")⟩
      else .ok ⟨["Person"], ∅⟩
    let root : VertexRoot :=
      ((∅ : VertexRoot).insert "a" (.container ada)).insert "g" (.container grace)
    let root' : VertexRoot :=
      ((∅ : VertexRoot).insert "g" (.container grace)).insert "a" (.container ada)
    ∃ serial parallel,
      hydrateGrafeo hydrateMap noFault root Bridge.empty = (.ok (), serial) ∧
      ParallelOk hydrateMap noFault root' Bridge.empty parallel ∧
      BindsKeysOnce root serial ∧ SameUpToIds serial parallel := by
  intro ada grace hydrateMap root root'
  have hsame : ∀ key, root'.lookup key = root.lookup key := by
    intro key
    simp only [root, root', alist_lookup_insert, AList.lookup_empty]
    by_cases ha : key = "a"
    · simp [ha]
    · simp [ha]
  have hall : ∀ key ∈ root.keys, MapEntry hydrateMap root key := by
    intro key hkey
    obtain rfl | rfl : key = "g" ∨ key = "a" := by simpa [root] using hkey
    · exact ⟨grace, ⟨["Person"], ∅⟩, rfl, rfl, rfl⟩
    · exact ⟨ada, ⟨["Person"], AList.singleton "name" (.string "Ada")⟩, rfl, rfl, rfl⟩
  obtain ⟨hserial, hparallel, hagree⟩ := hydrations_agree hsame hall
  have hs : hydrateGrafeo hydrateMap noFault root Bridge.empty = (.ok (), _) :=
    Prod.ext hserial rfl
  have hp : ParallelOk hydrateMap noFault root' Bridge.empty _ :=
    ⟨_, interleaved_flatten _, Prod.ext (hparallel _ (interleaved_flatten _)) rfl⟩
  obtain ⟨hbinds, -, hsameGraph⟩ := hagree noFault noFault _ _ hs hp
  exact ⟨_, _, hs, hp, hbinds, hsameGraph⟩

end GrafeoLoro.Proofs
