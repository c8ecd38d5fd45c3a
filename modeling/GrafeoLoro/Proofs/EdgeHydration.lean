import GrafeoLoro.Proofs.Bijection
import GrafeoLoro.Proofs.EdgeKey
import GrafeoLoro.Proofs.UpsertEdge
import GrafeoLoro.Proofs.VertexFormat

/-!
# `GrafeoLoro.Proofs.EdgeHydration`: the edges after a cold boot

Hydration reads the root map `V` and never the root map `E`. `EdgesMirror` says that the edges
of the store and of `edge_id_map` are the entries of `E`, with their properties.

* `liveSync_edgesMirror`: the live path gets there. It takes the entries of `E` to a bridge that
  has the vertices.
* `edgeHydration_iff`: a cold boot that succeeds, serial or parallel, gets there exactly when
  `E` has no entries.
* `edgeHydration_drops_edge`: one edge between two vertices is not there after a cold boot.
-/

set_option autoImplicit false

namespace GrafeoLoro.Proofs

open GrafeoLoro GrafeoLoro.Lib

/-- The root map `E` of a document. -/
abbrev EdgeRoot : Type := Table String ValueOrContainer

/-- The properties of an entry of `E`, as Grafeo values. Only a plain map of supported values
has properties. -/
def edgeProperties : ValueOrContainer → Option (HashMap String Value)
  | .value (.map m) =>
    (translateProperties m ∅).map fun props => insertAll ∅ (grafeoProps props.entries)
  | _ => none

/-- The entry of `E` is bound to an edge of the store with the endpoints, the label and the
properties of the entry. -/
def EdgeStored (b : Bridge) (key : String) (voc : ValueOrContainer) : Prop :=
  ∃ src dst label eid e, parseEdgeKey key = some (src, dst, label) ∧
    b.maps.edgeIdMap.lookup (src, dst, label) = some eid ∧
    b.store.edges.lookup eid = some e ∧ b.maps.nodeIdMap.lookup src = some e.src ∧
    b.maps.nodeIdMap.lookup dst = some e.dst ∧ e.label = label ∧
    edgeProperties voc = some e.properties

/-- The edges of the bridge are these entries: every entry is there, and every bound key and
every edge of the store is of an entry. -/
structure EdgesMirror (entries : List (Σ _ : String, ValueOrContainer)) (b : Bridge) :
    Prop where
  stored : ∀ entry ∈ entries, EdgeStored b entry.1 entry.2
  bound : ∀ key eid, b.maps.edgeIdMap.lookup key = some eid →
    ∃ entry ∈ entries, parseEdgeKey entry.1 = some key
  known : ∀ eid ∈ b.store.edges, ∃ key, b.maps.edgeIdMap.lookup key = some eid

/-- The bridge has no edges. -/
def NoEdges (b : Bridge) : Prop :=
  (∀ eid, eid ∉ b.store.edges) ∧ ∀ key, b.maps.edgeIdMap.lookup key = none

/-! ### A cold boot -/

/-- A bridge without edges mirrors no entries only. -/
theorem NoEdges.mirror_iff {b : Bridge} (h : NoEdges b)
    (entries : List (Σ _ : String, ValueOrContainer)) : EdgesMirror entries b ↔ entries = [] := by
  constructor
  · intro hmirror
    apply List.eq_nil_iff_forall_not_mem.mpr
    intro entry hentry
    obtain ⟨src, dst, label, eid, e, -, hbound, -⟩ := hmirror.stored entry hentry
    rw [h.2] at hbound
    cases hbound
  · intro hempty
    subst hempty
    constructor
    case stored => exact fun entry hentry => absurd hentry List.not_mem_nil
    case bound =>
      intro key eid hbound
      rw [h.2] at hbound
      cases hbound
    case known => exact fun eid hmem => absurd hmem (h.1 eid)

/-- An upsert of a vertex adds no edge. -/
theorem NoEdges.upsertNode {b : Bridge} (h : NoEdges b) (fault : Nat → Bool) (key : String)
    (labels : List String) (properties : Table String GraphValue) :
    NoEdges (applyLoroOp fault (.upsertNode key labels properties) b).2 := by
  show NoEdges (applyUpsertNode fault key labels properties b).2
  obtain ⟨id, res, store, _, hprops, heq⟩ | ⟨_, heq⟩ | ⟨_, heq⟩ :=
    applyUpsertNode_cases fault key labels properties b
  · rw [heq]
    exact ⟨fun eid hmem => h.1 eid ((hprops.mem_edges eid).mp hmem), h.2⟩
  · rw [heq]
    exact h
  · -- the create touches the nodes and the node maps only
    rw [heq]
    exact h

/-- A transaction without edges before it and in it has none after it, whatever fails. -/
theorem NoEdges.inTransaction {fault : Nat → Bool} {body : Bridge → BridgeResult}
    (hbody : ∀ b, NoEdges b → NoEdges (body b).2) {b : Bridge} (h : NoEdges b) :
    NoEdges (inTransaction fault body b).2 := by
  have hafter := hbody { b with store := b.store.tick } h
  obtain ⟨-, e, heq⟩ | ⟨-, e, store, heq⟩ | ⟨-, -, heq⟩ := inTransaction_cases fault body b
  · rw [heq]
    exact h
  · -- the store goes back, and the maps stay
    rw [heq]
    exact ⟨h.1, hafter.2⟩
  · rw [heq]
    exact hafter

section
variable (hydrateMap : ContainerID → Except GrafeoLoroError VertexEntity)
variable (fault : Nat → Bool) (root : VertexRoot)

/-- The loop of a chunk adds no edge. -/
theorem NoEdges.applyEach (chunk : List String) (b : Bridge) (h : NoEdges b) :
    NoEdges (applyEach fault (hydrateVertex hydrateMap root) chunk b).2 := by
  refine applyEach_invariant fault _ (fun key op b hop hb => ?_) chunk h
  obtain ⟨labels, properties, rfl⟩ := hydrateVertex_ok hydrateMap hop
  exact hb.upsertNode fault key labels properties

/-- A chunk adds no edge. -/
theorem NoEdges.hydrateChunk {b : Bridge} (h : NoEdges b) (chunk : List String) :
    NoEdges (hydrateChunk hydrateMap fault root chunk b).2 :=
  NoEdges.inTransaction (NoEdges.applyEach hydrateMap fault root chunk) h

/-- The serial loop adds no edge. -/
theorem NoEdges.hydrateChunks (cs : List (List String)) {b : Bridge} (h : NoEdges b) :
    NoEdges (hydrateChunks hydrateMap fault root cs b).2 :=
  hydrateChunks_invariant fault hydrateMap root
    (fun chunk _ hb => hb.hydrateChunk hydrateMap fault root chunk) cs h

/-- The threads add no edge. -/
theorem NoEdges.takeChunks (cs : List (List String)) {b : Bridge} (h : NoEdges b) :
    NoEdges (takeChunks hydrateMap fault root cs b).2 :=
  takeChunks_invariant fault hydrateMap root
    (fun chunk _ hb => hb.hydrateChunk hydrateMap fault root chunk) cs h

end

/-! ### The live path -/

/-- The op of an entry of `E` that was written. -/
def edgeOp (entry : Σ _ : String, ValueOrContainer) : Option LoroOp :=
  translateEdge entry.1 (some entry.2)

/-- The event of a commit that wrote all entries of `E`. -/
def edgeRootEvent (edges : EdgeRoot) : DiffEvent :=
  ⟨"", [⟨.root rootEdges .map, .map (mapValues some edges)⟩]⟩

/-- The entry is one that the live path takes, and its endpoints are bound. -/
def LiveEdge (b : Bridge) (entry : Σ _ : String, ValueOrContainer) : Prop :=
  ∃ src dst label srcId dstId, parseEdgeKey entry.1 = some (src, dst, label) ∧
    b.maps.nodeIdMap.lookup src = some srcId ∧ b.maps.nodeIdMap.lookup dst = some dstId ∧
    edgeProperties entry.2 ≠ none

/-- The ops of such a commit. -/
theorem translate_edgeRootEvent (edges : EdgeRoot) :
    translateDiffEvent (edgeRootEvent edges)
      = edges.entries.filterMap edgeOp := by
  show (edges.entries.map fun e => (⟨e.1, some e.2⟩ : Σ _ : String, Option ValueOrContainer)
    ).filterMap (fun e => translateEdge e.1 e.2) ++ [] = _
  rw [List.append_nil, List.filterMap_map]
  rfl

/-- The op of an entry that the live path takes. -/
theorem translateEdge_live {b : Bridge} {entry : Σ _ : String, ValueOrContainer}
    (h : LiveEdge b entry) :
    ∃ src dst label srcId dstId props, parseEdgeKey entry.1 = some (src, dst, label) ∧
      b.maps.nodeIdMap.lookup src = some srcId ∧ b.maps.nodeIdMap.lookup dst = some dstId ∧
      edgeProperties entry.2 = some (insertAll ∅ (grafeoProps props.entries)) ∧
      edgeOp entry = some (.upsertEdge src dst label props) := by
  obtain ⟨src, dst, label, srcId, dstId, hparse, hsrc, hdst, hprops⟩ := h
  cases hvalue : entry.2 with
  | container id =>
    rw [hvalue] at hprops
    exact absurd rfl hprops
  | value v =>
    rw [hvalue] at hprops
    cases v with
    | map m =>
      cases htrans : translateProperties m ∅ with
      | none => simp [edgeProperties, htrans] at hprops
      | some props =>
        refine ⟨src, dst, label, srcId, dstId, props, hparse, hsrc, hdst, ?_, ?_⟩
        · simp [edgeProperties, htrans]
        · simp [edgeOp, translateEdge, hvalue, hparse, htrans]
    | _ => exact absurd rfl hprops

/-- A stored edge stays stored where bindings and edges are only added. -/
theorem EdgeStored.mono {b b' : Bridge} {key : String} {voc : ValueOrContainer}
    (h : EdgeStored b key voc) (hnodes : b'.maps.nodeIdMap = b.maps.nodeIdMap)
    (hbound : ∀ k eid, b.maps.edgeIdMap.lookup k = some eid →
      b'.maps.edgeIdMap.lookup k = some eid)
    (hedges : ∀ eid e, b.store.edges.lookup eid = some e → b'.store.edges.lookup eid = some e) :
    EdgeStored b' key voc := by
  obtain ⟨src, dst, label, eid, e, hparse, heid, he, hsrc, hdst, hlabel, hprops⟩ := h
  rw [← hnodes] at hsrc hdst
  exact ⟨src, dst, label, eid, e, hparse, hbound _ _ heid, hedges _ _ he, hsrc, hdst, hlabel,
    hprops⟩

/-- The edge key of a new entry is unbound: an entry with the same edge key has the same text. -/
theorem EdgesMirror.unbound {done : List (Σ _ : String, ValueOrContainer)} {b : Bridge}
    (h : EdgesMirror done b) {entry : Σ _ : String, ValueOrContainer}
    (hnew : ∀ e ∈ done, e.1 ≠ entry.1) {key : EdgeKey} (hparse : parseEdgeKey entry.1 = some key) :
    b.maps.edgeIdMap.lookup key = none := by
  cases hbound : b.maps.edgeIdMap.lookup key with
  | none => rfl
  | some eid =>
    obtain ⟨e, he, hsame⟩ := h.bound _ _ hbound
    have htext : e.1 = entry.1 := (encode_parse hsame).symm.trans (encode_parse hparse)
    exact absurd htext (hnew e he)

/-- One more entry: its edge comes, and the others stay. -/
theorem EdgesMirror.upsertEdge {done : List (Σ _ : String, ValueOrContainer)} {b : Bridge}
    (h : EdgesMirror done b) (hok : BridgeOk b) {entry : Σ _ : String, ValueOrContainer}
    (hnew : ∀ e ∈ done, e.1 ≠ entry.1) (hlive : LiveEdge b entry) :
    ∃ op, edgeOp entry = some op ∧
      (applyLoroOp noFault op b).2.maps.nodeIdMap = b.maps.nodeIdMap ∧
      EdgesMirror (done ++ [entry]) (applyLoroOp noFault op b).2 := by
  obtain ⟨src, dst, label, srcId, dstId, props, hparse, hsrc, hdst, hprops, htrans⟩ :=
    translateEdge_live hlive
  have hkey := h.unbound hnew hparse
  have hfresh : b.store.edges.lookup b.store.nextEdge = none :=
    AList.lookup_eq_none.mpr fun hmem => Nat.lt_irrefl _ (hok.edgeFresh _ hmem)
  refine ⟨_, htrans, ?_, ?_⟩
  · rw [upsertEdge_miss props hsrc hdst hkey]
    rfl
  · rw [upsertEdge_miss props hsrc hdst hkey]
    let edge : Edge := ⟨srcId, dstId, label, insertAll ∅ (grafeoProps props.entries)⟩
    have hstays : ∀ k eid, b.maps.edgeIdMap.lookup k = some eid → (b.maps.insertEdge
        (src, dst, label) b.store.nextEdge).edgeIdMap.lookup k = some eid :=
      fun k eid => finmap_lookup_insert_of_none hkey
    have hcomes : (b.maps.insertEdge (src, dst, label)
        b.store.nextEdge).edgeIdMap.lookup (src, dst, label) = some b.store.nextEdge :=
      Finmap.lookup_insert _
    constructor
    case stored =>
      -- the new binding is of an unbound key, and the new edge has an unused id
      intro e he
      cases List.mem_append.mp he with
      | inl hdone =>
        refine (h.stored e hdone).mono rfl hstays fun eid old hold => ?_
        exact alist_lookup_insert_of_none (v := edge) hfresh hold
      | inr hlast =>
        rw [List.mem_singleton.mp hlast]
        exact ⟨src, dst, label, b.store.nextEdge, edge, hparse, hcomes, AList.lookup_insert _,
          hsrc, hdst, rfl, hprops⟩
    case bound =>
      intro key eid heid
      change (b.maps.edgeIdMap.insert (src, dst, label) b.store.nextEdge).lookup key = some eid
        at heid
      rw [finmap_lookup_insert] at heid
      split at heid
      · rename_i heq
        rw [heq]
        exact ⟨entry, List.mem_append_right _ (List.mem_singleton.mpr rfl), hparse⟩
      · obtain ⟨e, he, hsame⟩ := h.bound key eid heid
        exact ⟨e, List.mem_append_left _ he, hsame⟩
    case known =>
      intro eid hmem
      cases (AList.mem_insert b.store.edges).mp hmem with
      | inl heq =>
        rw [heq]
        exact ⟨(src, dst, label), hcomes⟩
      | inr hold =>
        obtain ⟨key, heid⟩ := h.known eid hold
        exact ⟨key, hstays key eid heid⟩

/-- The ops of the entries that are left, after those that are done. -/
theorem EdgesMirror.runOps (rest : List (Σ _ : String, ValueOrContainer)) :
    ∀ (done : List (Σ _ : String, ValueOrContainer)) (b : Bridge), EdgesMirror done b →
      BridgeOk b → (done ++ rest).NodupKeys → (∀ entry ∈ rest, LiveEdge b entry) →
      EdgesMirror (done ++ rest) (runOps noFault (rest.filterMap edgeOp) b) := by
  induction rest with
  | nil =>
    intro done b h _ _ _
    rw [List.append_nil]
    exact h
  | cons entry rest ih =>
    intro done b h hok hnodup hlive
    -- `E` has every text once
    have hnew : ∀ e ∈ done, e.1 ≠ entry.1 := by
      intro e he heq
      have hkeys : (done.keys ++ (entry :: rest).keys).Nodup := by
        rw [← List.keys_append]
        exact hnodup
      have hdisjoint := (List.nodup_append.mp hkeys).2.2
      exact hdisjoint e.1 (List.mem_keys_of_mem he) entry.1 List.mem_cons_self heq
    obtain ⟨op, htrans, hnodes, hmirror⟩ :=
      h.upsertEdge hok hnew (hlive entry List.mem_cons_self)
    -- an op on an edge leaves the bindings of the endpoints alone
    have hrest : ∀ e ∈ rest, LiveEdge (applyLoroOp noFault op b).2 e := by
      intro e he
      have hold := hlive e (List.mem_cons_of_mem entry he)
      unfold LiveEdge at hold ⊢
      rw [hnodes]
      exact hold
    have happend : done ++ entry :: rest = (done ++ [entry]) ++ rest := by simp
    rw [happend] at hnodup ⊢
    rw [List.filterMap_cons_some htrans]
    exact ih _ _ hmirror (bridgeOk_applyLoroOp noFault op hok) hnodup hrest

/-- The live path takes the entries of `E` to a bridge without edges that has their
endpoints. -/
theorem liveSync_edgesMirror (edges : EdgeRoot) {b : Bridge} (hok : BridgeOk b)
    (hnone : NoEdges b) (hlive : ∀ entry ∈ edges.entries, LiveEdge b entry) :
    EdgesMirror edges.entries
      (runOps noFault (translateDiffEvent (edgeRootEvent edges)) b) := by
  rw [translate_edgeRootEvent]
  have hrun := EdgesMirror.runOps edges.entries [] b ((hnone.mirror_iff []).mpr rfl) hok
    edges.nodupKeys hlive
  exact hrun

/-! ### The comparison -/

/-- After a cold boot that succeeds, serial or parallel, the edges of the bridge are the entries
of `E` exactly when `E` has no entries. -/
theorem edgeHydration_iff (hydrateMap : ContainerID → Except GrafeoLoroError VertexEntity)
    (fault : Nat → Bool) (root : VertexRoot) (edges : EdgeRoot) (b : Bridge)
    (hcold : NoEdges b) :
    (∀ b', hydrateGrafeo hydrateMap fault root b = (.ok (), b') →
      (EdgesMirror edges.entries b' ↔ edges.entries = [])) ∧
    ∀ taken b', ParallelRun hydrateMap fault root b taken (.ok (), b') →
      (EdgesMirror edges.entries b' ↔ edges.entries = []) := by
  constructor
  · intro b' hok
    have hnone := NoEdges.hydrateChunks hydrateMap fault root (keyChunks root) hcold
    unfold hydrateGrafeo at hok
    rw [hok] at hnone
    exact hnone.mirror_iff edges.entries
  · intro taken b' hrun
    have hnone := NoEdges.takeChunks hydrateMap fault root taken hcold
    rw [hrun.result] at hnone
    exact hnone.mirror_iff edges.entries

/-- The empty bridge has no edges. -/
theorem noEdges_empty : NoEdges Bridge.empty :=
  ⟨fun eid => AList.notMem_empty eid, fun _ => rfl⟩

/-- The vertices of the examples: two map containers. -/
def twoVertices : VertexRoot :=
  (AList.singleton "a" (.container (.normal 1 0 .map))).insert "b" (.container (.normal 1 1 .map))

/-- `hydrate_map` on a vertex without labels and properties. -/
def plainVertex (_ : ContainerID) : Except GrafeoLoroError VertexEntity := .ok ⟨[], ∅⟩

/-- One edge between the two vertices. -/
def oneEdge : EdgeRoot := AList.singleton "a|b|KNOWS" (.value (.map []))

theorem keyChunks_twoVertices : keyChunks twoVertices = [["b", "a"]] := by
  show chunks defaultChunkSize ["b", "a"] = _
  rw [chunks_cons]
  simp [defaultChunkSize]

theorem hydrateGrafeo_twoVertices :
    (hydrateGrafeo plainVertex noFault twoVertices Bridge.empty).1 = .ok () := by
  rw [hydrateGrafeo, keyChunks_twoVertices]
  rfl

/-- A cold boot of a document without edges. -/
theorem edgeHydration_no_edges :
    EdgesMirror (∅ : EdgeRoot).entries
      (hydrateGrafeo plainVertex noFault twoVertices Bridge.empty).2 :=
  ((edgeHydration_iff plainVertex noFault twoVertices ∅ Bridge.empty noEdges_empty).1 _
    (Prod.ext hydrateGrafeo_twoVertices rfl)).mpr rfl

/-- A cold boot of a document with one edge succeeds without the edge. -/
theorem edgeHydration_drops_edge :
    (hydrateGrafeo plainVertex noFault twoVertices Bridge.empty).1 = .ok () ∧
      (hydrateGrafeo plainVertex noFault twoVertices Bridge.empty).2.maps.edgeIdMap.lookup
        ("a", "b", "KNOWS") = none ∧
      ¬ EdgesMirror oneEdge.entries
        (hydrateGrafeo plainVertex noFault twoVertices Bridge.empty).2 := by
  have hnone := NoEdges.hydrateChunks plainVertex noFault twoVertices (keyChunks twoVertices)
    noEdges_empty
  have hmirror := hnone.mirror_iff oneEdge.entries
  exact ⟨hydrateGrafeo_twoVertices, hnone.2 _, fun h => absurd (hmirror.mp h) (by decide)⟩

end GrafeoLoro.Proofs
