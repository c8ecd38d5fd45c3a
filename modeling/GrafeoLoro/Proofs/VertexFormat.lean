import GrafeoLoro.Bridge.SyncEngine
import GrafeoLoro.Hydration
import GrafeoLoro.Proofs.FailedBatch
import GrafeoLoro.Proofs.UpsertNode

/-!
# `GrafeoLoro.Proofs.VertexFormat`: which vertices the two inbound paths accept

The live path and the cold boot read the same root map `V`. The live path turns an entry into
an upsert when it is a plain map of supported values. Hydration accepts an entry when it is a
map container that `hydrate_map` can read. No entry is both.

* `liveUpsert_iff` and `hydrateVertex_isOk`: the forms that the two paths accept.
* `hydrateChunk_live` and `hydrateChunk_rejected`: a chunk materialises its keys when all its
  entries are map containers, and adds no node otherwise. Later chunks keep what it added
  (`hydrateChunk_keeps`).
* `hydrateGrafeo_live`: a document whose vertices are all readable map containers is hydrated
  whole.
* `formatsAgree_iff`: so the two paths agree on a document exactly when neither of them accepts
  anything: no entry is accepted by the live path, and every chunk has an entry that hydration
  rejects.
* `formats_disagree`: one plain entry is enough for a disagreement.

No Grafeo call fails in this module, and hydration starts from the empty bridge.
-/

set_option autoImplicit false

namespace GrafeoLoro.Proofs

open GrafeoLoro GrafeoLoro.Lib

/-- The live path turns a write of the entry `key` into an upsert with these labels and
properties. -/
def LiveUpsert (root : VertexRoot) (key : String) (labels : List String)
    (properties : Table String GraphValue) : Prop :=
  ∃ voc, root.lookup key = some voc ∧
    .upsertNode key labels properties ∈ translateDiffEvent (vertexEvent "" key (some voc))

/-- The key is bound to a node that is in the store. -/
def LiveKey (b : Bridge) (key : String) : Prop :=
  ∃ id, b.maps.nodeIdMap.lookup key = some id ∧ id ∈ b.store.nodes

/-- After a hydration with the result `b`, the two paths agree: an entry that the live path
accepts is materialised with the same properties, and a materialised entry is one that the
live path accepts. -/
def FormatsAgree (root : VertexRoot) (b : Bridge) : Prop :=
  (∀ key labels properties, LiveUpsert root key labels properties →
    Materialised b key fun p => (properties.lookup p).map gvalToGrafeoValue) ∧
  ∀ key, LiveKey b key → ∃ labels properties, LiveUpsert root key labels properties

/-- The entry is a plain map of supported values. -/
def PlainEntry (root : VertexRoot) (key : String) : Prop :=
  ∃ m, root.lookup key = some (.value (.map m)) ∧ ∀ e ∈ m, (lvalToGval e.2).isOk

/-- The entry is a map container that `hydrate_map` can read. -/
def MapEntry (hydrateMap : ContainerID → Except GrafeoLoroError VertexEntity)
    (root : VertexRoot) (key : String) : Prop :=
  ∃ id entity, root.lookup key = some (.container id) ∧ id.containerType = .map ∧
    hydrateMap id = .ok entity

/-- The chunk has an entry that is no readable map container. -/
def Rejected (hydrateMap : ContainerID → Except GrafeoLoroError VertexEntity)
    (root : VertexRoot) (chunk : List String) : Prop :=
  ∃ key ∈ chunk, ¬ MapEntry hydrateMap root key

/-! ### One entry -/

section
variable (hydrateMap : ContainerID → Except GrafeoLoroError VertexEntity) {root : VertexRoot}

/-- A translation succeeds exactly when all values are supported. -/
theorem translateProperties_isSome (m : List (String × LoroValue)) :
    ∀ props, (translateProperties m props).isSome ↔ ∀ e ∈ m, (lvalToGval e.2).isOk := by
  induction m with
  | nil => simp [translateProperties]
  | cons e rest ih =>
    intro props
    rw [translateProperties, List.forall_mem_cons]
    cases hconv : lvalToGval e.2 with
    | ok g =>
      rw [ih]
      simp [Except.isOk, Except.toBool]
    | error err => simp [Except.isOk, Except.toBool]

/-- The live path accepts the plain maps of supported values. -/
theorem liveUpsert_iff (key : String) :
    (∃ labels properties, LiveUpsert root key labels properties) ↔ PlainEntry root key := by
  unfold LiveUpsert PlainEntry
  simp only [translateDiffEvent_vertexEvent, Option.mem_toList]
  constructor
  · rintro ⟨labels, properties, voc, hvoc, hop⟩
    cases voc with
    | container id => cases hop
    | value v =>
      cases v with
      | map m =>
        refine ⟨m, hvoc, (translateProperties_isSome m ∅).mp ?_⟩
        rw [translateVertex, Option.map_eq_some_iff] at hop
        obtain ⟨props, hprops, -⟩ := hop
        rw [hprops]
        rfl
      | _ => cases hop
  · rintro ⟨m, hm, hsup⟩
    obtain ⟨props, hprops⟩ :=
      Option.isSome_iff_exists.mp ((translateProperties_isSome m ∅).mpr hsup)
    refine ⟨[], props, _, hm, ?_⟩
    rw [translateVertex, hprops]
    rfl

/-- Hydration accepts the map containers that `hydrate_map` can read. -/
theorem hydrateVertex_isOk (key : String) :
    (∃ op, hydrateVertex hydrateMap root key = .ok op) ↔ MapEntry hydrateMap root key := by
  unfold hydrateVertex MapEntry intoMap
  cases hvoc : root.lookup key with
  | none => simp
  | some voc =>
    cases voc with
    | value v => simp
    | container id =>
      by_cases htype : id.containerType = .map
      · cases hentity : hydrateMap id with
        | error e => simp [htype, hentity]
        | ok entity => simp [htype, hentity]
      · simp [htype]

/-- No entry has both forms. -/
theorem not_mapEntry_of_plain {key : String} (h : PlainEntry root key) :
    ¬ MapEntry hydrateMap root key := by
  obtain ⟨m, hm, -⟩ := h
  rintro ⟨id, entity, hid, -⟩
  rw [hm] at hid
  cases hid

/-- The op of a hydrated vertex is an upsert of its key. -/
theorem hydrateVertex_ok {key : String} {op : LoroOp}
    (h : hydrateVertex hydrateMap root key = .ok op) :
    ∃ labels properties, op = .upsertNode key labels properties := by
  unfold hydrateVertex at h
  split at h
  · cases h
  · split at h
    · cases h
    · split at h
      · cases h
      · rename_i entity _
        obtain rfl := Except.ok.inj h
        exact ⟨entity.labels, entity.graphProperties, rfl⟩

end

/-! ### One upsert -/

/-- Bound keys keep their id, and bound nodes stay in the store. -/
def Keeps (b b' : Bridge) : Prop :=
  ∀ key id, b.maps.nodeIdMap.lookup key = some id →
    b'.maps.nodeIdMap.lookup key = some id ∧ (id ∈ b.store.nodes → id ∈ b'.store.nodes)

namespace Keeps

theorem refl (b : Bridge) : Keeps b b := fun _ _ hid => ⟨hid, fun h => h⟩

theorem trans {b b' b'' : Bridge} (h : Keeps b b') (h' : Keeps b' b'') : Keeps b b'' := by
  intro key id hid
  have h1 := h key id hid
  have h2 := h' key id h1.1
  exact ⟨h2.1, fun hmem => h2.2 (h1.2 hmem)⟩

/-- A live key stays live. -/
theorem live {b b' : Bridge} (h : Keeps b b') {key : String} (hlive : LiveKey b key) :
    LiveKey b' key := by
  obtain ⟨id, hid, hmem⟩ := hlive
  have hkept := h key id hid
  exact ⟨id, hkept.1, hkept.2 hmem⟩

end Keeps

/-- An upsert keeps the bound keys, and adds at most its own. -/
theorem upsertNode_keeps (b : Bridge) (key : String) (labels : List String)
    (properties : Table String GraphValue) :
    let b' := (applyLoroOp noFault (.upsertNode key labels properties) b).2
    Keeps b b' ∧ ∀ k, k ≠ key →
      b'.maps.nodeIdMap.lookup k = b.maps.nodeIdMap.lookup k := by
  intro b'
  cases hkey : b.maps.nodeIdMap.lookup key with
  | none =>
    have hb' : b' = _ := congrArg Prod.snd (upsertNode_miss labels properties hkey)
    have hother : ∀ k, k ≠ key →
        b'.maps.nodeIdMap.lookup k = b.maps.nodeIdMap.lookup k := by
      intro k hne
      rw [hb']
      exact (finmap_lookup_insert _ _ _ _).trans (if_neg hne)
    refine ⟨fun k id hid => ?_, hother⟩
    rw [hb']
    exact ⟨finmap_lookup_insert_of_none hkey hid, fun hmem => (AList.mem_insert _).mpr (.inr hmem)⟩
  | some idKey =>
    have hb' : b' = _ := congrArg Prod.snd (upsertNode_hit labels properties hkey)
    have hprops := propsOnly_setNodeProperties noFault idKey properties.entries b.store
    rw [hb']
    exact ⟨fun k id hid => ⟨hid, fun hmem => (hprops.mem_nodes id).mpr hmem⟩, fun _ _ => rfl⟩

/-- An upsert on a consistent bridge makes its key live. -/
theorem upsertNode_live {b : Bridge} (hok : BridgeOk b) (key : String) (labels : List String)
    (properties : Table String GraphValue) :
    LiveKey (applyLoroOp noFault (.upsertNode key labels properties) b).2 key := by
  have hafter : BridgeOk (applyLoroOp noFault (.upsertNode key labels properties) b).2 :=
    bridgeOk_applyLoroOp noFault _ hok
  have hbound : ∃ id, (applyLoroOp noFault (.upsertNode key labels properties)
      b).2.maps.nodeIdMap.lookup key = some id := by
    cases hkey : b.maps.nodeIdMap.lookup key with
    | none =>
      rw [upsertNode_miss labels properties hkey]
      exact ⟨b.store.nextNode, Finmap.lookup_insert _⟩
    | some id =>
      rw [upsertNode_hit labels properties hkey]
      exact ⟨id, hkey⟩
  obtain ⟨id, hid⟩ := hbound
  exact ⟨id, hid, hafter.nodeLive key id hid⟩

/-! ### One chunk -/

section
variable (hydrateMap : ContainerID → Except GrafeoLoroError VertexEntity) (root : VertexRoot)

/-- Every bound key is a key that hydration accepts. -/
def OnlyHydrated (b : Bridge) : Prop :=
  ∀ key id, b.maps.nodeIdMap.lookup key = some id →
    ∃ op, hydrateVertex hydrateMap root key = .ok op

/-- One key of a chunk: the upsert of the key, when hydration accepts the entry. -/
theorem applyEach_cons (key : String) (rest : List String) (b : Bridge) :
    applyEach noFault (hydrateVertex hydrateMap root) (key :: rest) b
      = match hydrateVertex hydrateMap root key with
        | .error e => (.error e, b)
        | .ok op => applyEach noFault (hydrateVertex hydrateMap root) rest
            (applyLoroOp noFault op b).2 := by
  rw [applyEach]
  cases hop : hydrateVertex hydrateMap root key with
  | error e => rfl
  | ok op =>
    obtain ⟨labels, properties, rfl⟩ := hydrateVertex_ok hydrateMap hop
    have hok := upsertNode_ok key labels properties b
    cases hres : applyLoroOp noFault (.upsertNode key labels properties) b with
    | mk res b' =>
      rw [hres] at hok
      obtain rfl : res = .ok () := hok
      simp only [hres]

/-- Bound keys stay, and only hydrated keys are added. -/
def KeepsHydrated (b b' : Bridge) : Prop :=
  Keeps b b' ∧ (OnlyHydrated hydrateMap root b → OnlyHydrated hydrateMap root b')

theorem keepsHydrated_refl (b : Bridge) : KeepsHydrated hydrateMap root b b :=
  ⟨Keeps.refl b, fun h => h⟩

theorem keepsHydrated_trans (b b' b'' : Bridge) (h : KeepsHydrated hydrateMap root b b')
    (h' : KeepsHydrated hydrateMap root b' b'') : KeepsHydrated hydrateMap root b b'' :=
  ⟨h.1.trans h'.1, fun honly => h'.2 (h.2 honly)⟩

/-- The loop over a chunk keeps the bound keys and adds hydrated keys only. -/
theorem applyEach_keeps (chunk : List String) :
    ∀ b, KeepsHydrated hydrateMap root b
      (applyEach noFault (hydrateVertex hydrateMap root) chunk b).2 := by
  refine applyEach_rel noFault _ (keepsHydrated_refl hydrateMap root)
    (keepsHydrated_trans hydrateMap root) (fun key op b hop => ?_) chunk
  obtain ⟨labels, properties, rfl⟩ := hydrateVertex_ok hydrateMap hop
  obtain ⟨hkeeps, hother⟩ := upsertNode_keeps b key labels properties
  refine ⟨hkeeps, fun honly k id hid => ?_⟩
  by_cases hk : k = key
  · rw [hk]
    exact ⟨_, hop⟩
  · rw [hother k hk] at hid
    exact honly k id hid

/-- The loop over a chunk without a rejected entry succeeds and makes its keys live. -/
theorem applyEach_live (chunk : List String)
    (hchunk : ∀ key ∈ chunk, ∃ op, hydrateVertex hydrateMap root key = .ok op) :
    ∀ b, BridgeOk b → (applyEach noFault (hydrateVertex hydrateMap root) chunk b).1 = .ok () ∧
      ∀ key ∈ chunk, LiveKey (applyEach noFault (hydrateVertex hydrateMap root) chunk b).2
        key := by
  induction chunk with
  | nil => exact fun b _ => ⟨rfl, fun key hkey => absurd hkey List.not_mem_nil⟩
  | cons key rest ih =>
    intro b hok
    obtain ⟨op, hop⟩ := hchunk key List.mem_cons_self
    rw [applyEach_cons, hop]
    have hokNext : BridgeOk (applyLoroOp noFault op b).2 := bridgeOk_applyLoroOp noFault op hok
    have htail : ∀ k ∈ rest, ∃ op, hydrateVertex hydrateMap root k = .ok op :=
      fun k hk => hchunk k (List.mem_cons_of_mem _ hk)
    obtain ⟨hres, hlive⟩ := ih htail _ hokNext
    refine ⟨hres, fun k hk => ?_⟩
    cases List.mem_cons.mp hk with
    | inl heq =>
      -- the key is live after its own upsert, and the rest of the chunk keeps it
      obtain ⟨labels, properties, rfl⟩ := hydrateVertex_ok hydrateMap hop
      rw [heq]
      have hkeeps := (applyEach_keeps hydrateMap root rest
        (applyLoroOp noFault (.upsertNode key labels properties) b).2).1
      exact hkeeps.live (upsertNode_live hok key labels properties)
    | inr hin => exact hlive k hin

/-- The loop over a chunk with a rejected entry fails. -/
theorem applyEach_rejected (chunk : List String) (hchunk : Rejected hydrateMap root chunk) :
    ∀ b, ∃ e, (applyEach noFault (hydrateVertex hydrateMap root) chunk b).1 = .error e := by
  induction chunk with
  | nil =>
    obtain ⟨key, hkey, -⟩ := hchunk
    cases hkey
  | cons key rest ih =>
    intro b
    rw [applyEach_cons]
    cases hop : hydrateVertex hydrateMap root key with
    | error e => exact ⟨e, rfl⟩
    | ok op =>
      obtain ⟨k, hk, hrej⟩ := hchunk
      cases List.mem_cons.mp hk with
      | inl heq =>
        have hentry := (hydrateVertex_isOk hydrateMap key).mp ⟨op, hop⟩
        exact absurd hentry (heq ▸ hrej)
      | inr hin => exact ih ⟨k, hin, hrej⟩ _

/-- A transaction without failing calls commits exactly when its loop succeeds. -/
theorem inTransaction_noFault (body : Bridge → BridgeResult) (b : Bridge) :
    inTransaction noFault body b =
      match body { b with store := b.store.tick } with
      | (.error e, after) => (.error e, dropSession b.store after)
      | (.ok _, after) => (.ok (), { after with store := after.store.tick.tick }) := by
  unfold inTransaction beginTransaction prepareCommit commit call noFault
  rfl

/-- A chunk runs its loop after one call to the store. It commits what a successful loop has done,
and drops the session of a failed one. -/
theorem hydrateChunk_cases (chunk : List String) (b : Bridge) :
    ∃ after,
      (applyEach noFault (hydrateVertex hydrateMap root) chunk { b with store := b.store.tick }
          = (.ok (), after) ∧
        hydrateChunk hydrateMap noFault root chunk b
          = (.ok (), { after with store := after.store.tick.tick })) ∨
      ∃ e, applyEach noFault (hydrateVertex hydrateMap root) chunk { b with store := b.store.tick }
          = (.error e, after) ∧
        hydrateChunk hydrateMap noFault root chunk b = (.error e, dropSession b.store after) := by
  rw [hydrateChunk, inTransaction_noFault]
  cases hbody : applyEach noFault (hydrateVertex hydrateMap root) chunk
      { b with store := b.store.tick } with
  | mk res after =>
    cases res with
    | ok u => exact ⟨after, .inl ⟨rfl, rfl⟩⟩
    | error e => exact ⟨after, .inr ⟨e, rfl, rfl⟩⟩

/-- A chunk without a rejected entry, on a consistent bridge, makes its keys live and leaves the
bridge consistent. -/
theorem hydrateChunk_live {chunk : List String} (hchunk : ¬ Rejected hydrateMap root chunk)
    {b : Bridge} (hok : BridgeOk b) :
    (hydrateChunk hydrateMap noFault root chunk b).1 = .ok () ∧
      BridgeOk (hydrateChunk hydrateMap noFault root chunk b).2 ∧
      ∀ key ∈ chunk, LiveKey (hydrateChunk hydrateMap noFault root chunk b).2 key := by
  have hall : ∀ key ∈ chunk, ∃ op, hydrateVertex hydrateMap root key = .ok op := by
    intro key hkey
    by_contra hno
    exact hchunk ⟨key, hkey, fun hentry => hno ((hydrateVertex_isOk hydrateMap key).mpr hentry)⟩
  have hstart : BridgeOk { b with store := b.store.tick } := hok.props (PropsOnly.tick _)
  obtain ⟨hres, hlive⟩ := applyEach_live hydrateMap root chunk hall _ hstart
  have hafter := bridgeOk_applyEach noFault (hydrateVertex hydrateMap root) chunk _ hstart
  obtain ⟨after, ⟨hbody, heq⟩ | ⟨e, hbody, _⟩⟩ := hydrateChunk_cases hydrateMap root chunk b
  · rw [hbody] at hlive hafter
    rw [heq]
    -- the prepare and the commit only count as calls
    have hcommitted := hafter.props ((PropsOnly.tick after.store).trans (PropsOnly.tick _))
    exact ⟨rfl, hcommitted, fun key hkey => hlive key hkey⟩
  · rw [hbody] at hres
    cases hres

/-- A chunk with a rejected entry fails, and the nodes are those of before. -/
theorem hydrateChunk_rejected {chunk : List String} (hchunk : Rejected hydrateMap root chunk)
    (b : Bridge) :
    (∃ e, (hydrateChunk hydrateMap noFault root chunk b).1 = .error e) ∧
      (hydrateChunk hydrateMap noFault root chunk b).2.store.nodes = b.store.nodes := by
  obtain ⟨e, he⟩ := applyEach_rejected hydrateMap root chunk hchunk
    { b with store := b.store.tick }
  obtain ⟨after, ⟨hbody, _⟩ | ⟨e', _, heq⟩⟩ := hydrateChunk_cases hydrateMap root chunk b
  · rw [hbody] at he
    cases he
  · rw [heq]
    exact ⟨⟨e', rfl⟩, rfl⟩

/-- A chunk keeps the bound keys and adds hydrated keys only, also when it is rolled back. -/
theorem hydrateChunk_keeps (chunk : List String) (b : Bridge) :
    KeepsHydrated hydrateMap root b (hydrateChunk hydrateMap noFault root chunk b).2 := by
  obtain ⟨hkeeps, honly⟩ := applyEach_keeps hydrateMap root chunk
    { b with store := b.store.tick }
  obtain ⟨after, ⟨hbody, heq⟩ | ⟨e, hbody, heq⟩⟩ := hydrateChunk_cases hydrateMap root chunk b
  · rw [hbody] at hkeeps honly
    rw [heq]
    exact ⟨hkeeps, honly⟩
  · rw [hbody] at hkeeps honly
    rw [heq]
    -- the maps are those after the loop, and the nodes are those of before
    exact ⟨fun key id hid => ⟨(hkeeps key id hid).1, fun h => h⟩, honly⟩

/-! ### All chunks -/

/-- The serial loop keeps the bound keys and adds hydrated keys only. -/
theorem hydrateChunks_keeps (cs : List (List String)) :
    ∀ b, KeepsHydrated hydrateMap root b (hydrateChunks hydrateMap noFault root cs b).2 :=
  hydrateChunks_rel noFault hydrateMap root (keepsHydrated_refl hydrateMap root)
    (keepsHydrated_trans hydrateMap root) (hydrateChunk_keeps hydrateMap root) cs

/-- The chunks that the threads took keep the bound keys and add hydrated keys only. -/
theorem takeChunks_keeps (cs : List (List String)) :
    ∀ b, KeepsHydrated hydrateMap root b (takeChunks hydrateMap noFault root cs b).2 :=
  takeChunks_rel noFault hydrateMap root (keepsHydrated_refl hydrateMap root)
    (keepsHydrated_trans hydrateMap root) (hydrateChunk_keeps hydrateMap root) cs

/-- When no chunk is rejected, the serial loop succeeds and makes all keys live. -/
theorem hydrateChunks_live (cs : List (List String))
    (hcs : ∀ chunk ∈ cs, ¬ Rejected hydrateMap root chunk) :
    ∀ b, BridgeOk b → (hydrateChunks hydrateMap noFault root cs b).1 = .ok () ∧
      ∀ key ∈ cs.flatten, LiveKey (hydrateChunks hydrateMap noFault root cs b).2 key := by
  induction cs with
  | nil => exact fun b _ => ⟨rfl, fun key hkey => absurd hkey List.not_mem_nil⟩
  | cons chunk rest ih =>
    intro b hok
    obtain ⟨hres, hafter, hlive⟩ :=
      hydrateChunk_live hydrateMap root (hcs chunk List.mem_cons_self) hok
    have hstep : hydrateChunks hydrateMap noFault root (chunk :: rest) b
        = hydrateChunks hydrateMap noFault root rest
            (hydrateChunk hydrateMap noFault root chunk b).2 := by
      rw [hydrateChunks]
      split
      · rename_i b' heq
        rw [heq]
      · rename_i e b' heq
        rw [heq] at hres
        cases hres
    obtain ⟨hresRest, hliveRest⟩ := ih (fun c hc => hcs c (List.mem_cons_of_mem _ hc)) _ hafter
    rw [hstep]
    refine ⟨hresRest, fun key hkey => ?_⟩
    rw [List.flatten_cons, List.mem_append] at hkey
    cases hkey with
    | inl hin =>
      -- the chunk made the key live, and the later chunks keep it
      exact ((hydrateChunks_keeps hydrateMap root rest _).1).live (hlive key hin)
    | inr hin => exact hliveRest key hin

/-- A document whose vertices are all readable map containers is hydrated whole. -/
theorem hydrateGrafeo_live (hall : ∀ key ∈ root.keys, MapEntry hydrateMap root key) :
    (hydrateGrafeo hydrateMap noFault root Bridge.empty).1 = .ok () ∧
      ∀ key ∈ root.keys,
        LiveKey (hydrateGrafeo hydrateMap noFault root Bridge.empty).2 key := by
  have hflatten : (keyChunks root).flatten = root.keys := flatten_chunks _ _
  have hcs : ∀ chunk ∈ keyChunks root, ¬ Rejected hydrateMap root chunk := by
    rintro chunk hchunk ⟨key, hkey, hrej⟩
    refine hrej (hall key ?_)
    rw [← hflatten]
    exact List.mem_flatten.mpr ⟨chunk, hchunk, hkey⟩
  have hlive := hydrateChunks_live hydrateMap root (keyChunks root) hcs Bridge.empty bridgeOk_empty
  rw [hflatten] at hlive
  exact hlive

/-- When every chunk is rejected, the serial loop adds no node. -/
theorem hydrateChunks_rejected (cs : List (List String))
    (hcs : ∀ chunk ∈ cs, Rejected hydrateMap root chunk) (b : Bridge) :
    (hydrateChunks hydrateMap noFault root cs b).2.store.nodes = b.store.nodes := by
  cases cs with
  | nil => rfl
  | cons chunk rest =>
    -- the first chunk ends the loop
    obtain ⟨⟨e, he⟩, hnodes⟩ := hydrateChunk_rejected hydrateMap root
      (hcs chunk List.mem_cons_self) b
    rw [hydrateChunks]
    split
    · rename_i b' heq
      rw [heq] at he
      cases he
    · rename_i e' b' heq
      rw [heq] at hnodes
      exact hnodes

/-- When every chunk is rejected, the threads add no node. -/
theorem takeChunks_rejected (cs : List (List String))
    (hcs : ∀ chunk ∈ cs, Rejected hydrateMap root chunk) :
    ∀ b, (takeChunks hydrateMap noFault root cs b).2.store.nodes = b.store.nodes := by
  induction cs with
  | nil => exact fun b => rfl
  | cons chunk rest ih =>
    intro b
    have hnodes := (hydrateChunk_rejected hydrateMap root (hcs chunk List.mem_cons_self) b).2
    rw [takeChunks_cons_bridge, ih fun c hc => hcs c (List.mem_cons_of_mem _ hc)]
    exact hnodes

/-- The parallel run in which the threads take this chunk first and the others after it. -/
theorem parallelRun_first {chunk : List String} (hchunk : chunk ∈ keyChunks root) (b : Bridge) :
    let taken := chunk :: (keyChunks root).erase chunk
    ParallelRun hydrateMap noFault root b taken
      (takeChunks hydrateMap noFault root taken b) := by
  have hperm := (List.perm_cons_erase hchunk).symm
  exact ⟨hperm.subperm, rfl, fun _ => hperm.length_eq⟩

/-- A bridge without nodes agrees with a document without plain entries. -/
theorem formatsAgree_of_empty {b : Bridge} (hnodes : b.store.nodes = ∅)
    (hplain : ∀ key, ¬ PlainEntry root key) : FormatsAgree root b := by
  constructor
  · intro key labels properties hlive
    exact absurd ((liveUpsert_iff key).mp ⟨labels, properties, hlive⟩) (hplain key)
  · rintro key ⟨id, -, hmem⟩
    rw [hnodes] at hmem
    exact absurd hmem (AList.notMem_empty id)

/-- A bridge that binds hydrated keys only disagrees with every document that has a plain
entry. -/
theorem not_plain_of_formatsAgree {b : Bridge} (honly : OnlyHydrated hydrateMap root b)
    (hagree : FormatsAgree root b) (key : String) : ¬ PlainEntry root key := by
  intro hplain
  obtain ⟨labels, properties, hlive⟩ := (liveUpsert_iff key).mpr hplain
  obtain ⟨id, -, hid, -⟩ := hagree.1 key labels properties hlive
  have hentry := (hydrateVertex_isOk hydrateMap key).mp (honly key id hid)
  exact not_mapEntry_of_plain hydrateMap hplain hentry

/-- The live path and hydration agree on a document exactly when it has no plain entry of
supported values and every chunk of its keys has an entry that hydration rejects. -/
theorem formatsAgree_iff :
    (FormatsAgree root (hydrateGrafeo hydrateMap noFault root Bridge.empty).2 ∧
      ∀ taken res, ParallelRun hydrateMap noFault root Bridge.empty taken res →
        FormatsAgree root res.2) ↔
    (∀ key, ¬ PlainEntry root key) ∧
      ∀ chunk ∈ keyChunks root, Rejected hydrateMap root chunk := by
  constructor
  · rintro ⟨hserial, hparallel⟩
    have hempty : OnlyHydrated hydrateMap root Bridge.empty := by
      intro key id hid
      cases hid
    constructor
    · have honly := (hydrateChunks_keeps hydrateMap root (keyChunks root) Bridge.empty).2 hempty
      exact not_plain_of_formatsAgree hydrateMap root honly hserial
    · intro chunk hchunk
      by_contra hrej
      -- run this chunk first: its keys are live, and no live entry is a map container
      obtain ⟨key, rest, rfl⟩ := List.exists_cons_of_ne_nil
        (ne_nil_of_mem_chunks _ _ chunk hchunk)
      have hlive := (hydrateChunk_live hydrateMap root hrej bridgeOk_empty).2.2 key
        List.mem_cons_self
      have hagree := hparallel _ _ (parallelRun_first hydrateMap root hchunk Bridge.empty)
      rw [takeChunks_cons_bridge] at hagree
      have hkeeps := (takeChunks_keeps hydrateMap root ((keyChunks root).erase (key :: rest))
        (hydrateChunk hydrateMap noFault root (key :: rest) Bridge.empty).2).1
      have hplain := (liveUpsert_iff key).mp (hagree.2 key (hkeeps.live hlive))
      exact hrej ⟨key, List.mem_cons_self, not_mapEntry_of_plain hydrateMap hplain⟩
  · rintro ⟨hplain, hrej⟩
    constructor
    · exact formatsAgree_of_empty root
        (hydrateChunks_rejected hydrateMap root (keyChunks root) hrej Bridge.empty) hplain
    · intro taken res hrun
      have htaken : ∀ chunk ∈ taken, Rejected hydrateMap root chunk :=
        fun chunk hc => hrej chunk (hrun.subperm.subset hc)
      have hnodes := takeChunks_rejected hydrateMap root taken htaken Bridge.empty
      rw [hrun.result] at hnodes
      exact formatsAgree_of_empty root hnodes hplain

end

/-- A document with one vertex, which is a plain map. -/
def plainVertexRoot : VertexRoot :=
  AList.singleton "k" (.value (.map [("name", .string "Ada")]))

/-- The live path accepts the vertex of `plainVertexRoot`. Hydration fails at it and does not
materialise it. -/
theorem formats_disagree :
    (hydrateGrafeo (fun _ => .error .hydrate) noFault plainVertexRoot Bridge.empty).1
      = .error (.bridge "vertex k is not a Container::Map") ∧
    ¬ FormatsAgree plainVertexRoot
      (hydrateGrafeo (fun _ => .error .hydrate) noFault plainVertexRoot Bridge.empty).2 := by
  have hkeys : keyChunks plainVertexRoot = [["k"]] := by
    show chunks _ ["k"] = _
    rw [chunks_cons]
    simp
  rw [hydrateGrafeo, hkeys]
  refine ⟨rfl, fun hagree => ?_⟩
  have hlive : ∃ labels properties, LiveUpsert plainVertexRoot "k" labels properties :=
    (liveUpsert_iff "k").mpr ⟨_, rfl, by decide⟩
  obtain ⟨labels, properties, hlive⟩ := hlive
  obtain ⟨id, -, hid, -⟩ := hagree.1 "k" labels properties hlive
  cases hid

end GrafeoLoro.Proofs
