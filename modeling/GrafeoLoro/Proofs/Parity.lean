import GrafeoLoro.Bridge.SyncEngine
import GrafeoLoro.Proofs.UpsertNode

/-!
# `GrafeoLoro.Proofs.Parity`: the store as a view of the vertex map

A `LiveView` is the root map `V` of the document next to the bridge that follows it. Every
edit of an entry of `V` is one commit, whose event is translated and applied. No Grafeo call
fails. `Parity s` says that the bound keys are the keys of `V`, and that the node of a key has
exactly the converted properties of the map under the key.

The code writes the properties of the new map over the old ones and removes none. So a node
has the properties of all maps written under its key since the key was last deleted, the newest
on top (`Tracks`).

* `tracks_runEdits`: this holds after every sequence of edits.
* `parity_iff`: so parity holds after a sequence of edits exactly when, for every live key, the
  last map has all property keys of the maps written under the key since its last deletion.
* `shrinking_write_keeps_property`: a write that drops a property key leaves the property in
  the store.
-/

set_option autoImplicit false

namespace GrafeoLoro.Proofs

open GrafeoLoro GrafeoLoro.Lib

/-- The property map of a vertex. -/
abbrev VertexMap : Type := Table String LoroValue

/-- An edit of one entry of the root map `V`. -/
inductive VertexEdit where
  | write (key : String) (m : VertexMap)
  | delete (key : String)

/-- A vertex map as the `LoroValue` that is stored. -/
def VertexMap.toLoroValue (m : VertexMap) : LoroValue :=
  .map (m.entries.map fun e => (e.1, e.2))

namespace VertexEdit

/-- The key that is written or deleted. -/
def key : VertexEdit → String
  | .write key _ => key
  | .delete key => key

/-- What the entry is afterwards. -/
def updated : VertexEdit → Option ValueOrContainer
  | .write _ m => some (.value m.toLoroValue)
  | .delete _ => none

/-- The event of the commit that has this edit only. -/
def event (edit : VertexEdit) : DiffEvent := vertexEvent "" edit.key edit.updated

end VertexEdit

/-- The root map `V` and the bridge. -/
structure LiveView where
  vertices : HashMap String VertexMap
  bridge : Bridge

namespace LiveView

/-- An empty document and an empty bridge. -/
def init : LiveView := ⟨∅, Bridge.empty⟩

/-- The document takes the edit, and the bridge applies the ops of its event. -/
def next (s : LiveView) (edit : VertexEdit) : LiveView where
  vertices := match edit with
    | .write key m => s.vertices.insert key m
    | .delete key => s.vertices.erase key
  bridge := runOps noFault (translateDiffEvent edit.event) s.bridge

/-- The edits in order. -/
def runEdits : List VertexEdit → LiveView → LiveView
  | [], s => s
  | edit :: rest, s => runEdits rest (s.next edit)

end LiveView

/-- A property value as Grafeo stores it, or `none` for a value without a graph value. -/
def convert (v : LoroValue) : Option Value := (lvalToGval v).toOption.map gvalToGrafeoValue

/-- All values of the map are supported. -/
def Supported (m : VertexMap) : Prop := ∀ e ∈ m.entries, (lvalToGval e.2).isOk

/-- The converted property `p` of the map. -/
def VertexMap.converted (m : VertexMap) (p : String) : Option Value := (m.lookup p).bind convert

/-- The store is a view of `V`: a key without an entry is unbound, and a key with an entry has
a node with exactly the properties of the entry. -/
def Parity (s : LiveView) : Prop :=
  ∀ key, match s.vertices.lookup key with
    | none => s.bridge.maps.nodeIdMap.lookup key = none
    | some m => Materialised s.bridge key m.converted

/-! ### Translated properties -/

/-- The translation of a map with supported values succeeds, and each property is converted. -/
theorem translateProperties_supported (l : List (Σ _ : String, LoroValue))
    (hnodup : l.NodupKeys) (hsup : ∀ e ∈ l, (lvalToGval e.2).isOk) :
    ∀ props, ∃ props', translateProperties (l.map fun e => (e.1, e.2)) props = some props' ∧
      ∀ p, props'.lookup p
        = ((l.dlookup p).bind fun v => (lvalToGval v).toOption).or (props.lookup p) := by
  induction l with
  | nil =>
    intro props
    exact ⟨props, rfl, fun p => rfl⟩
  | cons e rest ih =>
    intro props
    obtain ⟨hnew, hrest⟩ := List.nodupKeys_cons.mp hnodup
    have hhead := hsup e List.mem_cons_self
    cases hconv : lvalToGval e.2 with
    | error err =>
      rw [hconv] at hhead
      cases hhead
    | ok g =>
      have htail : ∀ e' ∈ rest, (lvalToGval e'.2).isOk :=
        fun e' he' => hsup e' (List.mem_cons_of_mem _ he')
      obtain ⟨props', htrans, hlook⟩ := ih hrest htail (props.insert e.1 g)
      refine ⟨props', ?_, fun p => ?_⟩
      · simp only [List.map_cons, translateProperties, hconv]
        exact htrans
      · rw [hlook p, alist_lookup_insert]
        by_cases hp : p = e.1
        · subst hp
          rw [if_pos rfl, List.dlookup_cons_eq, List.dlookup_eq_none.mpr hnew]
          simp [hconv, Except.toOption]
        · -- a later entry of the list has another key
          rw [if_neg hp, List.dlookup_cons_ne _ _ hp]

/-- The event of a write of a supported map is one upsert, whose properties convert to those
of the map. -/
theorem translate_write (key : String) {m : VertexMap} (hsup : Supported m) :
    ∃ props, translateDiffEvent (VertexEdit.write key m).event = [.upsertNode key [] props] ∧
      ∀ p, (props.lookup p).map gvalToGrafeoValue = m.converted p := by
  obtain ⟨props, htrans, hlook⟩ :=
    translateProperties_supported m.entries m.nodupKeys hsup ∅
  refine ⟨props, ?_, fun p => ?_⟩
  · have hvertex : translateVertex key (some (.value m.toLoroValue))
        = some (.upsertNode key [] props) := by
      show (translateProperties _ ∅).map _ = _
      rw [htrans]
      rfl
    show translateDiffEvent (vertexEvent "" key (some (.value m.toLoroValue))) = _
    rw [translateDiffEvent_vertexEvent, hvertex]
    rfl
  · rw [hlook p, AList.lookup_empty, Option.or_none, Option.map_bind]
    rfl

/-- The event of a deletion is one delete. -/
theorem translate_delete (key : String) :
    translateDiffEvent (VertexEdit.delete key).event = [.deleteNode key] := rfl

/-! ### The maps written under a key -/

/-- The maps written under a key since its last deletion, newest first, after one more edit. -/
def pushEdit (key : String) (edit : VertexEdit) (maps : List VertexMap) : List VertexMap :=
  match edit with
  | .write key' m => if key = key' then m :: maps else maps
  | .delete key' => if key = key' then [] else maps

/-- The maps written under a key since its last deletion, newest first. `maps` are those
before the edits. -/
def writesSinceDelete (key : String) : List VertexEdit → List VertexMap → List VertexMap
  | [], maps => maps
  | edit :: rest, maps => writesSinceDelete key rest (pushEdit key edit maps)

/-- The value of the newest map that has the property. -/
def overlay : List VertexMap → String → Option Value
  | [], _ => none
  | m :: rest, p => (m.converted p).or (overlay rest p)

/-- The view follows the maps `w key` that were written under each key since its last deletion:
a node has the properties of all of them, the newest on top. -/
structure Tracks (s : LiveView) (w : String → List VertexMap) : Prop where
  ok : BridgeOk s.bridge
  vertices : ∀ key, s.vertices.lookup key = (w key).head?
  unbound : ∀ key, w key = [] → s.bridge.maps.nodeIdMap.lookup key = none
  bound : ∀ key, w key ≠ [] → Materialised s.bridge key (overlay (w key))

/-- The empty view. -/
theorem tracks_init : Tracks LiveView.init fun _ => [] where
  ok := bridgeOk_empty
  vertices := fun _ => rfl
  unbound := fun _ _ => rfl
  bound := fun _ h => absurd rfl h

/-! ### One edit -/

/-- A `DeleteNode` on a bound key. -/
theorem deleteNode_hit {b : Bridge} {key : String} {id : NodeId}
    (hkey : b.maps.nodeIdMap.lookup key = some id) :
    runOps noFault [.deleteNode key] b
      = ⟨b.store.dropNode id, { b.maps with
          nodeIdMap := b.maps.nodeIdMap.erase key
          nodeKeyMap := b.maps.nodeKeyMap.erase id }⟩ := by
  simp only [runOps, applyLoroOp, applyDeleteNode_eq, hkey, removeNode_bound hkey]

/-- A deletion unbinds its key. -/
theorem deleteNode_unbound (b : Bridge) (key : String) :
    (runOps noFault [.deleteNode key] b).maps.nodeIdMap.lookup key = none := by
  cases hkey : b.maps.nodeIdMap.lookup key with
  | none =>
    simp only [runOps, applyLoroOp, applyDeleteNode_eq, hkey]
  | some id =>
    rw [deleteNode_hit hkey]
    exact Finmap.lookup_erase _ _

/-- A deletion leaves the binding and the node of every other key alone. -/
theorem deleteNode_frame {b : Bridge} (hok : BridgeOk b) {key other : String}
    (hne : other ≠ key) :
    let b' := runOps noFault [.deleteNode key] b
    b'.maps.nodeIdMap.lookup other = b.maps.nodeIdMap.lookup other ∧
      ∀ id, b.maps.nodeIdMap.lookup other = some id →
        b'.store.nodes.lookup id = b.store.nodes.lookup id := by
  intro b'
  cases hkey : b.maps.nodeIdMap.lookup key with
  | none =>
    have hb' : b' = b := by
      show runOps _ _ _ = b
      simp only [runOps, applyLoroOp, applyDeleteNode_eq, hkey]
    rw [hb']
    exact ⟨rfl, fun _ _ => rfl⟩
  | some idKey =>
    have hb' : b' = _ := deleteNode_hit hkey
    rw [hb']
    constructor
    · exact (finmap_lookup_erase _ _ _).trans (if_neg hne)
    · intro id hid
      have hids : id ≠ idKey := fun h => hne (hok.nodeInverse.key_unique hid (h ▸ hkey))
      exact (alist_lookup_erase _ _ _).trans (if_neg hids)

/-- An edit whose map has supported values only. -/
def VertexEdit.Supported : VertexEdit → Prop
  | .write _ m => Proofs.Supported m
  | .delete _ => True

/-- A write keeps the view on track. -/
theorem Tracks.write {s : LiveView} {w : String → List VertexMap} (h : Tracks s w)
    (key : String) {m : VertexMap} (hsup : Supported m) :
    Tracks (s.next (.write key m)) fun k => pushEdit k (.write key m) (w k) := by
  obtain ⟨props, htrans, hconv⟩ := translate_write key hsup
  have hbridge : (s.next (.write key m)).bridge
      = (applyLoroOp noFault (.upsertNode key [] props) s.bridge).2 := by
    show runOps _ (translateDiffEvent _) _ = _
    rw [htrans]
    rfl
  constructor
  case ok =>
    rw [hbridge]
    exact bridgeOk_applyLoroOp _ _ h.ok
  case vertices =>
    intro k
    show (s.vertices.insert key m).lookup k = _
    rw [finmap_lookup_insert, pushEdit, h.vertices k]
    split <;> rfl
  case unbound =>
    intro k hk
    by_cases hkk : k = key
    · rw [pushEdit, if_pos hkk] at hk
      cases hk
    · rw [pushEdit, if_neg hkk] at hk
      rw [hbridge, (upsertNode_frame h.ok [] props hkk).1]
      exact h.unbound k hk
  case bound =>
    intro k hk
    rw [hbridge]
    by_cases hkk : k = key
    · subst hkk
      rw [pushEdit, if_pos rfl]
      -- the new map lies over the older ones
      have hover : overlay (m :: w k)
          = fun p => ((props.lookup p).map gvalToGrafeoValue).or (overlay (w k) p) := by
        funext p
        rw [hconv p]
        rfl
      rw [hover]
      by_cases hw : w k = []
      · have hmiss := upsertNode_miss_materialised [] props (h.unbound k hw)
        simpa only [hw, overlay, Option.or_none] using hmiss
      · exact upsertNode_hit_materialised [] props (h.bound k hw)
    · rw [pushEdit, if_neg hkk] at hk ⊢
      obtain ⟨hmap, hnode⟩ := upsertNode_frame h.ok [] props hkk
      exact (h.bound k hk).frame hmap hnode

/-- A deletion keeps the view on track. -/
theorem Tracks.delete {s : LiveView} {w : String → List VertexMap} (h : Tracks s w)
    (key : String) :
    Tracks (s.next (.delete key)) fun k => pushEdit k (.delete key) (w k) := by
  have hbridge : (s.next (.delete key)).bridge
      = runOps noFault [.deleteNode key] s.bridge := by
    show runOps _ (translateDiffEvent _) _ = _
    rw [translate_delete]
  constructor
  case ok =>
    rw [hbridge]
    exact bridgeOk_runOps _ _ _ h.ok
  case vertices =>
    intro k
    show (s.vertices.erase key).lookup k = _
    rw [finmap_lookup_erase, pushEdit, h.vertices k]
    split <;> rfl
  case unbound =>
    intro k hk
    rw [hbridge]
    by_cases hkk : k = key
    · rw [hkk]
      exact deleteNode_unbound _ _
    · rw [pushEdit, if_neg hkk] at hk
      rw [(deleteNode_frame h.ok hkk).1]
      exact h.unbound k hk
  case bound =>
    intro k hk
    rw [hbridge]
    by_cases hkk : k = key
    · rw [pushEdit, if_pos hkk] at hk
      exact absurd rfl hk
    · rw [pushEdit, if_neg hkk] at hk ⊢
      obtain ⟨hmap, hnode⟩ := deleteNode_frame h.ok hkk
      exact (h.bound k hk).frame hmap hnode

/-- Every supported edit keeps the view on track. -/
theorem Tracks.next {s : LiveView} {w : String → List VertexMap} (h : Tracks s w)
    {edit : VertexEdit} (hsup : edit.Supported) :
    Tracks (s.next edit) fun k => pushEdit k edit (w k) := by
  cases edit with
  | write key m => exact h.write key hsup
  | delete key => exact h.delete key

/-! ### Sequences of edits -/

/-- Every sequence of supported edits keeps the view on track. -/
theorem tracks_runEdits (edits : List VertexEdit) (hsup : ∀ e ∈ edits, e.Supported) :
    ∀ (s : LiveView) (w : String → List VertexMap), Tracks s w →
      Tracks (LiveView.runEdits edits s) fun k => writesSinceDelete k edits (w k) := by
  induction edits with
  | nil => exact fun s w h => h
  | cons edit rest ih =>
    intro s w h
    have hnext := h.next (hsup edit List.mem_cons_self)
    exact ih (fun e he => hsup e (List.mem_cons_of_mem _ he)) _ _ hnext

/-- A supported map has a converted property exactly for its keys. -/
theorem converted_isSome {m : VertexMap} (hsup : Supported m) (p : String) :
    (m.converted p).isSome ↔ p ∈ m := by
  unfold VertexMap.converted convert
  rw [← AList.lookup_isSome]
  cases hp : m.lookup p with
  | none => simp
  | some v =>
    have hok : (lvalToGval v).isOk := hsup ⟨p, v⟩ (AList.mem_lookup_iff.mp hp)
    cases hv : lvalToGval v with
    | error err =>
      rw [hv] at hok
      cases hok
    | ok g => simp [hv, Except.toOption]

/-- An overlay of supported maps has a property exactly when one of them has it. -/
theorem overlay_isSome {maps : List VertexMap} (hsup : ∀ m ∈ maps, Supported m) (p : String) :
    (overlay maps p).isSome ↔ ∃ m ∈ maps, p ∈ m := by
  induction maps with
  | nil => simp [overlay]
  | cons m rest ih =>
    have hrest := ih fun m' hm' => hsup m' (List.mem_cons_of_mem _ hm')
    rw [overlay, Option.isSome_or, Bool.or_eq_true, hrest,
      converted_isSome (hsup m List.mem_cons_self)]
    simp

/-- The overlay is the newest map alone exactly when that map has all property keys. -/
theorem overlay_eq_head_iff {m : VertexMap} {rest : List VertexMap}
    (hsup : ∀ m' ∈ m :: rest, Supported m') :
    (∀ p, overlay (m :: rest) p = m.converted p) ↔ ∀ m' ∈ rest, ∀ p, p ∈ m' → p ∈ m := by
  have hrest : ∀ m' ∈ rest, Supported m' := fun m' hm' => hsup m' (List.mem_cons_of_mem _ hm')
  constructor
  · intro heq m' hm' p hp
    rw [← converted_isSome (hsup m List.mem_cons_self), ← heq p, overlay_isSome hsup]
    exact ⟨m', List.mem_cons_of_mem _ hm', hp⟩
  · intro hkeys p
    show (m.converted p).or (overlay rest p) = _
    cases hm : m.converted p with
    | some v => rfl
    | none =>
      -- no older map has a key that the newest lacks
      show overlay rest p = none
      rw [← Option.not_isSome_iff_eq_none, overlay_isSome hrest]
      rintro ⟨m', hm', hp⟩
      have hin := (converted_isSome (hsup m List.mem_cons_self) p).mpr (hkeys m' hm' p hp)
      rw [hm] at hin
      cases hin

/-- The maps written under a key are maps of the edits. -/
theorem supported_writesSinceDelete (key : String) (edits : List VertexEdit)
    (hsup : ∀ e ∈ edits, e.Supported) :
    ∀ maps, (∀ m ∈ maps, Supported m) → ∀ m ∈ writesSinceDelete key edits maps, Supported m := by
  induction edits with
  | nil => exact fun maps h => h
  | cons edit rest ih =>
    intro maps h
    refine ih (fun e he => hsup e (List.mem_cons_of_mem _ he)) _ fun m hm => ?_
    have hedit := hsup edit List.mem_cons_self
    cases edit with
    | write k m' =>
      rw [pushEdit] at hm
      split at hm
      · rcases List.mem_cons.mp hm with rfl | hm
        · exact hedit
        · exact h m hm
      · exact h m hm
    | delete k =>
      rw [pushEdit] at hm
      split at hm
      · cases hm
      · exact h m hm

/-- The last map of every live key has all property keys of the maps that were written under
the key since its last deletion. -/
def KeepsKeys (edits : List VertexEdit) : Prop :=
  ∀ key m older, writesSinceDelete key edits [] = m :: older →
    ∀ m' ∈ older, ∀ p, p ∈ m' → p ∈ m

/-- After every sequence of supported edits, the store is a view of `V` exactly when the last
map of every live key has all property keys written under the key since its last deletion. -/
theorem parity_iff (edits : List VertexEdit) (hsup : ∀ e ∈ edits, e.Supported) :
    Parity (LiveView.runEdits edits LiveView.init) ↔ KeepsKeys edits := by
  have htracks := tracks_runEdits edits hsup LiveView.init (fun _ => []) tracks_init
  have hmaps := fun key => supported_writesSinceDelete key edits hsup [] (by simp)
  refine forall_congr' fun key => ?_
  rw [htracks.vertices key]
  cases hw : writesSinceDelete key edits [] with
  | nil =>
    -- a key without an entry is unbound, and it has no last map
    have hnone := htracks.unbound key hw
    simp [hnone]
  | cons m older =>
    have hsupported : ∀ m' ∈ m :: older, Supported m' := by
      rw [← hw]
      exact hmaps key
    have hbound := htracks.bound key (by rw [hw]; simp)
    rw [hw] at hbound
    show Materialised _ key m.converted ↔ _
    rw [hbound.congr_iff, overlay_eq_head_iff hsupported]
    constructor
    · intro hkeys m₁ older₁ heq
      obtain ⟨rfl, rfl⟩ := List.cons.inj heq
      exact hkeys
    · intro hkeys
      exact hkeys m older rfl

/-- A map with the property `a`. -/
def mapA : VertexMap := AList.singleton "a" (.i64 1)

/-- A map with the properties `a` and `b`. -/
def mapAB : VertexMap := mapA.insert "b" .null

/-- The entry is written, and written again with one more property. The store is a view of
`V` afterwards. -/
theorem parity_growing_write :
    Parity (LiveView.runEdits [.write "k" mapA, .write "k" mapAB] LiveView.init) := by
  refine (parity_iff _ ?_).mpr ?_
  · intro e he
    simp only [List.mem_cons, List.not_mem_nil, or_false] at he
    rcases he with rfl | rfl
    · show ∀ e ∈ mapA.entries, _
      decide
    · show ∀ e ∈ mapAB.entries, _
      decide
  · intro key m older hw m' hm' p hp
    simp only [writesSinceDelete, pushEdit] at hw
    split at hw
    · obtain ⟨rfl, rfl⟩ := List.cons.inj hw
      obtain rfl := List.mem_singleton.mp hm'
      obtain rfl : p = "a" := List.mem_singleton.mp hp
      decide
    · cases hw

/-- The entry is written with the properties `a` and `b`, and then with `a` only. The store
keeps `b`. -/
theorem shrinking_write_keeps_property :
    ¬ Parity (LiveView.runEdits [.write "k" mapAB, .write "k" mapA] LiveView.init) := by
  intro hparity
  obtain ⟨id, node, hid, hn, hprops⟩ := hparity "k"
  obtain rfl : 0 = id := Option.some.inj hid
  obtain rfl := Option.some.inj hn
  have hb : some Value.null = none := hprops "b"
  cases hb

end GrafeoLoro.Proofs
