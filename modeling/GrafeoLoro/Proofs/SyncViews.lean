import GrafeoLoro.Bridge.TwoWay
import GrafeoLoro.Proofs.GrafeoRoundTrip
import GrafeoLoro.Proofs.OutboundMerge
import GrafeoLoro.Proofs.Parity

/-!
# `GrafeoLoro.Proofs.SyncViews`: what the two sides have of a vertex key

A `View` is what one side has of a vertex key: nothing, or its properties as Grafeo values.
`docView` is the view of the document and `storeView` that of the store. An inbound op and an
outbound event each do one thing to the view of their key (`viewOp`, `viewEvent`).

* `opEffect`: every node op does it to the store, and it leaves the other keys alone.
* `event_unbound`, `event_write` and `event_delete`: what an event does to the document.
* `Agree.viewEvent` and `Agree.write`: changes that keep two views in agreement.
-/

set_option autoImplicit false

namespace GrafeoLoro.Proofs

open GrafeoLoro GrafeoLoro.Lib

/-! ### Views -/

/-- What one side has of a key: nothing, or its properties. -/
abbrev View : Type := Option (String → Option Value)

/-- The property `p` of the view. -/
def View.prop (v : View) (p : String) : Option Value := v.bind fun f => f p

/-- The converted properties of an entry of `V`. -/
def entryProp (entry : ValueOrContainer) (p : String) : Option Value :=
  ((currentProperties (some entry)).lookup p).bind convert

/-- The view of the document. -/
def docView (doc : LoroDoc) (key : String) : View := (doc.vertices.lookup key).map entryProp

/-- The view of the store: the properties of the node that the key is bound to. -/
def storeView (b : Bridge) (key : String) : View :=
  (b.maps.nodeIdMap.lookup key).bind fun id =>
    (b.store.nodes.lookup id).map fun node => node.properties.lookup

/-- What an op does to the view of its key. -/
def viewOp (v : View) : LoroOp → View
  | .upsertNode _ _ props => some fun p => ((props.lookup p).map gvalToGrafeoValue).or (v.prop p)
  | .deleteNode _ => none
  | _ => v

/-- What an event does to the view of the key of its node. -/
def viewEvent (v : View) (event : ChangeEvent EntityChange) : View :=
  if event.payload.kind = .delete then none
  else some fun p => ((event.payload.after.getD ∅).lookup p).or (v.prop p)

/-- What the write of a node does to the view of its key. -/
theorem viewEvent_write {kind : ChangeKind} (hkind : kind ≠ .delete) (v : View) (epoch : EpochId)
    (id : NodeId) (after : Option (Table String Value)) :
    viewEvent v (nodeEvent epoch id kind after)
      = some fun p => ((after.getD ∅).lookup p).or (v.prop p) := if_neg hkind

/-- The key of a node op. -/
def writtenKey : LoroOp → Option String
  | .upsertNode key _ _ | .deleteNode key => some key
  | _ => none

/-- Both sides have nothing, or the second has the properties of the first. When `exact` it has
no others. -/
def Agree (exact : Prop) : View → View → Prop
  | none, none => True
  | some f, some g => ∀ p, exact ∨ (f p).isSome → g p = f p
  | _, _ => False

/-! ### One op on the store -/

/-- The id maps are inverse, and no id in use is one the store has yet to hand out. -/
structure Bound (b : Bridge) : Prop where
  inverse : MutualInverse b.maps.nodeIdMap b.maps.nodeKeyMap
  nodeFresh : ∀ id, id ∈ b.store.nodes → id < b.store.nextNode
  boundFresh : ∀ key id, b.maps.nodeIdMap.lookup key = some id → id < b.store.nextNode

/-- What an op on the vertex `key` does to its view, and what it leaves alone. -/
structure OpEffect (op : LoroOp) (key : String) (b b' : Bridge) : Prop where
  bound : Bound b'
  next : b.store.nextNode ≤ b'.store.nextNode
  view : storeView b' key = viewOp (storeView b key) op
  /-- The key keeps its node, or the op unbinds it, or it gets a new node. -/
  binding : ∀ id, b'.maps.nodeIdMap.lookup key = some id →
    b.maps.nodeIdMap.lookup key = some id ∨ b.store.nextNode ≤ id
  live : ∀ id, b'.maps.nodeIdMap.lookup key = some id → id ∈ b'.store.nodes
  bindings : ∀ other, other ≠ key →
    b'.maps.nodeIdMap.lookup other = b.maps.nodeIdMap.lookup other
  nodes : ∀ id, id < b.store.nextNode → b.maps.nodeIdMap.lookup key ≠ some id →
    b'.store.nodes.lookup id = b.store.nodes.lookup id

section
variable {b b' : Bridge} {op : LoroOp} {key other : String} {id : NodeId}

/-- The view of a bound key. -/
theorem storeView_bound (hkey : b.maps.nodeIdMap.lookup key = some id) :
    storeView b key = (b.store.nodes.lookup id).map fun node => node.properties.lookup := by
  rw [storeView, hkey]
  rfl

/-- The view of an unbound key. -/
theorem storeView_unbound (hkey : b.maps.nodeIdMap.lookup key = none) :
    storeView b key = none := by
  rw [storeView, hkey]
  rfl

/-- An op leaves the views of the other keys alone. -/
theorem OpEffect.views (h : OpEffect op key b b') (hb : Bound b) (hne : other ≠ key) :
    storeView b' other = storeView b other := by
  cases hother : b.maps.nodeIdMap.lookup other with
  | none =>
    rw [storeView_unbound hother, storeView_unbound ((h.bindings other hne).trans hother)]
  | some id =>
    rw [storeView_bound hother, storeView_bound ((h.bindings other hne).trans hother)]
    -- two keys are never bound to one node
    have hkey : b.maps.nodeIdMap.lookup key ≠ some id :=
      fun hkey => hne (hb.inverse.key_unique hother hkey)
    rw [h.nodes id (hb.boundFresh other id hother) hkey]

/-- An upsert of an unbound key. -/
theorem opEffect_upsert_miss (labels : List String) (props : Table String GraphValue)
    (hb : Bound b) (hkey : b.maps.nodeIdMap.lookup key = none) :
    OpEffect (.upsertNode key labels props) key b
      ⟨b.store.tick.addNode labels (grafeoProps props.entries),
        b.maps.insertNode key b.store.nextNode⟩ := by
  have hnew : (b.maps.insertNode key b.store.nextNode).nodeIdMap.lookup key
      = some b.store.nextNode := Finmap.lookup_insert _
  have hid : ∀ id, (b.maps.insertNode key b.store.nextNode).nodeIdMap.lookup key = some id →
      id = b.store.nextNode := fun id h => Option.some.inj (h.symm.trans hnew)
  have hnodes : ∀ id, (b.store.tick.addNode labels (grafeoProps props.entries)).nodes.lookup id
      = if id = b.store.nextNode then some ⟨labels, insertAll ∅ (grafeoProps props.entries)⟩
        else b.store.nodes.lookup id := fun id => alist_lookup_insert _ _ _ _
  have hother : ∀ other, other ≠ key →
      (b.maps.insertNode key b.store.nextNode).nodeIdMap.lookup other
        = b.maps.nodeIdMap.lookup other :=
    fun other hne => (finmap_lookup_insert _ _ _ _).trans (if_neg hne)
  constructor
  case bound =>
    constructor
    case inverse =>
      -- the next id is above every bound id
      refine hb.inverse.insert hkey fun key' hkey' => ?_
      exact Nat.lt_irrefl _ (hb.boundFresh key' _ hkey')
    case nodeFresh =>
      intro id hmem
      rw [← AList.lookup_isSome, hnodes] at hmem
      split at hmem
      · rename_i heq
        exact Nat.lt_succ_of_le (Nat.le_of_eq heq)
      · exact Nat.lt_succ_of_lt (hb.nodeFresh id (AList.lookup_isSome.mp hmem))
    case boundFresh =>
      intro key' id hkey'
      by_cases hne : key' = key
      · rw [hid id (hne ▸ hkey')]
        exact Nat.lt_succ_self _
      · rw [hother key' hne] at hkey'
        exact Nat.lt_succ_of_lt (hb.boundFresh key' id hkey')
  case next => exact Nat.le_succ _
  case view =>
    rw [storeView_bound hnew, storeView_unbound hkey]
    show ((b.store.tick.addNode labels _).nodes.lookup b.store.nextNode).map _ = _
    rw [hnodes, if_pos rfl]
    refine congrArg some (funext fun p => ?_)
    exact lookup_overwritten ∅ props p
  case binding => exact fun id h => .inr (Nat.le_of_eq (hid id h).symm)
  case live =>
    intro id h
    rw [hid id h]
    exact AList.mem_insert _ |>.mpr (.inl rfl)
  case bindings => exact hother
  case nodes =>
    intro id hlt _
    exact (hnodes id).trans (if_neg (Nat.ne_of_lt hlt))

/-- An upsert of a key whose node is in the store. -/
theorem opEffect_upsert_hit (labels : List String) (props : Table String GraphValue)
    (hb : Bound b) (hkey : b.maps.nodeIdMap.lookup key = some id) (hlive : id ∈ b.store.nodes) :
    OpEffect (.upsertNode key labels props) key b
      ⟨(setProperties (setNodeProperty noFault id) props.entries b.store).2, b.maps⟩ := by
  have hprops := propsOnly_setNodeProperties noFault id props.entries b.store
  have hnodes := lookup_setNodeProperties id props.entries b.store
  generalize (setProperties (setNodeProperty noFault id) props.entries b.store).2 = store
    at hprops hnodes ⊢
  constructor
  case bound =>
    constructor
    case inverse => exact hb.inverse
    case nodeFresh =>
      intro id' hmem
      rw [hprops.nextNode]
      exact hb.nodeFresh id' ((hprops.mem_nodes id').mp hmem)
    case boundFresh =>
      intro key' id' hkey'
      rw [hprops.nextNode]
      exact hb.boundFresh key' id' hkey'
  case next => exact Nat.le_of_eq hprops.nextNode.symm
  case view =>
    rw [storeView_bound hkey, storeView_bound (b := ⟨store, b.maps⟩) hkey]
    obtain ⟨node, hnode⟩ := Option.isSome_iff_exists.mp (AList.lookup_isSome.mpr hlive)
    rw [hnodes, if_pos rfl, hnode]
    refine congrArg some (funext fun p => ?_)
    exact lookup_overwritten node.properties props p
  case binding => exact fun id' h => .inl h
  case live =>
    intro id' h
    obtain rfl : id' = id := Option.some.inj (h.symm.trans hkey)
    exact (hprops.mem_nodes id').mpr hlive
  case bindings => exact fun _ _ => rfl
  case nodes =>
    intro id' _ hne
    have hids : id' ≠ id := fun heq => hne (by rw [hkey, heq])
    exact (hnodes id').trans (if_neg hids)

/-- A deletion of a bound key. -/
theorem opEffect_delete_hit (hb : Bound b) (hkey : b.maps.nodeIdMap.lookup key = some id) :
    OpEffect (.deleteNode key) key b
      ⟨b.store.dropNode id, { b.maps with
        nodeIdMap := b.maps.nodeIdMap.erase key
        nodeKeyMap := b.maps.nodeKeyMap.erase id }⟩ := by
  have hgone : (b.maps.nodeIdMap.erase key).lookup key = none := Finmap.lookup_erase _ _
  have hnodes : ∀ id', (b.store.dropNode id).nodes.lookup id'
      = if id' = id then none else b.store.nodes.lookup id' :=
    fun id' => alist_lookup_erase _ _ _
  have hother : ∀ other, other ≠ key →
      (b.maps.nodeIdMap.erase key).lookup other = b.maps.nodeIdMap.lookup other :=
    fun other hne => (finmap_lookup_erase _ _ _).trans (if_neg hne)
  constructor
  case bound =>
    constructor
    case inverse => exact hb.inverse.erase hkey
    case nodeFresh =>
      intro id' hmem
      rw [← AList.lookup_isSome, hnodes] at hmem
      split at hmem
      · cases hmem
      · exact hb.nodeFresh id' (AList.lookup_isSome.mp hmem)
    case boundFresh =>
      intro key' id' hkey'
      by_cases hne : key' = key
      · rw [hne] at hkey'
        cases hgone.symm.trans hkey'
      · exact hb.boundFresh key' id' ((hother key' hne).symm.trans hkey')
  case next => exact Nat.le_refl _
  case view => exact storeView_unbound hgone
  case binding => exact fun id' h => nomatch hgone.symm.trans h
  case live => exact fun id' h => nomatch hgone.symm.trans h
  case bindings => exact hother
  case nodes =>
    intro id' _ hne
    have hids : id' ≠ id := fun heq => hne (by rw [hkey, heq])
    exact (hnodes id').trans (if_neg hids)

/-- A deletion of an unbound key. -/
theorem opEffect_delete_miss (hb : Bound b) (hkey : b.maps.nodeIdMap.lookup key = none) :
    OpEffect (.deleteNode key) key b b where
  bound := hb
  next := Nat.le_refl _
  view := storeView_unbound hkey
  binding := fun _ h => nomatch hkey.symm.trans h
  live := fun _ h => nomatch hkey.symm.trans h
  bindings := fun _ _ => rfl
  nodes := fun _ _ _ => rfl

/-- Every node op has its effect, when the node of its key is not missing. -/
theorem opEffect (hb : Bound b) (hop : writtenKey op = some key)
    (hlive : ∀ id, b.maps.nodeIdMap.lookup key = some id → id ∈ b.store.nodes) :
    OpEffect op key b (applyLoroOp noFault op b).2 := by
  cases op with
  | upsertNode key' labels props =>
    obtain rfl := Option.some.inj hop
    cases hkey : b.maps.nodeIdMap.lookup key' with
    | none =>
      rw [upsertNode_miss labels props hkey]
      exact opEffect_upsert_miss labels props hb hkey
    | some id =>
      rw [upsertNode_hit labels props hkey]
      exact opEffect_upsert_hit labels props hb hkey (hlive id hkey)
  | deleteNode key' =>
    obtain rfl := Option.some.inj hop
    have happly : (applyLoroOp noFault (.deleteNode key') b).2 = applyDeleteNode key' b := rfl
    rw [happly, applyDeleteNode_eq]
    cases hkey : b.maps.nodeIdMap.lookup key' with
    | none => exact opEffect_delete_miss hb hkey
    | some id =>
      show OpEffect _ _ _ ⟨b.store.dropNode id, (b.maps.removeNode key').2⟩
      rw [removeNode_bound hkey]
      exact opEffect_delete_hit hb hkey
  | upsertEdge => cases hop
  | deleteEdge => cases hop
  | treeMove => cases hop

end

/-! ### One event on the document -/

/-- The document with an entry of `V`. -/
def putVertex (doc : LoroDoc) (key : String) (entry : ValueOrContainer) : LoroDoc :=
  { doc with vertices := doc.vertices.insert key entry }

@[simp] theorem docView_putVertex (doc : LoroDoc) (key other : String)
    (entry : ValueOrContainer) : docView (putVertex doc key entry) other
      = if other = key then some (entryProp entry) else docView doc other := by
  show ((doc.vertices.insert key entry).lookup other).map _ = _
  rw [finmap_lookup_insert]
  split <;> rfl

/-- The values of the event come back from the document as they are. -/
def PortableEvent (event : ChangeEvent EntityChange) : Prop :=
  ∀ p v, (event.payload.after.getD ∅).lookup p = some v → KeyOrdered v ∧ ¬ Lossy v

/-- A portable value is read back as it is. -/
theorem convert_grafeoValueToLval {v : Value} (hkeys : KeyOrdered v) (hlossy : ¬ Lossy v) :
    convert (grafeoValueToLval v) = some v := by
  obtain ⟨g, hback, hvalue⟩ := lvalToGval_grafeoValueToLval v
  rw [convert, hback]
  exact congrArg some (hvalue hkeys hlossy)

/-- The entry after a write of portable values. -/
theorem entryProp_mergeAfter (stored : Option ValueOrContainer) (epoch : EpochId) (id : NodeId)
    (kind : ChangeKind) (after : Option (Table String Value))
    (hportable : PortableEvent (nodeEvent epoch id kind after)) (p : String) :
    entryProp (mergeAfter stored after) p
      = ((after.getD ∅).lookup p).or (View.prop (stored.map entryProp) p) := by
  rw [entryProp, lookup_mergeAfter]
  cases hp : (after.getD ∅).lookup p with
  | some v =>
    obtain ⟨hkeys, hlossy⟩ := hportable p v hp
    exact convert_grafeoValueToLval hkeys hlossy
  | none =>
    cases stored with
    | none => rfl
    | some entry => rfl

section
variable {epoch : EpochId} {id : NodeId} {kind : ChangeKind}
  {after : Option (Table String Value)} {maps : BridgeMaps} {key : String} (doc : LoroDoc)

/-- The write of a bound node. -/
theorem event_write (hid : maps.nodeKeyMap.lookup id = some key)
    (hkind : kind = .create ∨ kind = .update) :
    applyChangeEventToLoro false (nodeEvent epoch id kind after) doc maps
      = (.ok (), putVertex doc key (mergeAfter (doc.vertices.lookup key) after), maps) := by
  rw [nodeWrite_result ⟨rfl, hkind⟩ hid]
  rfl

end

/-! ### Views that agree -/

section
variable {exact : Prop} {x y : View} {f : String → Option Value}

/-- What agreement says about one property. -/
theorem Agree.prop (h : Agree exact x y) (p : String) (hp : exact ∨ (x.prop p).isSome) :
    y.prop p = x.prop p := by
  match x, y, h with
  | none, none, _ => rfl
  | some f, some g, h => exact h p hp

/-- An event on both sides. -/
theorem Agree.viewEvent (h : Agree exact x y) (event : ChangeEvent EntityChange) :
    Agree exact (viewEvent x event) (Proofs.viewEvent y event) := by
  unfold Proofs.viewEvent
  split
  · trivial
  · intro p hp
    dsimp only at hp ⊢
    cases hafter : (event.payload.after.getD ∅).lookup p with
    | some v => rfl
    | none =>
      rw [hafter] at hp
      exact h.prop p hp

/-- The new map on the first side and its op on the second. The op removes no property. -/
theorem Agree.write (h : Agree exact x y) (key : String) (labels : List String)
    (props : Table String GraphValue) (hprops : ∀ p, (props.lookup p).map gvalToGrafeoValue = f p)
    (hkeep : exact → ∀ p, (x.prop p).isSome → (f p).isSome) :
    Agree exact (some f) (viewOp y (.upsertNode key labels props)) := by
  intro p hp
  dsimp only
  rw [hprops p]
  cases hf : f p with
  | some v => rfl
  | none =>
    rw [hf] at hp
    have hexact : exact := hp.resolve_right (by simp)
    -- the new map has all properties of the old one
    show y.prop p = none
    rw [h.prop p (.inl hexact), ← Option.not_isSome_iff_eq_none]
    intro hx
    have hsome := hkeep hexact p hx
    rw [hf] at hsome
    cases hsome

end

end GrafeoLoro.Proofs
