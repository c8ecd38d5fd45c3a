import GrafeoLoro.Proofs.BridgeOk

/-!
# `GrafeoLoro.Proofs.UpsertNode`: an `UpsertNode` when no Grafeo call fails

`Materialised b key props` says that the key is bound to a node of the store with exactly the
properties `props`.

* `upsertNode_miss` and `upsertNode_hit`: the op always succeeds, and what it does.
* `upsertNode_miss_materialised` and `upsertNode_hit_materialised`: the properties of its node
  afterwards. A hit writes the properties of the op over those of the node and removes none.
* `upsertNode_frame`: the binding and the node of every other key stay.
-/

set_option autoImplicit false

namespace GrafeoLoro.Proofs

open GrafeoLoro GrafeoLoro.Lib

/-- No Grafeo call fails. -/
def noFault (_ : Nat) : Bool := false

/-! ### Converted properties -/

/-- The conversion keeps the keys. -/
theorem keys_grafeoProps (props : List (Σ _ : String, GraphValue)) :
    (grafeoProps props).keys = props.keys := by
  simp [grafeoProps, List.keys, Function.comp_def]

/-- Lookup in converted properties. -/
theorem dlookup_grafeoProps (props : List (Σ _ : String, GraphValue)) (k : String) :
    (grafeoProps props).dlookup k = (props.dlookup k).map gvalToGrafeoValue := by
  induction props with
  | nil => rfl
  | cons e rest ih =>
    obtain ⟨k', g⟩ := e
    let head : Σ _ : String, Value := ⟨k', gvalToGrafeoValue g⟩
    show (head :: grafeoProps rest).dlookup k = _
    by_cases hk : k = k'
    · subst hk
      rw [List.dlookup_cons_eq rest k g]
      exact List.dlookup_cons_eq (grafeoProps rest) k (gvalToGrafeoValue g)
    · rw [List.dlookup_cons_ne rest ⟨k', g⟩ hk, List.dlookup_cons_ne _ head hk, ih]

/-- The properties of a node after the properties of an op were written over them. -/
theorem lookup_overwritten (old : HashMap String Value) (props : Table String GraphValue)
    (k : String) :
    (insertAll old (grafeoProps props.entries)).lookup k
      = ((props.lookup k).map gvalToGrafeoValue).or (old.lookup k) := by
  have hnodup : (grafeoProps props.entries).NodupKeys := by
    show (grafeoProps props.entries).keys.Nodup
    rw [keys_grafeoProps]
    exact props.nodupKeys
  rw [lookup_insertAll _ hnodup, dlookup_grafeoProps]
  rfl

/-! ### The property loop -/

/-- Lookup of a node after one property write. -/
theorem lookup_putNodeProperty (s : Store) (id : NodeId) (k : String) (v : Value) (id' : NodeId) :
    (s.putNodeProperty id k v).nodes.lookup id'
      = if id' = id then (s.nodes.lookup id).map fun n =>
          { n with properties := n.properties.insert k v }
        else s.nodes.lookup id' := by
  unfold Store.putNodeProperty
  cases hn : s.nodes.lookup id with
  | none =>
    by_cases hid : id' = id
    · rw [if_pos hid, hid]
      exact hn
    · rw [if_neg hid]
  | some n =>
    show (s.nodes.insert id _).lookup id' = _
    rw [alist_lookup_insert]
    rfl

/-- The property loop succeeds when every single write does. -/
theorem setProperties_ok {set : String → Value → Store → SessionResult Unit}
    (hset : ∀ k v s, (set k v s).1 = .ok ()) (props : List (Σ _ : String, GraphValue)) :
    ∀ s, (setProperties set props s).1 = .ok () := by
  induction props with
  | nil => exact fun s => rfl
  | cons e rest ih =>
    intro s
    have hone := hset e.1 (gvalToGrafeoValue e.2) s
    rw [setProperties]
    split
    · exact ih _
    · rename_i err s' heq
      rw [heq] at hone
      cases hone

/-- The property loop overwrites the properties of one element, when every single write writes
one property of that element and leaves the others alone. `get` and `put` read and replace the
properties of an element. -/
theorem lookup_setProperties {X : Type} (look : Store → Nat → Option X)
    (get : X → HashMap String Value) (put : HashMap String Value → X → X)
    {set : String → Value → Store → SessionResult Unit} {id : Nat}
    (hok : ∀ k v s, (set k v s).1 = .ok ())
    (hset : ∀ k v s id', look (set k v s).2 id'
      = if id' = id then (look s id).map fun x => put ((get x).insert k v) x else look s id')
    (hget : ∀ m x, get (put m x) = m) (hput : ∀ m m' x, put m (put m' x) = put m x)
    (hself : ∀ x, put (get x) x = x) (props : List (Σ _ : String, GraphValue)) :
    ∀ s id', look (setProperties set props s).2 id'
      = if id' = id then (look s id).map fun x => put (insertAll (get x) (grafeoProps props)) x
        else look s id' := by
  induction props with
  | nil =>
    intro s id'
    by_cases hid : id' = id
    · subst hid
      have hkeep : (fun x => put (insertAll (get x) (grafeoProps [])) x) = fun x => x := by
        funext x
        exact hself x
      rw [if_pos rfl, hkeep, Option.map_id']
      rfl
    · rw [if_neg hid]
      rfl
  | cons e rest ih =>
    intro s id'
    have hone := hok e.1 (gvalToGrafeoValue e.2) s
    have hwrite := hset e.1 (gvalToGrafeoValue e.2) s
    rw [setProperties]
    split
    · rename_i s' heq
      rw [heq] at hwrite
      rw [ih, hwrite, hwrite, if_pos rfl]
      by_cases hid : id' = id
      · subst hid
        rw [if_pos rfl, if_pos rfl, Option.map_map]
        congr 1
        funext x
        simp only [Function.comp_apply, hget, hput]
        rfl
      · rw [if_neg hid, if_neg hid, if_neg hid]
    · rename_i err s' heq
      rw [heq] at hone
      cases hone

/-- The property loop on a node succeeds. -/
theorem setNodeProperties_ok (id : NodeId) (props : List (Σ _ : String, GraphValue)) :
    ∀ s, (setProperties (setNodeProperty noFault id) props s).1 = .ok () :=
  setProperties_ok (fun _ _ _ => rfl) props

/-- The property loop overwrites the properties of its node, and the other nodes stay. -/
theorem lookup_setNodeProperties (id : NodeId) (props : List (Σ _ : String, GraphValue)) :
    ∀ (s : Store) (id' : NodeId),
      (setProperties (setNodeProperty noFault id) props s).2.nodes.lookup id'
        = if id' = id then (s.nodes.lookup id).map fun n =>
            { n with properties := insertAll n.properties (grafeoProps props) }
          else s.nodes.lookup id' :=
  lookup_setProperties (fun s id' => s.nodes.lookup id') Node.properties
    (fun m n => { n with properties := m }) (fun _ _ _ => rfl)
    (fun k v s => lookup_putNodeProperty s.tick id k v) (fun _ _ => rfl) (fun _ _ _ => rfl)
    (fun _ => rfl) props

/-! ### The op -/

/-- An `UpsertNode` on an unbound key. -/
theorem upsertNode_miss {b : Bridge} {key : String} (labels : List String)
    (properties : Table String GraphValue) (hkey : b.maps.nodeIdMap.lookup key = none) :
    applyLoroOp noFault (.upsertNode key labels properties) b
      = (.ok (), ⟨b.store.tick.addNode labels (grafeoProps properties.entries),
          b.maps.insertNode key b.store.nextNode⟩) := by
  simp only [applyLoroOp, applyUpsertNode, hkey, createNodeWithProps, call, noFault]
  rfl

/-- An `UpsertNode` on a bound key. -/
theorem upsertNode_hit {b : Bridge} {key : String} {id : NodeId} (labels : List String)
    (properties : Table String GraphValue) (hkey : b.maps.nodeIdMap.lookup key = some id) :
    applyLoroOp noFault (.upsertNode key labels properties) b
      = (.ok (), ⟨(setProperties (setNodeProperty noFault id) properties.entries b.store).2,
          b.maps⟩) := by
  have hok := setNodeProperties_ok id properties.entries b.store
  simp only [applyLoroOp, applyUpsertNode, hkey, hok]

/-- An `UpsertNode` succeeds. -/
theorem upsertNode_ok (key : String) (labels : List String)
    (properties : Table String GraphValue) (b : Bridge) :
    (applyLoroOp noFault (.upsertNode key labels properties) b).1 = .ok () := by
  cases hkey : b.maps.nodeIdMap.lookup key with
  | none => rw [upsertNode_miss labels properties hkey]
  | some id => rw [upsertNode_hit labels properties hkey]

/-- The key is bound to a node of the store, whose properties are `props`. -/
def Materialised (b : Bridge) (key : String) (props : String → Option Value) : Prop :=
  ∃ id node, b.maps.nodeIdMap.lookup key = some id ∧ b.store.nodes.lookup id = some node ∧
    ∀ p, node.properties.lookup p = props p

/-- A node stays materialised when its binding and the node do not change. -/
theorem Materialised.frame {b b' : Bridge} {key : String} {props : String → Option Value}
    (h : Materialised b key props)
    (hmap : b'.maps.nodeIdMap.lookup key = b.maps.nodeIdMap.lookup key)
    (hnode : ∀ id, b.maps.nodeIdMap.lookup key = some id →
      b'.store.nodes.lookup id = b.store.nodes.lookup id) : Materialised b' key props := by
  obtain ⟨id, node, hid, hn, hprops⟩ := h
  exact ⟨id, node, hmap.trans hid, (hnode id hid).trans hn, hprops⟩

/-- A node materialised with two property functions: they are equal. -/
theorem Materialised.congr_iff {b : Bridge} {key : String} {f g : String → Option Value}
    (h : Materialised b key f) : Materialised b key g ↔ ∀ p, f p = g p := by
  obtain ⟨id, node, hid, hn, hf⟩ := h
  constructor
  · rintro ⟨id', node', hid', hn', hg⟩ p
    obtain rfl := Option.some.inj (hid.symm.trans hid')
    obtain rfl := Option.some.inj (hn.symm.trans hn')
    rw [← hf p, hg p]
  · intro hfg
    exact ⟨id, node, hid, hn, fun p => (hf p).trans (hfg p)⟩

/-- A write on an unbound key materialises it with the properties of the op. -/
theorem upsertNode_miss_materialised {b : Bridge} {key : String} (labels : List String)
    (properties : Table String GraphValue) (hkey : b.maps.nodeIdMap.lookup key = none) :
    Materialised (applyLoroOp noFault (.upsertNode key labels properties) b).2 key
      fun p => (properties.lookup p).map gvalToGrafeoValue := by
  rw [upsertNode_miss labels properties hkey]
  have hlook : ∀ p, (insertAll (∅ : HashMap String Value) (grafeoProps properties.entries)).lookup p
      = (properties.lookup p).map gvalToGrafeoValue := by
    intro p
    rw [lookup_overwritten, Finmap.lookup_empty, Option.or_none]
  exact ⟨b.store.nextNode, ⟨labels, insertAll ∅ (grafeoProps properties.entries)⟩,
    Finmap.lookup_insert _, AList.lookup_insert _, hlook⟩

/-- A write on a materialised key puts the properties of the op over those of the node. -/
theorem upsertNode_hit_materialised {b : Bridge} {key : String} {old : String → Option Value}
    (labels : List String) (properties : Table String GraphValue)
    (hold : Materialised b key old) :
    Materialised (applyLoroOp noFault (.upsertNode key labels properties) b).2 key
      fun p => ((properties.lookup p).map gvalToGrafeoValue).or (old p) := by
  obtain ⟨id, node, hkey, hn, hprops⟩ := hold
  rw [upsertNode_hit labels properties hkey]
  have hnode : (setProperties (setNodeProperty noFault id) properties.entries
      b.store).2.nodes.lookup id = some ⟨node.labels,
        insertAll node.properties (grafeoProps properties.entries)⟩ := by
    rw [lookup_setNodeProperties, if_pos rfl, hn]
    rfl
  have hlook : ∀ p, (insertAll node.properties (grafeoProps properties.entries)).lookup p
      = ((properties.lookup p).map gvalToGrafeoValue).or (old p) := by
    intro p
    rw [lookup_overwritten, hprops p]
  exact ⟨id, _, hkey, hnode, hlook⟩

/-- A write leaves the binding and the node of every other key alone. -/
theorem upsertNode_frame {b : Bridge} (hok : BridgeOk b) {key other : String}
    (labels : List String) (properties : Table String GraphValue) (hne : other ≠ key) :
    let b' := (applyLoroOp noFault (.upsertNode key labels properties) b).2
    b'.maps.nodeIdMap.lookup other = b.maps.nodeIdMap.lookup other ∧
      ∀ id, b.maps.nodeIdMap.lookup other = some id →
        b'.store.nodes.lookup id = b.store.nodes.lookup id := by
  intro b'
  cases hkey : b.maps.nodeIdMap.lookup key with
  | none =>
    have hb' : b' = _ := congrArg Prod.snd (upsertNode_miss labels properties hkey)
    rw [hb']
    constructor
    · exact (finmap_lookup_insert _ _ _ _).trans (if_neg hne)
    · intro id hid
      -- the new node has an id that no key was bound to
      have hlt : id < b.store.nextNode := hok.nodeBoundFresh hid
      exact (alist_lookup_insert _ _ _ _).trans (if_neg (Nat.ne_of_lt hlt))
  | some idKey =>
    have hb' : b' = _ := congrArg Prod.snd (upsertNode_hit labels properties hkey)
    rw [hb']
    constructor
    · rfl
    · intro id hid
      -- two keys are never bound to one node
      have hids : id ≠ idKey := fun h => hne (hok.nodeInverse.key_unique hid (h ▸ hkey))
      exact (lookup_setNodeProperties _ _ _ _).trans (if_neg hids)

end GrafeoLoro.Proofs
