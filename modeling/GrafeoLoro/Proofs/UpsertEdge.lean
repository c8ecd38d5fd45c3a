import GrafeoLoro.Proofs.UpsertNode

/-!
# `GrafeoLoro.Proofs.UpsertEdge`: an `UpsertEdge` when no Grafeo call fails

* `upsertEdge_unknown`, `upsertEdge_miss` and `upsertEdge_hit`: what the op does, by the bindings
  that it finds.
* `lookup_setEdgeProperties`: the properties that a hit leaves on its edge.
-/

set_option autoImplicit false

namespace GrafeoLoro.Proofs

open GrafeoLoro GrafeoLoro.Lib

/-! ### The property loop -/

/-- Lookup of an edge after one property write. -/
theorem lookup_putEdgeProperty (s : Store) (id : EdgeId) (k : String) (v : Value) (id' : EdgeId) :
    (s.putEdgeProperty id k v).edges.lookup id'
      = if id' = id then (s.edges.lookup id).map fun e =>
          { e with properties := e.properties.insert k v }
        else s.edges.lookup id' := by
  unfold Store.putEdgeProperty
  cases he : s.edges.lookup id with
  | none =>
    by_cases hid : id' = id
    · rw [if_pos hid, hid]
      exact he
    · rw [if_neg hid]
  | some e =>
    show (s.edges.insert id _).lookup id' = _
    rw [alist_lookup_insert]
    rfl

/-- The property loop on an edge succeeds. -/
theorem setEdgeProperties_ok (id : EdgeId) (props : List (Σ _ : String, GraphValue)) :
    ∀ s, (setProperties (setEdgeProperty noFault id) props s).1 = .ok () :=
  setProperties_ok (fun _ _ _ => rfl) props

/-- The property loop overwrites the properties of its edge, and the other edges stay. -/
theorem lookup_setEdgeProperties (id : EdgeId) (props : List (Σ _ : String, GraphValue)) :
    ∀ (s : Store) (id' : EdgeId),
      (setProperties (setEdgeProperty noFault id) props s).2.edges.lookup id'
        = if id' = id then (s.edges.lookup id).map fun e =>
            { e with properties := insertAll e.properties (grafeoProps props) }
          else s.edges.lookup id' :=
  lookup_setProperties (fun s id' => s.edges.lookup id') Edge.properties
    (fun m e => { e with properties := m }) (fun _ _ _ => rfl)
    (fun k v s => lookup_putEdgeProperty s.tick id k v) (fun _ _ => rfl) (fun _ _ _ => rfl)
    (fun _ => rfl) props

/-- The property loop leaves alone what every single write leaves alone. -/
theorem setProperties_frame {A : Type} (f : Store → A)
    {set : String → Value → Store → SessionResult Unit}
    (hset : ∀ k v s, f (set k v s).2 = f s) (props : List (Σ _ : String, GraphValue)) :
    ∀ s, f (setProperties set props s).2 = f s :=
  setProperties_rel (R := fun s t => f t = f s) (fun _ => rfl)
    (fun _ _ _ hst htu => htu.trans hst) hset props

/-- The property loop on an edge leaves the nodes alone. -/
theorem nodes_setEdgeProperties (id : EdgeId) (props : List (Σ _ : String, GraphValue))
    (s : Store) : (setProperties (setEdgeProperty noFault id) props s).2.nodes = s.nodes := by
  refine setProperties_frame Store.nodes (fun k v s => ?_) props s
  show (s.tick.putEdgeProperty id k v).nodes = s.nodes
  unfold Store.putEdgeProperty
  split
  · rfl
  · rfl

/-- The property loop on a node leaves the edges alone. -/
theorem edges_setNodeProperties (id : NodeId) (props : List (Σ _ : String, GraphValue))
    (s : Store) : (setProperties (setNodeProperty noFault id) props s).2.edges = s.edges := by
  refine setProperties_frame Store.edges (fun k v s => ?_) props s
  show (s.tick.putNodeProperty id k v).edges = s.edges
  unfold Store.putNodeProperty
  split
  · rfl
  · rfl

/-- Properties that are written twice are there once. -/
theorem insertAll_twice (old : HashMap String Value) (props : Table String GraphValue) :
    insertAll (insertAll old (grafeoProps props.entries)) (grafeoProps props.entries)
      = insertAll old (grafeoProps props.entries) := by
  refine Finmap.ext_lookup fun k => ?_
  rw [lookup_overwritten, lookup_overwritten]
  cases (props.lookup k).map gvalToGrafeoValue with
  | none => rfl
  | some v => rfl

/-! ### The op -/

section
variable {b : Bridge} {srcKey dstKey label : String} {src dst : NodeId} {eid : EdgeId}

/-- An `UpsertEdge` with an unbound endpoint fails and changes nothing. -/
theorem upsertEdge_unknown {fault : Nat → Bool} (properties : Table String GraphValue)
    (h : b.maps.nodeIdMap.lookup srcKey = none ∨ b.maps.nodeIdMap.lookup dstKey = none) :
    applyLoroOp fault (.upsertEdge srcKey dstKey label properties) b
      = (.error (.bridge (unknownNodeKeys srcKey dstKey)), b) := by
  simp only [applyLoroOp, applyUpsertEdge]
  rcases h with h | h
  · rw [h]
  · rw [h]
    cases b.maps.nodeIdMap.lookup srcKey <;> rfl

/-- An `UpsertEdge` between bound endpoints on an unbound key. -/
theorem upsertEdge_miss (properties : Table String GraphValue)
    (hsrc : b.maps.nodeIdMap.lookup srcKey = some src)
    (hdst : b.maps.nodeIdMap.lookup dstKey = some dst)
    (hkey : b.maps.edgeIdMap.lookup (srcKey, dstKey, label) = none) :
    applyLoroOp noFault (.upsertEdge srcKey dstKey label properties) b
      = (.ok (), ⟨b.store.tick.addEdge src dst label (grafeoProps properties.entries),
          b.maps.insertEdge (srcKey, dstKey, label) b.store.nextEdge⟩) := by
  simp only [applyLoroOp, applyUpsertEdge, hsrc, hdst, hkey, createEdgeWithProps, call, noFault]
  rfl

/-- An `UpsertEdge` between bound endpoints on a bound key. -/
theorem upsertEdge_hit (properties : Table String GraphValue)
    (hsrc : b.maps.nodeIdMap.lookup srcKey = some src)
    (hdst : b.maps.nodeIdMap.lookup dstKey = some dst)
    (hkey : b.maps.edgeIdMap.lookup (srcKey, dstKey, label) = some eid) :
    applyLoroOp noFault (.upsertEdge srcKey dstKey label properties) b
      = (.ok (), ⟨(setProperties (setEdgeProperty noFault eid) properties.entries b.store).2,
          b.maps⟩) := by
  have hok := setEdgeProperties_ok eid properties.entries b.store
  simp only [applyLoroOp, applyUpsertEdge, hsrc, hdst, hkey, hok]

end

end GrafeoLoro.Proofs
