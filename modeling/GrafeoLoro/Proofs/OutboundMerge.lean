import GrafeoLoro.Bridge.ChangeEvent
import GrafeoLoro.Hydration

/-!
# `GrafeoLoro.Proofs.OutboundMerge`: what an outbound write keeps of a vertex

The schema layer stores a vertex as a map container with its labels, properties and
description. The outbound worker stores a plain map of properties. The read-modify-write of
the worker reads only the plain form (`lookup_currentProperties`), and it stores the plain
form over whatever was there.

* `lookup_mergeAfter`: what the stored map says about every property.
* `outboundMerge_keeps_iff`: a node event keeps the vertex exactly when the entry was no vertex
  container, or one without labels and description whose properties are all in the event.
* `outboundMerge_drops_vertex`: a vertex container with a label loses it.
-/

set_option autoImplicit false

namespace GrafeoLoro.Proofs

open GrafeoLoro GrafeoLoro.Lib

/-- `VertexEntity` (`src/schema/vertex.rs`) with its description text. -/
structure StoredVertex extends VertexEntity where
  description : String

/-- What a reader of the document finds under a vertex key. -/
structure VertexContents where
  labels : List String
  properties : String → Option LoroValue
  description : String

/-- No vertex. -/
def VertexContents.empty : VertexContents := ⟨[], fun _ => none, ""⟩

/-- The contents of a vertex that the schema layer wrote. -/
def StoredVertex.contents (vertex : StoredVertex) : VertexContents where
  labels := vertex.labels
  properties p := (vertex.properties.lookup p).map LoroProperty.toLoroValue
  description := vertex.description

/-- The contents under an entry of `V`: those of the vertex container, or the properties of the
plain map. `vertexOf` are the vertices of the map containers. -/
def vertexContents (vertexOf : ContainerID → StoredVertex) :
    Option ValueOrContainer → VertexContents
  | some (.container id) =>
    if id.containerType = .map then (vertexOf id).contents else VertexContents.empty
  | stored => { VertexContents.empty with properties := (currentProperties stored).lookup }

/-- The vertex has all labels and the description it had, the properties in `changed` have the
values of the event, and the others the values they had. -/
structure KeepsVertex (changed : Table String Value) (before after : VertexContents) : Prop where
  labels : ∀ label ∈ before.labels, label ∈ after.labels
  description : after.description = before.description
  written : ∀ p v, changed.lookup p = some v → after.properties p = some (grafeoValueToLval v)
  others : ∀ p v, p ∉ changed → before.properties p = some v → after.properties p = some v

/-- The event is a write of the node `id`. -/
def IsNodeWrite (event : ChangeEvent EntityChange) (id : NodeId) : Prop :=
  event.payload.entityId = .node id ∧
    (event.payload.kind = .create ∨ event.payload.kind = .update)

/-- The vertex container has nothing that the event does not write. -/
def OnlyChanged (changed : Table String Value) (vertex : StoredVertex) : Prop :=
  vertex.labels = [] ∧ vertex.description = "" ∧ ∀ p ∈ vertex.properties, p ∈ changed

/-! ### The stored map -/

/-- The entries of a table, read back as the current properties. -/
theorem lookup_currentProperties (t : Table String LoroValue) (p : String) :
    (currentProperties (some (.value (.map (t.entries.map fun e => (e.1, e.2)))))).lookup p
      = t.lookup p := by
  have hback : (t.entries.map fun e => (e.1, e.2)).map
      (fun e => (⟨e.1, e.2⟩ : Σ _ : String, LoroValue)) = t.entries := by
    rw [List.map_map]
    exact List.map_id t.entries
  show (insertEach ∅ ((t.entries.map fun e => (e.1, e.2)).map fun e =>
    (⟨e.1, e.2⟩ : Σ _ : String, LoroValue))).lookup p = t.lookup p
  rw [hback, lookup_insertEach t.entries t.nodupKeys, AList.lookup_empty, Option.or_none]
  rfl

/-- What the stored map says about a property: the value of the event, or else the current
one. -/
theorem lookup_mergeAfter (stored : Option ValueOrContainer)
    (after : Option (Table String Value)) (p : String) :
    (currentProperties (some (mergeAfter stored after))).lookup p
      = (((after.getD ∅).lookup p).map grafeoValueToLval).or
          ((currentProperties stored).lookup p) := by
  unfold mergeAfter
  rw [lookup_currentProperties]
  -- the event is written over the current properties
  have hmerged := lookup_insertEach (mapValues grafeoValueToLval (after.getD ∅)).entries
    (mapValues grafeoValueToLval (after.getD ∅)).nodupKeys (currentProperties stored) p
  rw [hmerged]
  have hchanged := lookup_mapValues grafeoValueToLval (after.getD ∅) p
  exact congrArg (fun v : Option LoroValue => v.or _) hchanged

/-- A write of a bound node is the read-modify-write under its key. -/
theorem nodeWrite_result {event : ChangeEvent EntityChange} {id : NodeId} {key : String}
    {maps : BridgeMaps} (hwrite : IsNodeWrite event id)
    (hkey : maps.nodeKeyMap.lookup id = some key) (fails : Bool) (doc : LoroDoc) :
    applyChangeEventToLoro fails event doc maps
      = writeVertex fails key event.payload doc maps := by
  obtain ⟨hid, hkind⟩ := hwrite
  have harm : applyChangeEventToLoro fails event doc maps
      = applyNodeWrite fails id event.payload doc maps := by
    unfold applyChangeEventToLoro
    rw [hid]
    cases hkind with
    | inl hcreate => rw [hcreate]
    | inr hupdate => rw [hupdate]
  rw [harm, applyNodeWrite, hkey]

/-! ### What is kept -/

/-- The properties of an entry that is no vertex container are those that a write starts
from. -/
theorem vertexContents_plain {vertexOf : ContainerID → StoredVertex}
    {stored : Option ValueOrContainer}
    (hplain : ∀ cid, stored = some (.container cid) → cid.containerType ≠ .map) :
    vertexContents vertexOf stored =
      { VertexContents.empty with properties := (currentProperties stored).lookup } := by
  match stored, hplain with
  | none, _ => rfl
  | some (.value _), _ => rfl
  | some (.container cid), hplain =>
    rw [vertexContents, if_neg (hplain cid rfl)]
    rfl

section
variable (vertexOf : ContainerID → StoredVertex) {stored : Option ValueOrContainer}
variable {after : Option (Table String Value)}

/-- A property of the event has the value of the event. -/
theorem mergeAfter_written {p : String} {v : Value} (hp : (after.getD ∅).lookup p = some v) :
    (vertexContents vertexOf (some (mergeAfter stored after))).properties p
      = some (grafeoValueToLval v) := by
  show (currentProperties (some (mergeAfter stored after))).lookup p = _
  rw [lookup_mergeAfter, hp]
  rfl

/-- A property that the event does not have is that of the plain map, if there was one. -/
theorem mergeAfter_others {p : String} (hp : p ∉ after.getD ∅) :
    (vertexContents vertexOf (some (mergeAfter stored after))).properties p
      = (currentProperties stored).lookup p := by
  show (currentProperties (some (mergeAfter stored after))).lookup p = _
  rw [lookup_mergeAfter, AList.lookup_eq_none.mpr hp]
  rfl

/-- An entry that is no vertex container is kept. -/
theorem mergeAfter_keeps_plain
    (hplain : ∀ cid, stored = some (.container cid) → cid.containerType ≠ .map) :
    KeepsVertex (after.getD ∅) (vertexContents vertexOf stored)
      (vertexContents vertexOf (some (mergeAfter stored after))) := by
  rw [vertexContents_plain hplain]
  constructor
  case labels => exact fun label hlabel => hlabel
  case description => rfl
  case written => exact fun p v hp => mergeAfter_written vertexOf hp
  case others =>
    intro p v hnew hp
    rw [mergeAfter_others vertexOf hnew]
    exact hp

/-- A vertex container is kept exactly when it has nothing but what the event writes. -/
theorem mergeAfter_keeps_container (cid : ContainerID) :
    KeepsVertex (after.getD ∅) (vertexOf cid).contents
        (vertexContents vertexOf (some (mergeAfter (some (.container cid)) after))) ↔
      OnlyChanged (after.getD ∅) (vertexOf cid) := by
  constructor
  · intro hkeeps
    -- the plain map that is stored has no labels and no description
    refine ⟨?_, hkeeps.description.symm, ?_⟩
    · exact List.eq_nil_iff_forall_not_mem.mpr fun label hlabel =>
        List.not_mem_nil (hkeeps.labels label hlabel)
    · intro p hp
      by_contra hnew
      obtain ⟨v, hv⟩ := Option.isSome_iff_exists.mp (AList.lookup_isSome.mpr hp)
      have hbefore : (vertexOf cid).contents.properties p = some v.toLoroValue := by
        show ((vertexOf cid).properties.lookup p).map _ = _
        rw [hv]
        rfl
      -- the container is no plain map, so a property that the event does not have is gone
      have hstays := hkeeps.others p v.toLoroValue hnew hbefore
      rw [mergeAfter_others vertexOf hnew] at hstays
      cases hstays
  · intro honly
    obtain ⟨hlabels, hdescription, hprops⟩ := honly
    constructor
    case labels =>
      intro label hlabel
      change label ∈ (vertexOf cid).labels at hlabel
      rw [hlabels] at hlabel
      exact hlabel
    case description => exact hdescription.symm
    case written => exact fun p v hp => mergeAfter_written vertexOf hp
    case others =>
      intro p v hnew hp
      change ((vertexOf cid).properties.lookup p).map _ = _ at hp
      rw [AList.lookup_eq_none.mpr fun hin => hnew (hprops p hin)] at hp
      cases hp

end

/-- The merge keeps the vertex exactly when the entry it finds is no vertex container, or a
vertex container that has nothing but what the event writes. -/
theorem mergeAfter_keeps_iff (vertexOf : ContainerID → StoredVertex)
    (stored : Option ValueOrContainer) (after : Option (Table String Value)) :
    KeepsVertex (after.getD ∅) (vertexContents vertexOf stored)
        (vertexContents vertexOf (some (mergeAfter stored after))) ↔
      ∀ cid, stored = some (.container cid) → cid.containerType = .map →
        OnlyChanged (after.getD ∅) (vertexOf cid) := by
  by_cases hvertex : ∃ cid, stored = some (.container cid) ∧ cid.containerType = .map
  · obtain ⟨cid, rfl, hmap⟩ := hvertex
    rw [vertexContents, if_pos hmap, mergeAfter_keeps_container vertexOf cid]
    constructor
    · intro honly cid' hcid _
      obtain rfl : cid = cid' := by simpa using hcid
      exact honly
    · exact fun honly => honly cid rfl hmap
  · refine iff_of_true (mergeAfter_keeps_plain vertexOf fun cid hcid hmap => ?_)
      fun cid hcid hmap => ?_
    · exact hvertex ⟨cid, hcid, hmap⟩
    · exact absurd ⟨cid, hcid, hmap⟩ hvertex

/-- A node event that succeeds keeps the vertex exactly when the entry it finds is no vertex
container, or a vertex container without labels and description whose properties are all in
the event. One that fails changes nothing. -/
theorem outboundMerge_keeps_iff (vertexOf : ContainerID → StoredVertex) (fails : Bool)
    (event : ChangeEvent EntityChange) (id : NodeId) (key : String) (doc doc' : LoroDoc)
    (maps maps' : BridgeMaps) (res : Except GrafeoLoroError Unit)
    (hwrite : IsNodeWrite event id) (hkey : maps.nodeKeyMap.lookup id = some key)
    (happly : applyChangeEventToLoro fails event doc maps = (res, doc', maps')) :
    (res = .ok () →
      (KeepsVertex (event.payload.after.getD ∅)
          (vertexContents vertexOf (doc.vertices.lookup key))
          (vertexContents vertexOf (doc'.vertices.lookup key)) ↔
        ∀ cid, doc.vertices.lookup key = some (.container cid) → cid.containerType = .map →
          OnlyChanged (event.payload.after.getD ∅) (vertexOf cid))) ∧
    (res ≠ .ok () → doc' = doc ∧ maps' = maps) := by
  rw [nodeWrite_result hwrite hkey, writeVertex] at happly
  cases fails with
  | true =>
    -- Loro refuses the write
    obtain ⟨rfl, hrest⟩ := Prod.mk.inj happly
    obtain ⟨rfl, rfl⟩ := Prod.mk.inj hrest
    exact ⟨fun hok => (nomatch hok), fun _ => ⟨rfl, rfl⟩⟩
  | false =>
    obtain ⟨rfl, hrest⟩ := Prod.mk.inj happly
    obtain ⟨rfl, rfl⟩ := Prod.mk.inj hrest
    refine ⟨fun _ => ?_, fun hno => absurd rfl hno⟩
    have hentry := Finmap.lookup_insert doc.vertices
      (a := key) (b := mergeAfter (doc.vertices.lookup key) event.payload.after)
    rw [hentry]
    exact mergeAfter_keeps_iff vertexOf _ _

/-- The vertex container of the examples. -/
def vertexContainer : ContainerID := .normal 1 0 .map

/-- A document with one vertex, which the schema layer wrote. -/
def docWithVertex : LoroDoc := ⟨Finmap.singleton "alice" (.container vertexContainer), ∅⟩

/-- The id maps of a document with one vertex. -/
def mapsWithVertex : BridgeMaps := BridgeMaps.new.insertNode "alice" 0

/-- An update of the node `0` that writes `age`. -/
def ageUpdate : ChangeEvent EntityChange :=
  ⟨7, ⟨.node 0, .update, some (AList.singleton "age" (.int64 30)), none, none, none⟩⟩

/-- An update of a vertex that has only the written property keeps it. -/
theorem outboundMerge_keeps_age :
    KeepsVertex (AList.singleton "age" (.int64 30))
      (vertexContents (fun _ => ⟨⟨[], AList.singleton "age" (.integer 29)⟩, ""⟩)
        (docWithVertex.vertices.lookup "alice"))
      (vertexContents (fun _ => ⟨⟨[], AList.singleton "age" (.integer 29)⟩, ""⟩)
        ((applyChangeEventToLoro false ageUpdate docWithVertex mapsWithVertex).2.1.vertices.lookup
          "alice")) := by
  refine ((outboundMerge_keeps_iff (fun _ => ⟨⟨[], AList.singleton "age" (.integer 29)⟩, ""⟩)
    false ageUpdate 0 "alice" docWithVertex _ mapsWithVertex _ _ ⟨rfl, .inr rfl⟩
    (by decide) rfl).1 rfl).mpr ?_
  intro cid hcid _
  refine ⟨rfl, rfl, fun p hp => ?_⟩
  exact hp

/-- The same update of a vertex with a label drops the label, the other property and the
description. -/
theorem outboundMerge_drops_vertex :
    (applyChangeEventToLoro false ageUpdate docWithVertex mapsWithVertex).1 = .ok () ∧
      ¬ KeepsVertex (AList.singleton "age" (.int64 30))
        (vertexContents (fun _ => ⟨⟨["Person"], AList.singleton "name" (.string "Alice")⟩, "hi"⟩)
          (docWithVertex.vertices.lookup "alice"))
        (vertexContents (fun _ => ⟨⟨["Person"], AList.singleton "name" (.string "Alice")⟩, "hi"⟩)
          ((applyChangeEventToLoro false ageUpdate docWithVertex
            mapsWithVertex).2.1.vertices.lookup "alice")) := by
  refine ⟨rfl, fun hkeeps => ?_⟩
  have hlabel := hkeeps.labels "Person" List.mem_cons_self
  exact List.not_mem_nil hlabel

end GrafeoLoro.Proofs
