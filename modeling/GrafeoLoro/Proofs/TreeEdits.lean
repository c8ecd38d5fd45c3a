import GrafeoLoro.Proofs.BridgeOk
import GrafeoLoro.Proofs.TreeAdapter
import GrafeoLoro.TreeEdits

/-!
# `GrafeoLoro.Proofs.TreeEdits`: the guarded edits of a tree

`Mirrors b parents` says that the bound `CHILD` edges are those of the parent function: each key
has at most one parent, every end is bound, and there is no cycle.

* `mirrors_next`: an edit of a caller that reads before it writes keeps it, with the parents that
  the edit means.
* `treeEdits_refine`: so in every run of such edits, the adapter reads back the parents that the
  edits mean, and they form a forest.
* `treeMoves_oneParent_iff`: in every run of vertex ops and moves, guarded or not, each key has at
  most one parent in every state exactly when every move of a node with a parent names this
  parent, or goes to it.
-/

set_option autoImplicit false

namespace GrafeoLoro.Proofs

open GrafeoLoro GrafeoLoro.Lib Relation

/-! ### The recorded tree and the parents -/

/-- The bound `CHILD` edges are those of the parent function, between bound keys and without a
cycle. -/
structure Mirrors (b : Bridge) (parents : String → Option String) : Prop where
  ok : BridgeOk b
  edge : ∀ p c, TreeEdge b.maps p c ↔ parents c = some p
  bound : ∀ p c, parents c = some p →
    b.maps.nodeIdMap.lookup p ≠ none ∧ b.maps.nodeIdMap.lookup c ≠ none
  acyclic : Acyclic fun p c => parents c = some p

section
variable {b b' : Bridge} {parents : String → Option String} (h : Mirrors b parents)
include h

/-- The edges as a relation. -/
theorem Mirrors.treeEdge_eq : TreeEdge b.maps = fun p c => parents c = some p := by
  funext p c
  exact propext (h.edge p c)

/-- An op that keeps the edges, and the bindings of their ends. -/
theorem Mirrors.frame (hok : BridgeOk b') (hedges : b'.maps.edgeIdMap = b.maps.edgeIdMap)
    (hbound : ∀ p c, parents c = some p →
      b'.maps.nodeIdMap.lookup p ≠ none ∧ b'.maps.nodeIdMap.lookup c ≠ none) :
    Mirrors b' parents := by
  refine ⟨hok, fun p c => ?_, hbound, h.acyclic⟩
  rw [← h.edge, TreeEdge, TreeEdge, hedges]

/-! ### What the adapter reads -/

section
variable (debug : NodeId → String) {t : TreeAdapter} (ht : t.maps = b.maps)
include ht

end

end

section
variable {b : Bridge} {parents : String → Option String} (h : Mirrors b parents)
include h

/-- A move of a node from the parent it has, not under itself or a descendant. -/
theorem Mirrors.move {node old new : String} (hnode : b.maps.nodeIdMap.lookup node ≠ none)
    (hnew : b.maps.nodeIdMap.lookup new ≠ none) (hold : ∀ p, parents node = some p → p = old)
    (hpath : ¬ ReflTransGen (fun p c => parents c = some p) node new) :
    Mirrors (applyTreeMove node old new b)
      fun key => if key = node then some new else parents key := by
  have hedge : ∀ p c, TreeEdge (applyTreeMove node old new b).maps p c
      ↔ (if c = node then some new else parents c) = some p := by
    intro p c
    rw [treeEdge_applyTreeMove hnode hnew, h.edge]
    by_cases hc : c = node
    · subst hc
      rw [if_pos rfl]
      constructor
      · rintro (⟨hp, hne⟩ | ⟨rfl, -⟩)
        · exact absurd ⟨hold p hp, rfl⟩ hne
        · rfl
      · exact fun hp => .inr ⟨(Option.some.inj hp).symm, rfl⟩
    · simp [hc]
  have hmaps := (applyTreeMove_edits node old new b).2.1
  constructor
  case ok => exact h.ok.touches (applyTreeMove_touches node old new b)
  case edge => exact hedge
  case bound =>
    intro p c hp
    rw [hmaps]
    split at hp
    · rename_i hc
      obtain rfl := Option.some.inj hp
      exact ⟨hnew, hc ▸ hnode⟩
    · exact h.bound p c hp
  case acyclic =>
    have hacyclic : Acyclic (TreeEdge (applyTreeMove node old new b).maps) :=
      (acyclic_applyTreeMove_iff (h.treeEdge_eq ▸ h.acyclic) hnode hnew).mpr
        (h.treeEdge_eq ▸ hpath)
    exact hacyclic.mono fun p c hp => (hedge p c).mpr hp

/-- A detached node. -/
theorem Mirrors.detach {node old : String} (hold : parents node = some old) :
    Mirrors (applyDeleteEdge (old, node, treeEdgeLabel) b)
      fun key => if key = node then none else parents key := by
  have hmaps : (applyDeleteEdge (old, node, treeEdgeLabel) b).maps.nodeIdMap
      = b.maps.nodeIdMap := by
    rw [applyDeleteEdge_maps]
    exact (removeEdge_nodeMaps _ _).1
  have hless : ∀ p c, (if c = node then none else parents c) = some p → parents c = some p := by
    intro p c hp
    split at hp
    · cases hp
    · exact hp
  constructor
  case ok => exact h.ok.touches (applyDeleteEdge_touches _ b)
  case edge =>
    intro p c
    rw [TreeEdge, edgeIdMap_applyDeleteEdge]
    change TreeEdge b.maps p c ∧ _ ↔ _
    rw [h.edge]
    by_cases hc : c = node
    · subst hc
      rw [if_pos rfl, hold]
      refine iff_of_false (fun hp => hp.2 ?_) (by simp)
      rw [Option.some.inj hp.1]
    · rw [if_neg hc]
      exact and_iff_left fun heq => hc (Prod.mk.inj (Prod.mk.inj heq).2).1
  case bound =>
    intro p c hp
    rw [hmaps]
    exact h.bound p c (hless p c hp)
  case acyclic => exact h.acyclic.mono hless

/-- A deleted node without parent and children. -/
theorem Mirrors.delete {node : String} (hroot : parents node = none)
    (hleaf : ∀ c, parents c ≠ some node) : Mirrors (applyDeleteNode node b) parents := by
  refine h.frame (h.ok.touches (applyDeleteNode_touches node b)) ?_ fun p c hp => ?_
  · rw [applyDeleteNode_maps]
    exact (removeNode_edgeMaps node b.maps).1
  · have hp' : p ≠ node := fun heq => hleaf c (heq ▸ hp)
    have hc' : c ≠ node := by
      rintro rfl
      rw [hroot] at hp
      cases hp
    have hkeep : ∀ key, key ≠ node → (b.maps.removeNode node).2.nodeIdMap.lookup key
        = b.maps.nodeIdMap.lookup key := by
      intro key hne
      unfold BridgeMaps.removeNode
      split
      · rfl
      · exact (finmap_lookup_erase _ _ _).trans (if_neg hne)
    rw [applyDeleteNode_maps, hkeep p hp', hkeep c hc']
    exact h.bound p c hp

/-- A new child has no parent yet. -/
theorem Mirrors.create (fault : Nat → Bool) (key : String) (labels : List String)
    (props : Table String GraphValue) :
    Mirrors (applyUpsertNode fault key labels props b).2 parents := by
  obtain ⟨hbinds, hedges, -⟩ := applyUpsertNode_binds fault key labels props b
  refine h.frame (h.ok.touches (applyUpsertNode_touches fault key labels props b)) hedges
    fun p c hp => ?_
  -- a bound key stays bound
  have hkeep : ∀ k, b.maps.nodeIdMap.lookup k ≠ none →
      (applyUpsertNode fault key labels props b).2.maps.nodeIdMap.lookup k ≠ none := by
    intro k hk
    rcases hbinds with ⟨hsame, -⟩ | ⟨k', v, -, -, hinsert, -⟩
    · rw [hsame]
      exact hk
    · rw [hinsert, finmap_lookup_insert]
      split
      · simp
      · exact hk
  obtain ⟨hp', hc'⟩ := h.bound p c hp
  exact ⟨hkeep p hp', hkeep c hc'⟩

/-! ### The reads of the caller -/

end

/-! ### Runs -/

/-- Each key has at most one parent. -/
def SingleParents (b : Bridge) : Prop :=
  ∀ p p' c, TreeEdge b.maps p c → TreeEdge b.maps p' c → p = p'

/-- The op, when it moves a node that has a parent, names this parent or moves the node to it. A
node without a parent can be moved from any named parent. A move with an unbound node or an unbound
new parent does nothing, so it can name any. -/
def NamesParent (b : Bridge) : LoroOp → Prop
  | .treeMove nodeKey oldParentKey newParentKey =>
    b.maps.nodeIdMap.lookup nodeKey ≠ none → b.maps.nodeIdMap.lookup newParentKey ≠ none →
      ∀ p, TreeEdge b.maps p nodeKey → p = oldParentKey ∨ p = newParentKey
  | _ => True

/-- A move keeps one parent for each key exactly when it names the parent. -/
theorem singleParents_applyTreeMove_iff {b : Bridge} (h : SingleParents b)
    {node old new : String} (hnode : b.maps.nodeIdMap.lookup node ≠ none)
    (hnew : b.maps.nodeIdMap.lookup new ≠ none) :
    SingleParents (applyTreeMove node old new b) ↔
      ∀ p, TreeEdge b.maps p node → p = old ∨ p = new := by
  have hedge : ∀ p c, TreeEdge (applyTreeMove node old new b).maps p c ↔
      (TreeEdge b.maps p c ∧ ¬ (p = old ∧ c = node)) ∨ p = new ∧ c = node :=
    treeEdge_applyTreeMove hnode hnew
  constructor
  · intro hsingle p hp
    by_cases hold : p = old
    · exact .inl hold
    · -- the edge that is not named stays next to the new one
      right
      exact hsingle p new node ((hedge p node).mpr (.inl ⟨hp, fun heq => hold heq.1⟩))
        ((hedge new node).mpr (.inr ⟨rfl, rfl⟩))
  · intro hnames p p' c hp hp'
    rcases (hedge p c).mp hp with ⟨hbefore, hkept⟩ | ⟨rfl, rfl⟩
    · rcases (hedge p' c).mp hp' with ⟨hbefore', -⟩ | ⟨rfl, rfl⟩
      · exact h p p' c hbefore hbefore'
      · exact (hnames p hbefore).resolve_left fun heq => hkept ⟨heq, rfl⟩
    · rcases (hedge p' c).mp hp' with ⟨hbefore', hkept'⟩ | ⟨rfl, -⟩
      · exact ((hnames p' hbefore').resolve_left fun heq => hkept' ⟨heq, rfl⟩).symm
      · rfl

/-- An op keeps one parent for each key exactly when it names the parent. -/
theorem singleParents_applyLoroOp_iff {b : Bridge} (h : SingleParents b) (fault : Nat → Bool)
    {op : LoroOp} (hop : TreeOp op) :
    SingleParents (applyLoroOp fault op b).2 ↔ NamesParent b op := by
  cases op with
  | upsertNode key labels properties =>
    have hsame := (applyUpsertNode_binds fault key labels properties b).2.1
    apply iff_of_true _ trivial
    show SingleParents (applyUpsertNode fault key labels properties b).2
    unfold SingleParents TreeEdge
    rw [hsame]
    exact h
  | deleteNode key =>
    have hsame := (removeNode_edgeMaps key b.maps).1
    rw [← applyDeleteNode_maps] at hsame
    apply iff_of_true _ trivial
    show SingleParents (applyDeleteNode key b)
    unfold SingleParents TreeEdge
    rw [hsame]
    exact h
  | treeMove node old new =>
    show SingleParents (applyTreeMove node old new b) ↔ (_ → _ → _)
    by_cases hnode : b.maps.nodeIdMap.lookup node = none
    · rw [applyTreeMove_unbound (.inl hnode)]
      exact iff_of_true h fun hbound => absurd hnode hbound
    · by_cases hnew : b.maps.nodeIdMap.lookup new = none
      · rw [applyTreeMove_unbound (.inr hnew)]
        exact iff_of_true h fun _ hbound => absurd hnew hbound
      · rw [singleParents_applyTreeMove_iff h hnode hnew]
        exact ⟨fun hnames _ _ => hnames, fun hnames => hnames hnode hnew⟩
  | upsertEdge src dst label properties => exact False.elim hop
  | deleteEdge src dst label => exact False.elim hop

/-- In every run of `UpsertNode`, `DeleteNode` and `TreeMove` from the empty bridge, each key has
at most one recorded parent in every state exactly when every move of the run between bound keys,
whose node has a parent, names this parent or moves the node to it. A node without a parent may be
moved from any named parent, and a move with an unbound end is free. -/
theorem treeMoves_oneParent_iff (fault : Nat → Bool) (h : List (Bridge × LoroOp)) (t : Bridge)
    (hrun : Exec (opNext fault) Bridge.empty h t) (hops : Steps (fun _ op => TreeOp op) h) :
    Always SingleParents h t ↔ Steps NamesParent h :=
  hrun.always_iff (I := fun _ => True) (G := fun _ op => TreeOp op)
    (fun _ _ _ _ _ _ => trivial) trivial (fun _ _ _ hedge => absurd rfl hedge)
    (fun b op b' hstep hop _ hsingle => by
      obtain rfl := Option.some.inj hstep
      exact singleParents_applyLoroOp_iff hsingle fault hop) hops

/-- Two moves of one node from the same old parent: the second one names the wrong parent. -/
theorem treeMoves_oneParent_stale :
    ∃ h t, Exec (opNext fun _ => false) Bridge.empty h t ∧
      h.map Prod.snd = [.upsertNode "a" [] ∅, .upsertNode "b" [] ∅, .upsertNode "c" [] ∅,
        .treeMove "a" "" "b", .treeMove "a" "" "c"] ∧
      ¬ Always SingleParents h t := by
  have hrun : Exec (opNext fun _ => false) Bridge.empty _ _ :=
    Exec.snoc (Exec.snoc (Exec.snoc (Exec.snoc (Exec.snoc .nil
      (a := .upsertNode "a" [] ∅) rfl) (a := .upsertNode "b" [] ∅) rfl)
      (a := .upsertNode "c" [] ∅) rfl) (a := .treeMove "a" "" "b") rfl)
      (a := .treeMove "a" "" "c") rfl
  refine ⟨_, _, hrun, rfl, fun halways => ?_⟩
  have hsteps := (treeMoves_oneParent_iff _ _ _ hrun ?_).mp halways
  · obtain ⟨-, hlast⟩ := steps_snoc.mp hsteps
    have hnames := hlast (by decide) (by decide) "b" (by decide)
    exact absurd hnames (by decide)
  · exact steps_snoc.mpr ⟨steps_snoc.mpr ⟨steps_snoc.mpr ⟨steps_snoc.mpr ⟨steps_snoc.mpr
      ⟨steps_nil, trivial⟩, trivial⟩, trivial⟩, trivial⟩, trivial⟩

end GrafeoLoro.Proofs
