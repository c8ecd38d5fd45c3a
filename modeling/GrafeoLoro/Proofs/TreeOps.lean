import GrafeoLoro.Lib.Acyclic
import GrafeoLoro.Proofs.Bijection

/-!
# `GrafeoLoro.Proofs.TreeOps`: tree moves on the apply path

`apply_tree_move` unbinds one `CHILD` edge into the node and binds another one. It never looks
at the other edges. `TreeEdge` is the relation of the bound `CHILD` edges on the keys.

* `treeEdge_applyTreeMove`: the relation after a move.
* `treeOps_acyclic_iff`: in every run of vertex ops and moves, the relation is acyclic in every
  state exactly when no move puts a node under itself or under one of its descendants.
* `treeOps_cycle`: two moves that close a cycle.
-/

set_option autoImplicit false

namespace GrafeoLoro.Proofs

open GrafeoLoro GrafeoLoro.Lib Relation

/-! ### The recorded tree -/

/-- A `CHILD` edge from `parent` to `child` is bound. -/
def TreeEdge (maps : BridgeMaps) (parent child : String) : Prop :=
  maps.edgeIdMap.lookup (parent, child, treeEdgeLabel) ≠ none

instance (maps : BridgeMaps) (parent child : String) : Decidable (TreeEdge maps parent child) :=
  inferInstanceAs (Decidable (_ ≠ none))

/-- The op is an `UpsertNode`, a `DeleteNode` or a `TreeMove`. -/
def TreeOp : LoroOp → Prop
  | .upsertNode _ _ _ | .deleteNode _ | .treeMove _ _ _ => True
  | _ => False

/-- The op, when it moves a node, does not move it under itself or under a descendant. A move
without the node or the new parent does nothing. -/
def NotUnderDescendant (b : Bridge) : LoroOp → Prop
  | .treeMove nodeKey _ newParentKey =>
    b.maps.nodeIdMap.lookup nodeKey ≠ none → b.maps.nodeIdMap.lookup newParentKey ≠ none →
      ¬ ReflTransGen (TreeEdge b.maps) nodeKey newParentKey
  | _ => True

/-- One op is one step. -/
def opNext (fault : Nat → Bool) (b : Bridge) (op : LoroOp) : Option Bridge :=
  some (applyLoroOp fault op b).2

/-! ### One move -/

/-- The bound keys after a delete of an edge. -/
theorem edgeIdMap_applyDeleteEdge (b : Bridge) (gone key : EdgeKey) :
    (applyDeleteEdge gone b).maps.edgeIdMap.lookup key ≠ none ↔
      b.maps.edgeIdMap.lookup key ≠ none ∧ key ≠ gone := by
  rw [applyDeleteEdge_maps]
  unfold BridgeMaps.removeEdge
  split
  · rename_i hgone
    by_cases hkey : key = gone
    · subst hkey
      simp [hgone]
    · simp [hkey]
  · by_cases hkey : key = gone
    · simp [hkey]
    · simp [hkey]

/-- The bound keys after a move: the key of the old edge goes, and then the key of the new edge
comes. -/
theorem edgeIdMap_applyTreeMove {b : Bridge} {node oldParent newParent : String}
    (hnode : b.maps.nodeIdMap.lookup node ≠ none)
    (hnew : b.maps.nodeIdMap.lookup newParent ≠ none) (key : EdgeKey) :
    (applyTreeMove node oldParent newParent b).maps.edgeIdMap.lookup key ≠ none ↔
      (b.maps.edgeIdMap.lookup key ≠ none ∧ key ≠ (oldParent, node, treeEdgeLabel)) ∨
        key = (newParent, node, treeEdgeLabel) := by
  -- the state between the delete and the insert
  rw [← edgeIdMap_applyDeleteEdge]
  unfold applyTreeMove
  split
  · dsimp only
    split
    · -- the new edge is bound already
      rename_i eid hbound
      by_cases hkey : key = (newParent, node, treeEdgeLabel)
      · subst hkey
        simp [hbound]
      · simp [hkey]
    · show ((applyDeleteEdge (oldParent, node, treeEdgeLabel) b).maps.edgeIdMap.insert
        (newParent, node, treeEdgeLabel) _).lookup key ≠ none ↔ _
      rw [finmap_lookup_insert]
      by_cases hkey : key = (newParent, node, treeEdgeLabel)
      · simp [hkey]
      · simp [hkey]
  · rename_i hunbound
    obtain ⟨nodeId, hnode⟩ := Option.ne_none_iff_exists'.mp hnode
    obtain ⟨newId, hnew⟩ := Option.ne_none_iff_exists'.mp hnew
    exact absurd hnew (hunbound nodeId newId hnode)

/-- The tree after a move. -/
theorem treeEdge_applyTreeMove {b : Bridge} {node oldParent newParent : String}
    (hnode : b.maps.nodeIdMap.lookup node ≠ none)
    (hnew : b.maps.nodeIdMap.lookup newParent ≠ none) (parent child : String) :
    TreeEdge (applyTreeMove node oldParent newParent b).maps parent child ↔
      (TreeEdge b.maps parent child ∧ ¬ (parent = oldParent ∧ child = node)) ∨
        parent = newParent ∧ child = node := by
  have hkeys : TreeEdge (applyTreeMove node oldParent newParent b).maps parent child ↔ _ :=
    edgeIdMap_applyTreeMove hnode hnew (parent, child, treeEdgeLabel)
  simpa [TreeEdge] using hkeys

/-- A move keeps the tree acyclic exactly when the node does not reach the new parent. -/
theorem acyclic_applyTreeMove_iff {b : Bridge} (h : Acyclic (TreeEdge b.maps))
    {node oldParent newParent : String} (hnode : b.maps.nodeIdMap.lookup node ≠ none)
    (hnew : b.maps.nodeIdMap.lookup newParent ≠ none) :
    Acyclic (TreeEdge (applyTreeMove node oldParent newParent b).maps) ↔
      ¬ ReflTransGen (TreeEdge b.maps) node newParent := by
  have hmove : TreeEdge (applyTreeMove node oldParent newParent b).maps
      = fun parent child =>
        (TreeEdge b.maps parent child ∧ ¬ (parent = oldParent ∧ child = node)) ∨
          parent = newParent ∧ child = node := by
    funext parent child
    exact propext (treeEdge_applyTreeMove hnode hnew parent child)
  rw [hmove]
  -- a move takes edges into the node away only
  apply acyclic_move_iff h
  · exact fun parent child hedge => hedge.1
  · exact fun parent child hedge hne => ⟨hedge, fun heq => hne heq.2⟩

/-! ### Runs -/

/-- An op keeps the tree acyclic exactly when it moves no node under itself or a descendant. -/
theorem acyclic_applyLoroOp_iff {b : Bridge} (h : Acyclic (TreeEdge b.maps))
    (fault : Nat → Bool) {op : LoroOp} (hop : TreeOp op) :
    Acyclic (TreeEdge (applyLoroOp fault op b).2.maps) ↔ NotUnderDescendant b op := by
  cases op with
  | upsertNode key labels properties =>
    -- vertex ops leave the edge maps alone
    have hsame := (applyUpsertNode_binds fault key labels properties b).2.1
    apply iff_of_true _ trivial
    show Acyclic (TreeEdge (applyUpsertNode fault key labels properties b).2.maps)
    unfold TreeEdge
    rw [hsame]
    exact h
  | deleteNode key =>
    have hsame := (removeNode_edgeMaps key b.maps).1
    rw [← applyDeleteNode_maps] at hsame
    apply iff_of_true _ trivial
    show Acyclic (TreeEdge (applyDeleteNode key b).maps)
    unfold TreeEdge
    rw [hsame]
    exact h
  | treeMove node oldParent newParent =>
    show Acyclic (TreeEdge (applyTreeMove node oldParent newParent b).maps) ↔
      (_ → _ → ¬ ReflTransGen (TreeEdge b.maps) node newParent)
    by_cases hnode : b.maps.nodeIdMap.lookup node = none
    · rw [applyTreeMove_unbound (.inl hnode)]
      exact iff_of_true h fun hbound => absurd hnode hbound
    · by_cases hnew : b.maps.nodeIdMap.lookup newParent = none
      · rw [applyTreeMove_unbound (.inr hnew)]
        exact iff_of_true h fun _ hbound => absurd hnew hbound
      · rw [acyclic_applyTreeMove_iff h hnode hnew]
        exact ⟨fun hno _ _ => hno, fun hno => hno hnode hnew⟩
  | upsertEdge src dst label properties => exact False.elim hop
  | deleteEdge src dst label => exact False.elim hop

/-- In every run of `UpsertNode`, `DeleteNode` and `TreeMove` from the empty bridge, the tree is
acyclic in every state exactly when no move of the run puts a node under itself or under a
descendant. -/
theorem treeOps_acyclic_iff (fault : Nat → Bool) (h : List (Bridge × LoroOp)) (t : Bridge)
    (hrun : Exec (opNext fault) Bridge.empty h t) (hops : Steps (fun _ op => TreeOp op) h) :
    Always (fun b => Acyclic (TreeEdge b.maps)) h t ↔ Steps NotUnderDescendant h := by
  have hempty : Acyclic (TreeEdge Bridge.empty.maps) :=
    Acyclic.of_rank (fun _ => 0) fun parent child hedge => absurd rfl hedge
  exact hrun.always_iff (I := fun _ => True) (G := fun _ op => TreeOp op)
    (fun _ _ _ _ _ _ => trivial) trivial hempty
    (fun b op b' hstep hop _ hacyclic => by
      obtain rfl := Option.some.inj hstep
      exact acyclic_applyLoroOp_iff hacyclic fault hop) hops

/-- Two vertices, one moved under the other. -/
theorem treeOps_one_move :
    ∃ h t, Exec (opNext fun _ => false) Bridge.empty h t ∧
      h.map Prod.snd = [.upsertNode "a" [] ∅, .upsertNode "b" [] ∅, .treeMove "a" "" "b"] ∧
      TreeEdge t.maps "b" "a" ∧ Always (fun b => Acyclic (TreeEdge b.maps)) h t := by
  have hrun : Exec (opNext fun _ => false) Bridge.empty _ _ :=
    Exec.snoc (Exec.snoc (Exec.snoc .nil (a := .upsertNode "a" [] ∅) rfl)
      (a := .upsertNode "b" [] ∅) rfl) (a := .treeMove "a" "" "b") rfl
  refine ⟨_, _, hrun, rfl, by decide, (treeOps_acyclic_iff _ _ _ hrun ?_).mpr ?_⟩
  · exact steps_snoc.mpr ⟨steps_snoc.mpr ⟨steps_snoc.mpr ⟨steps_nil, trivial⟩, trivial⟩, trivial⟩
  · refine steps_snoc.mpr ⟨steps_snoc.mpr ⟨steps_snoc.mpr ⟨steps_nil, trivial⟩, trivial⟩, ?_⟩
    -- no edge is bound yet
    intro _ _ hpath
    cases hpath.cases_head with
    | inl heq => exact absurd heq (by decide)
    | inr hstep =>
      obtain ⟨child, hedge, -⟩ := hstep
      exact absurd rfl hedge

/-- A vertex moves under another one, and that one under the first. -/
theorem treeOps_cycle :
    ∃ h t, Exec (opNext fun _ => false) Bridge.empty h t ∧
      h.map Prod.snd = [.upsertNode "a" [] ∅, .upsertNode "b" [] ∅, .treeMove "a" "" "b",
        .treeMove "b" "" "a"] ∧
      Steps (fun _ op => TreeOp op) h ∧ ¬ Acyclic (TreeEdge t.maps) := by
  have hrun : Exec (opNext fun _ => false) Bridge.empty _ _ :=
    Exec.snoc (Exec.snoc (Exec.snoc (Exec.snoc .nil (a := .upsertNode "a" [] ∅) rfl)
      (a := .upsertNode "b" [] ∅) rfl) (a := .treeMove "a" "" "b") rfl)
      (a := .treeMove "b" "" "a") rfl
  refine ⟨_, _, hrun, rfl, ?_, fun hacyclic => hacyclic "a" ?_⟩
  · exact steps_snoc.mpr ⟨steps_snoc.mpr ⟨steps_snoc.mpr ⟨steps_snoc.mpr ⟨steps_nil, trivial⟩,
      trivial⟩, trivial⟩, trivial⟩
  · exact (TransGen.single (b := "b") (by decide)).tail (by decide)

end GrafeoLoro.Proofs
