import GrafeoLoro.Proofs.TreeMove

/-!
# `GrafeoLoro.Proofs.CycleCheck`: which moves are rejected as cycles

The search of `would_create_cycle_in_tx` is documented to follow `CHILD` edges. It calls
`get_neighbors_incoming`, which returns the edges of every label.

* `rejectsCycles_iff`: a move is rejected exactly when its new parent is at or below its node in
  the tree, if and only if edges of other labels add no such path.
* `knows_edge_rejected`: an edge of another label that makes a move fail.
-/

set_option autoImplicit false

namespace GrafeoLoro.Proofs

open GrafeoLoro GrafeoLoro.Lib
open Relation (ReflTransGen TransGen)

variable {debug : NodeId → String} {fault : Nat → Bool} {store : Store}
  {nodeId oldParent newParent : NodeId}

/-- The move is rejected as a cycle exactly when its new parent is the node or is reachable from
it along `CHILD` edges, and a move that fails leaves the graph as it was. -/
def RejectsCycles (debug : NodeId → String) (fault : Nat → Bool)
    (nodeId oldParent newParent : NodeId) (store : Store) : Prop :=
  let moved := syncTreeMoveToGrafeo debug fault nodeId oldParent newParent store
  (moved.1 = .error (.treeMoveCreatesCycle nodeId newParent) ↔
    ReflTransGen (Child store) nodeId newParent) ∧
  ∀ e, moved.1 = .error e → moved.2.nodes = store.nodes ∧ moved.2.edges = store.edges

/-- The probe lets a move of existing nodes between two parents through. -/
theorem probeTreeMove_none (hnode : nodeExists store nodeId = true)
    (hparent : nodeExists store newParent = true) (hne : oldParent ≠ newParent) :
    probeTreeMove debug nodeId oldParent newParent store = none := by
  simp [probeTreeMove, hnode, hparent, hne]

/-- A move that has begun its transaction fails the cycle check and stops there, or passes it and
goes on to its writes, after which it does not report a cycle any more. -/
theorem syncTreeMove_cases (hprobe : probeTreeMove debug nodeId oldParent newParent store = none)
    (hbegin : fault store.calls = false) :
    (wouldCreateCycleInTx store nodeId newParent = true ∧
      syncTreeMoveToGrafeo debug fault nodeId oldParent newParent store
        = (.error (.treeMoveCreatesCycle nodeId newParent), store.tick)) ∨
    (wouldCreateCycleInTx store nodeId newParent = false ∧
      (syncTreeMoveToGrafeo debug fault nodeId oldParent newParent store).1
        ≠ .error (.treeMoveCreatesCycle nodeId newParent)) := by
  have hcheck : wouldCreateCycleInTx store.tick nodeId newParent
      = wouldCreateCycleInTx store nodeId newParent := rfl
  cases hcycle : wouldCreateCycleInTx store nodeId newParent with
  | true => simp [syncTreeMoveToGrafeo, hprobe, call, hbegin, hcheck, hcycle]
  | false =>
    refine .inr ⟨rfl, ?_⟩
    simp only [syncTreeMoveToGrafeo, hprobe, call, hbegin, Bool.false_eq_true, if_false, id, hcheck,
      hcycle, prepareCommit, commit]
    generalize reparent (oldParentEdge store.tick oldParent nodeId) nodeId newParent store.tick
      = written
    by_cases hprepare : fault written.calls
    · simp [hprepare]
    · by_cases hcommit : fault written.tick.calls
      · simp [hprepare, hcommit]
      · simp [hprepare, hcommit]

@[simp] theorem tick_nodes (store : Store) : store.tick.nodes = store.nodes := rfl

@[simp] theorem tick_edges (store : Store) : store.tick.edges = store.edges := rfl

@[simp] theorem rollback_nodes (before after : Store) :
    (before.rollback after).nodes = before.nodes := rfl

@[simp] theorem rollback_edges (before after : Store) :
    (before.rollback after).edges = before.edges := rfl

/-- Every failure of a move leaves the graph as it was: the session is dropped. -/
theorem syncTreeMove_error {e : GrafeoLoroError}
    (h : (syncTreeMoveToGrafeo debug fault nodeId oldParent newParent store).1 = .error e) :
    (syncTreeMoveToGrafeo debug fault nodeId oldParent newParent store).2.nodes = store.nodes ∧
      (syncTreeMoveToGrafeo debug fault nodeId oldParent newParent store).2.edges
        = store.edges := by
  cases hprobe : probeTreeMove debug nodeId oldParent newParent store with
  | some res => simp [syncTreeMoveToGrafeo, hprobe]
  | none =>
    simp only [syncTreeMoveToGrafeo, hprobe, call, prepareCommit, commit, id] at h ⊢
    by_cases hbegin : fault store.calls
    · simp [hbegin]
    · simp only [hbegin, Bool.false_eq_true, if_false] at h ⊢
      cases hcycle : wouldCreateCycleInTx store.tick nodeId newParent with
      | true => simp
      | false =>
        simp only [hcycle, Bool.false_eq_true, if_false] at h ⊢
        generalize reparent (oldParentEdge store.tick oldParent nodeId) nodeId newParent
          store.tick = written at h ⊢
        by_cases hprepare : fault written.calls
        · simp [hprepare]
        · by_cases hcommit : fault written.tick.calls
          · simp [hprepare, hcommit]
          · simp [hprepare, hcommit] at h

/-- A begun move is rejected as a cycle exactly when its new parent is the node or is reachable
from it along edges of any label. -/
theorem syncTreeMove_cycle_iff
    (hprobe : probeTreeMove debug nodeId oldParent newParent store = none)
    (hbegin : fault store.calls = false) :
    (syncTreeMoveToGrafeo debug fault nodeId oldParent newParent store).1
        = .error (.treeMoveCreatesCycle nodeId newParent) ↔
      ReflTransGen (Linked store) nodeId newParent := by
  rw [← wouldCreateCycleInTx_iff]
  rcases syncTreeMove_cases hprobe hbegin with ⟨hcycle, heq⟩ | ⟨hcycle, hne⟩
  · simp [hcycle, heq]
  · simp [hcycle, hne]

theorem childPath_linked (h : ReflTransGen (Child store) nodeId newParent) :
    ReflTransGen (Linked store) nodeId newParent :=
  ReflTransGen.mono (fun _ _ => Child.linked) _ _ h

/-- The check of a move is as documented exactly when a path of edges of any label from the node
to the new parent comes with a path of `CHILD` edges. -/
theorem rejectsCycles_iff (hnode : nodeExists store nodeId = true)
    (hparent : nodeExists store newParent = true) (hne : oldParent ≠ newParent)
    (hbegin : fault store.calls = false) :
    RejectsCycles debug fault nodeId oldParent newParent store ↔
      (ReflTransGen (Linked store) nodeId newParent →
        ReflTransGen (Child store) nodeId newParent) := by
  have hprobe : probeTreeMove debug nodeId oldParent newParent store = none :=
    probeTreeMove_none hnode hparent hne
  show (_ ↔ _) ∧ _ ↔ _
  rw [syncTreeMove_cycle_iff hprobe hbegin]
  constructor
  · intro hexact
    exact hexact.1.mp
  · intro hlabels
    exact ⟨⟨hlabels, childPath_linked⟩, fun e he => syncTreeMove_error he⟩

/-- The root of a tree cannot go under one of its children. -/
theorem rejectsCycles_iff_root :
    RejectsCycles (fun _ => "") (fun _ => false) 0 2 1 twoSiblings ∧
      ReflTransGen (Child twoSiblings) 0 1 := by
  have hchild : ReflTransGen (Child twoSiblings) 0 1 :=
    .single ⟨0, ⟨0, 1, treeEdgeLabel, ∅⟩, rfl, rfl, rfl, rfl⟩
  exact ⟨(rejectsCycles_iff (by decide) (by decide) (by decide) rfl).mpr fun _ => hchild, hchild⟩

/-- Three nodes without a tree edge, where `0` knows `1`. -/
def knowsPair : Store :=
  (((Store.empty.addNode [] []).addNode [] []).addNode [] []).addEdge 0 1 "KNOWS" []

/-- The node `0` is the root of nothing, and its move under `1` is rejected as a cycle. -/
theorem knows_edge_rejected :
    nodeExists knowsPair 0 = true ∧ nodeExists knowsPair 1 = true ∧
      (syncTreeMoveToGrafeo (fun _ => "") (fun _ => false) 0 2 1 knowsPair).1
        = .error (.treeMoveCreatesCycle 0 1) ∧
      ¬ ReflTransGen (Child knowsPair) 0 1 ∧
      ¬ RejectsCycles (fun _ => "") (fun _ => false) 0 2 1 knowsPair := by
  have hlinked : ReflTransGen (Linked knowsPair) 0 1 :=
    .single ⟨0, ⟨0, 1, "KNOWS", ∅⟩, rfl, rfl, rfl⟩
  have hprobe : probeTreeMove (fun _ => "") 0 2 1 knowsPair = none :=
    probeTreeMove_none (by decide) (by decide) (by decide)
  have hrejected : (syncTreeMoveToGrafeo (fun _ => "") (fun _ => false) 0 2 1 knowsPair).1
      = .error (.treeMoveCreatesCycle 0 1) :=
    (syncTreeMove_cycle_iff hprobe rfl).mpr hlinked
  have hlabels : ∀ e ∈ knowsPair.edges.entries, e.2.label ≠ treeEdgeLabel := by decide
  have hnot : ¬ ReflTransGen (Child knowsPair) 0 1 := by
    intro hpath
    rcases hpath.cases_head with heq | ⟨c, ⟨eid, e, he, hlabel, -⟩, -⟩
    · cases heq
    · exact hlabels ⟨eid, e⟩ (AList.mem_lookup_iff.mp he) hlabel
  exact ⟨by decide, by decide, hrejected, hnot, fun hexact => hnot (hexact.1.mp hrejected)⟩

end GrafeoLoro.Proofs
