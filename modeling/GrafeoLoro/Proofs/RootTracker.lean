import GrafeoLoro.Lib.Exec
import GrafeoLoro.Lib.Maps
import GrafeoLoro.Schema.RootTracker

/-!
# `GrafeoLoro.Proofs.RootTracker`: when the incremental root set is exact

A root is a registered node without a live incoming edge. The tracker keeps no set of the
registered nodes, so it cannot tell a child that is known from one that is not when the child's
edge goes, and it forgets the edge of a node that is unregistered.

* `rootsExact_iff`: in every run, `is_root` is exact in all states exactly when an edge is removed
  only from a registered child, and a node is registered only while the tracker still knows its
  live edge, if it has one.
* `late_removal_resurrects`: a node is unregistered, its edge is removed, and it is a root.
-/

set_option autoImplicit false

namespace GrafeoLoro.Proofs

open GrafeoLoro GrafeoLoro.Lib

/-! ### The hooks -/

section
variable {tracker : RootTracker} {node child parent n : String}

@[simp] theorem isRoot_iff : tracker.isRoot n = true ↔ n ∈ tracker.roots := by
  simp [RootTracker.isRoot]

@[simp] theorem registerNode_hasParent :
    (tracker.registerNode node).hasParent = tracker.hasParent := by
  unfold RootTracker.registerNode
  split
  · rfl
  · rfl

@[simp] theorem mem_registerNode_roots :
    n ∈ (tracker.registerNode node).roots ↔
      n ∈ tracker.roots ∨ n = node ∧ node ∉ tracker.hasParent := by
  unfold RootTracker.registerNode
  by_cases hnode : node ∈ tracker.hasParent
  · simp [hnode]
  · simp [hnode, or_comm]

@[simp] theorem mem_unregisterNode_hasParent :
    n ∈ (tracker.unregisterNode node).hasParent ↔ n ≠ node ∧ n ∈ tracker.hasParent := by
  simp [RootTracker.unregisterNode]

@[simp] theorem mem_unregisterNode_roots :
    n ∈ (tracker.unregisterNode node).roots ↔ n ≠ node ∧ n ∈ tracker.roots := by
  simp [RootTracker.unregisterNode]

@[simp] theorem mem_onEdgeInserted_hasParent :
    n ∈ (tracker.onEdgeInserted child parent).hasParent ↔ n = child ∨ n ∈ tracker.hasParent := by
  simp [RootTracker.onEdgeInserted]

@[simp] theorem mem_onEdgeInserted_roots :
    n ∈ (tracker.onEdgeInserted child parent).roots ↔ n ≠ child ∧ n ∈ tracker.roots := by
  simp [RootTracker.onEdgeInserted]

@[simp] theorem mem_onEdgeRemoved_hasParent :
    n ∈ (tracker.onEdgeRemoved child parent).hasParent ↔ n ≠ child ∧ n ∈ tracker.hasParent := by
  simp [RootTracker.onEdgeRemoved]

@[simp] theorem mem_onEdgeRemoved_roots :
    n ∈ (tracker.onEdgeRemoved child parent).roots ↔ n = child ∨ n ∈ tracker.roots := by
  simp [RootTracker.onEdgeRemoved]

end

/-! ### The graph beside the tracker -/

/-- `is_root` says which nodes are registered and have no live incoming edge. -/
def RootsExact (s : TrackedGraph) : Prop :=
  ∀ n, s.tracker.isRoot n = true ↔ n ∈ s.registered ∧ s.liveParent.lookup n = none

/-- An edge that is removed ends at a registered node, and a node with a live edge is registered
only while the tracker has it as a child. -/
def KnowsChild (s : TrackedGraph) : TrackerCall → Prop
  | .registerNode node => s.liveParent.lookup node = none ∨ node ∈ s.tracker.hasParent
  | .onEdgeRemoved child _ => child ∈ s.registered
  | _ => True

/-- A child of the tracker has a live edge. -/
def ChildrenLive (s : TrackedGraph) : Prop :=
  ∀ n, n ∈ s.tracker.hasParent → s.liveParent.lookup n ≠ none

/-- What a call does, with the condition under which it mirrors a change of the graph. -/
theorem trackedGraph_next_cases {s t : TrackedGraph} {a : TrackerCall} (h : s.next a = some t) :
    (∃ node, a = .registerNode node ∧ t = { s with
      tracker := s.tracker.registerNode node, registered := insert node s.registered }) ∨
    (∃ node, a = .unregisterNode node ∧ t = { s with
      tracker := s.tracker.unregisterNode node, registered := s.registered.erase node }) ∨
    (∃ child parent, a = .onEdgeInserted child parent ∧ s.liveParent.lookup child = none ∧
      t = { s with
        tracker := s.tracker.onEdgeInserted child parent
        liveParent := s.liveParent.insert child parent }) ∨
    (∃ child parent, a = .onEdgeRemoved child parent ∧ s.liveParent.lookup child = some parent ∧
      t = { s with
        tracker := s.tracker.onEdgeRemoved child parent
        liveParent := s.liveParent.erase child }) := by
  cases a with
  | registerNode node => exact .inl ⟨node, rfl, (Option.some.inj h).symm⟩
  | unregisterNode node => exact .inr (.inl ⟨node, rfl, (Option.some.inj h).symm⟩)
  | onEdgeInserted child parent =>
    simp only [TrackedGraph.next] at h
    split at h
    · rename_i hnone
      exact .inr (.inr (.inl ⟨child, parent, rfl, hnone, (Option.some.inj h).symm⟩))
    · cases h
  | onEdgeRemoved child parent =>
    simp only [TrackedGraph.next] at h
    split at h
    · rename_i hsome
      exact .inr (.inr (.inr ⟨child, parent, rfl, hsome, (Option.some.inj h).symm⟩))
    · cases h

theorem childrenLive_step {s t : TrackedGraph} {a : TrackerCall} (hstep : s.next a = some t)
    (hlive : ChildrenLive s) : ChildrenLive t := by
  intro n hn
  rcases trackedGraph_next_cases hstep with ⟨node, -, rfl⟩ | ⟨node, -, rfl⟩ |
    ⟨child, parent, -, -, rfl⟩ | ⟨child, parent, -, -, rfl⟩
  · exact hlive n (by simpa using hn)
  · have hkept : n ≠ node ∧ n ∈ s.tracker.hasParent := by simpa using hn
    exact hlive n hkept.2
  · show (s.liveParent.insert child parent).lookup n ≠ none
    rw [finmap_lookup_insert]
    by_cases hchild : n = child
    · simp [hchild]
    · simpa [hchild] using hlive n (by simpa [hchild] using hn)
  · show (s.liveParent.erase child).lookup n ≠ none
    rw [finmap_lookup_erase]
    have hkept : n ≠ child ∧ n ∈ s.tracker.hasParent := by simpa using hn
    simpa [hkept.1] using hlive n hkept.2

/-- A call keeps the roots exact exactly when it meets the condition. -/
theorem rootsExact_step_iff {s t : TrackedGraph} {a : TrackerCall} (hstep : s.next a = some t)
    (hlive : ChildrenLive s) (hexact : RootsExact s) : RootsExact t ↔ KnowsChild s a := by
  simp only [RootsExact, isRoot_iff] at hexact ⊢
  rcases trackedGraph_next_cases hstep with ⟨node, rfl, rfl⟩ | ⟨node, rfl, rfl⟩ |
    ⟨child, parent, rfl, hnone, rfl⟩ | ⟨child, parent, rfl, hsome, rfl⟩
  · -- a registered node is a new root if the tracker has no edge of it
    simp only [mem_registerNode_roots, Finset.mem_insert, KnowsChild]
    constructor
    · intro hafter
      by_cases hchild : node ∈ s.tracker.hasParent
      · exact .inr hchild
      · exact .inl ((hafter node).mp (.inr ⟨rfl, hchild⟩)).2
    · intro hknown n
      rw [hexact n]
      by_cases hn : n = node
      · subst hn
        have hroot : n ∉ s.tracker.hasParent ↔ s.liveParent.lookup n = none :=
          ⟨fun hnot => hknown.resolve_right hnot, fun hroot hmem => hlive n hmem hroot⟩
        simp [hroot]
      · simp [hn]
  · -- an unregistered node is no root
    simp only [mem_unregisterNode_roots, Finset.mem_erase, KnowsChild, iff_true]
    intro n
    rw [hexact n, and_assoc]
  · -- a child with an edge is no root
    simp only [mem_onEdgeInserted_roots, finmap_lookup_insert, KnowsChild, iff_true]
    intro n
    rw [hexact n]
    by_cases hn : n = child
    · simp [hn]
    · simp [hn]
  · -- the child of a removed edge is a root, registered or not
    simp only [mem_onEdgeRemoved_roots, finmap_lookup_erase, KnowsChild]
    constructor
    · intro hafter
      exact ((hafter child).mp (.inl rfl)).1
    · intro hregistered n
      rw [hexact n]
      by_cases hn : n = child
      · simp [hn, hregistered]
      · simp [hn]

/-- In every run, `is_root` is exact in all states exactly when every call meets the condition. -/
theorem rootsExact_iff {h : List (TrackedGraph × TrackerCall)} {t : TrackedGraph}
    (hrun : Exec TrackedGraph.next .init h t) :
    Always RootsExact h t ↔ Steps KnowsChild h := by
  refine hrun.always_iff (I := ChildrenLive) (G := fun _ _ => True)
    (fun s a u hstep _ hlive => childrenLive_step hstep hlive) ?_ ?_
    (fun s a u hstep _ hlive hexact => rootsExact_step_iff hstep hlive hexact) (fun _ _ => trivial)
  · intro n hn
    simp [TrackedGraph.init, RootTracker.new] at hn
  · intro n
    simp [TrackedGraph.init, RootTracker.new]

/-- The edge of a registered child is removed before the child is unregistered. -/
theorem rootsExact_iff_early : ∃ h t,
    Exec TrackedGraph.next .init h t ∧
    h.map Prod.snd = [.registerNode "b", .onEdgeInserted "b" "a", .onEdgeRemoved "b" "a",
      .unregisterNode "b"] ∧
    Always RootsExact h t := by
  have hrun : Exec TrackedGraph.next .init _ _ :=
    Exec.snoc (Exec.snoc (Exec.snoc (Exec.snoc .nil (a := .registerNode "b") rfl)
      (a := .onEdgeInserted "b" "a") rfl) (a := .onEdgeRemoved "b" "a") rfl)
      (a := .unregisterNode "b") rfl
  refine ⟨_, _, hrun, rfl, (rootsExact_iff hrun).mpr ?_⟩
  intro p hp
  simp only [List.nil_append, List.cons_append, List.mem_cons, List.not_mem_nil, or_false] at hp
  rcases hp with rfl | rfl | rfl | rfl
  · exact .inl rfl
  · exact trivial
  · show _ ∈ _
    decide
  · exact trivial

/-- The node `b` is unregistered, and the removal of its edge makes it a root again. -/
theorem late_removal_resurrects : ∃ h t,
    Exec TrackedGraph.next .init h t ∧
    h.map Prod.snd = [.registerNode "b", .onEdgeInserted "b" "a", .unregisterNode "b",
      .onEdgeRemoved "b" "a"] ∧
    t.tracker.isRoot "b" = true ∧ "b" ∉ t.registered ∧ ¬ Always RootsExact h t := by
  let t : TrackedGraph := ⟨⟨∅, {"b"}⟩, ∅, ∅⟩
  obtain ⟨h, hrun, hmap⟩ := exec_of_run (show runActions TrackedGraph.next .init
    [.registerNode "b", .onEdgeInserted "b" "a", .unregisterNode "b", .onEdgeRemoved "b" "a"]
      = some t by decide +kernel)
  have hroot : t.tracker.isRoot "b" = true := by decide
  have hgone : "b" ∉ t.registered := by decide
  exact ⟨h, t, hrun, hmap, hroot, hgone, fun hexact => hgone ((hexact.2 "b").mp hroot).1⟩

end GrafeoLoro.Proofs
