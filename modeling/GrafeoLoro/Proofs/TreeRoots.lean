import GrafeoLoro.Proofs.CycleGuard
import GrafeoLoro.Proofs.RootTracker

/-!
# `GrafeoLoro.Proofs.TreeRoots`: when the guard and the tracker have the same roots

`RootTracker` keeps every registered node, and `CycleGuard` knows a node only as an end of a parent
pointer. A node that loses its last pointer, its own or that of its last child, is a root that
`CycleGuard::roots` leaves out.

* `treeRoots_agree`: in every run whose mutations leave no moved node without a pointer, the two
  root sets are equal whenever all registered nodes were moved; and the guard and the tracker
  agree on the moved nodes in all states exactly when the mutations are so.
* `detached_leaf_forgotten`: one move and one detach, after which the guard has no root.
-/

set_option autoImplicit false

namespace GrafeoLoro.Proofs

open GrafeoLoro GrafeoLoro.Lib Relation

/-! ### The roots of the guard -/

section
variable {guard : CycleGuard} {n : String}

/-- The guard knows the ends of the parent pointers. -/
theorem mem_allNodes :
    n ∈ guard.allNodes ↔ guard.parentOf.lookup n ≠ none ∨ ∃ c, Parent guard n c := by
  unfold CycleGuard.allNodes
  simp only [Finset.mem_union, Multiset.mem_toFinset, Multiset.mem_map]
  refine or_congr ⟨?_, ?_⟩ ⟨?_, ?_⟩
  · rintro ⟨e, he, rfl⟩
    simp [Finmap.lookup_eq_some_iff.mpr he]
  · intro hsome
    obtain ⟨p, hp⟩ := Option.ne_none_iff_exists'.mp hsome
    exact ⟨⟨n, p⟩, Finmap.lookup_eq_some_iff.mp hp, rfl⟩
  · rintro ⟨e, he, rfl⟩
    exact ⟨e.1, Finmap.lookup_eq_some_iff.mpr he⟩
  · rintro ⟨c, hc⟩
    exact ⟨⟨c, n⟩, Finmap.lookup_eq_some_iff.mp hc, rfl⟩

/-- A root of the guard has a child and no parent. -/
theorem mem_guardRoots :
    n ∈ guard.roots ↔ guard.parentOf.lookup n = none ∧ ∃ c, Parent guard n c := by
  unfold CycleGuard.roots
  rw [Finset.mem_filter, mem_allNodes, Option.isNone_iff_eq_none]
  constructor
  · rintro ⟨hknown, hnone⟩
    exact ⟨hnone, hknown.resolve_left fun hsome => hsome hnone⟩
  · rintro ⟨hnone, hchild⟩
    exact ⟨.inr hchild, hnone⟩

/-- A detach takes the node's pointer away. -/
theorem parent_detach {node p c : String} :
    Parent (guard.detach node) p c ↔ Parent guard p c ∧ c ≠ node := by
  show (guard.parentOf.erase node).lookup c = some p ↔ _
  rw [finmap_lookup_erase]
  by_cases hc : c = node
  · simp [hc]
  · simp [hc, Above]

/-- A binding makes both its ends known, and forgets no node but the old parent. -/
theorem mem_allNodes_bind {node newParent : String} :
    n ∈ (guard.recordParentUnchecked node newParent).allNodes ↔
      n = node ∨ n = newParent ∨ guard.parentOf.lookup n ≠ none ∨
        ∃ c, c ≠ node ∧ Parent guard n c := by
  have hlookup : (guard.recordParentUnchecked node newParent).parentOf.lookup n ≠ none ↔
      n = node ∨ guard.parentOf.lookup n ≠ none := by
    show (guard.parentOf.insert node newParent).lookup n ≠ none ↔ _
    rw [finmap_lookup_insert]
    by_cases hn : n = node
    · simp [hn]
    · simp [hn]
  simp only [mem_allNodes, hlookup, parent_bind]
  constructor
  · rintro ((rfl | hsome) | ⟨c, ⟨hc, hne⟩ | ⟨rfl, -⟩⟩)
    · exact .inl rfl
    · exact .inr (.inr (.inl hsome))
    · exact .inr (.inr (.inr ⟨c, hne, hc⟩))
    · exact .inr (.inl rfl)
  · rintro (rfl | rfl | hsome | ⟨c, hne, hc⟩)
    · exact .inl (.inl rfl)
    · exact .inr ⟨node, .inr ⟨rfl, rfl⟩⟩
    · exact .inl (.inr hsome)
    · exact .inr ⟨c, .inl ⟨hc, hne⟩⟩

/-- A detach leaves the nodes known that have another pointer. -/
theorem mem_allNodes_detach {node : String} :
    n ∈ (guard.detach node).allNodes ↔
      (n ≠ node ∧ guard.parentOf.lookup n ≠ none) ∨ ∃ c, c ≠ node ∧ Parent guard n c := by
  have hlookup : (guard.detach node).parentOf.lookup n ≠ none ↔
      n ≠ node ∧ guard.parentOf.lookup n ≠ none := by
    show (guard.parentOf.erase node).lookup n ≠ none ↔ _
    rw [finmap_lookup_erase]
    by_cases hn : n = node
    · simp [hn]
    · simp [hn]
  simp only [mem_allNodes, hlookup, parent_detach, and_comm]

end

/-! ### The mutations -/

/-- Whenever every registered node was moved, the two root sets are equal. -/
def RootsAgree (s : TreeRoots) : Prop :=
  s.registered ⊆ s.moved → s.guard.roots = s.tracker.roots

/-- The guard and the tracker agree on which moved nodes are roots. -/
def AgreeOnMoved (s : TreeRoots) : Prop :=
  ∀ n ∈ s.moved, n ∈ s.guard.roots ↔ n ∈ s.tracker.roots

/-- The old parent has a pointer besides that of the node. -/
def KeepsEnd (guard : CycleGuard) (node old : String) : Prop :=
  guard.parentOf.lookup old ≠ none ∨ ∃ c, c ≠ node ∧ Parent guard old c

/-- The mutation leaves the ends of the pointer that it takes away with another pointer. -/
def KeepsKnown (s : TreeRoots) : TreeRootsAction → Prop
  | .register _ => True
  | .applyMove _ node newParent =>
    ReflTransGen (Parent s.guard) node newParent ∨
      ∀ old, Parent s.guard old node → old = newParent ∨ KeepsEnd s.guard node old
  | .detach node =>
    ∀ old, Parent s.guard old node →
      (∃ c, c ≠ node ∧ Parent s.guard node c) ∧ KeepsEnd s.guard node old

/-- The tracker has the guard's children as children and the other registered nodes as roots, and
only moved nodes have pointers. -/
structure TreeRootsOk (s : TreeRoots) : Prop where
  children : ∀ n, n ∈ s.tracker.hasParent ↔ s.guard.parentOf.lookup n ≠ none
  roots : ∀ n, n ∈ s.tracker.roots ↔ n ∈ s.registered ∧ s.guard.parentOf.lookup n = none
  registered : s.moved ⊆ s.registered
  ends : ∀ p c, Parent s.guard p c → p ∈ s.moved ∧ c ∈ s.moved

/-- What a step does: a registration, a rejected move, a move, or a detach. -/
theorem treeRoots_next_cases {s t : TreeRoots} {a : TreeRootsAction} (h : s.next a = some t) :
    (∃ node, a = .register node ∧ t = { s with
      tracker := s.tracker.registerNode node, registered := insert node s.registered }) ∨
    (∃ fuel node newParent, a = .applyMove fuel node newParent ∧
      ReflTransGen (Parent s.guard) node newParent ∧ t = s) ∨
    (∃ fuel node newParent, a = .applyMove fuel node newParent ∧
      ¬ ReflTransGen (Parent s.guard) node newParent ∧
      node ∈ s.registered ∧ newParent ∈ s.registered ∧ t = { s with
        guard := s.guard.recordParentUnchecked node newParent
        tracker := (s.edgeRemoved node).onEdgeInserted node newParent
        moved := insert node (insert newParent s.moved) }) ∨
    (∃ node, a = .detach node ∧ t = { s with
      guard := s.guard.detach node, tracker := s.edgeRemoved node }) := by
  cases a with
  | register node => exact .inl ⟨node, rfl, (Option.some.inj h).symm⟩
  | detach node => exact .inr (.inr (.inr ⟨node, rfl, (Option.some.inj h).symm⟩))
  | applyMove fuel node newParent =>
    simp only [TreeRoots.next] at h
    split at h
    · rename_i hregistered
      split at h
      · cases h
      · rename_i e guard hcall
        obtain ⟨-, rfl⟩ | ⟨hok, -⟩ := applyMove_cases hcall
        · exact .inr (.inl ⟨fuel, node, newParent, rfl, applyMove_error hcall,
            (Option.some.inj h).symm⟩)
        · cases hok
      · rename_i guard hcall
        obtain ⟨herror, -⟩ | ⟨-, rfl, hnot⟩ := applyMove_cases hcall
        · cases herror
        · exact .inr (.inr (.inl ⟨fuel, node, newParent, rfl, hnot, hregistered.1,
            hregistered.2, (Option.some.inj h).symm⟩))
    · cases h

section
variable {s : TreeRoots} {node n : String}

/-- The removal of the old edge leaves the node without a parent. -/
theorem mem_edgeRemoved_hasParent (hok : TreeRootsOk s) :
    n ∈ (s.edgeRemoved node).hasParent ↔ n ≠ node ∧ n ∈ s.tracker.hasParent := by
  unfold TreeRoots.edgeRemoved
  split
  · exact mem_onEdgeRemoved_hasParent
  · rename_i hnone
    -- a node without a pointer is no child of the tracker
    have hnode : n = node → n ∉ s.tracker.hasParent := by
      rintro rfl hmem
      exact (hok.children n).mp hmem hnone
    exact ⟨fun hmem => ⟨fun heq => hnode heq hmem, hmem⟩, And.right⟩

theorem mem_edgeRemoved_roots :
    n ∈ (s.edgeRemoved node).roots ↔
      n ∈ s.tracker.roots ∨ n = node ∧ s.guard.parentOf.lookup node ≠ none := by
  unfold TreeRoots.edgeRemoved
  split
  · rename_i old hold
    simp [hold, or_comm]
  · rename_i hnone
    simp [hnone]

/-- A registered node without a pointer is a new root. -/
theorem TreeRootsOk.register (hok : TreeRootsOk s) (node : String) : TreeRootsOk { s with
    tracker := s.tracker.registerNode node, registered := insert node s.registered } := by
  constructor
  case children => simpa using hok.children
  case roots =>
    intro n
    simp only [mem_registerNode_roots, hok.roots, hok.children, Finset.mem_insert, not_not]
    by_cases hn : n = node
    · subst hn
      simp
    · simp [hn]
  case registered => exact fun n hn => Finset.mem_insert_of_mem (hok.registered hn)
  case ends => exact hok.ends

/-- A moved node gets a pointer, and is a child of the tracker. -/
theorem TreeRootsOk.move (hok : TreeRootsOk s) {newParent : String} (hnode : node ∈ s.registered)
    (hparent : newParent ∈ s.registered) : TreeRootsOk { s with
      guard := s.guard.recordParentUnchecked node newParent
      tracker := (s.edgeRemoved node).onEdgeInserted node newParent
      moved := insert node (insert newParent s.moved) } := by
  have hlookup : ∀ n, (s.guard.recordParentUnchecked node newParent).parentOf.lookup n
      = if n = node then some newParent else s.guard.parentOf.lookup n :=
    fun n => finmap_lookup_insert _ node n newParent
  constructor
  case children =>
    intro n
    simp only [mem_onEdgeInserted_hasParent, mem_edgeRemoved_hasParent hok, hok.children, hlookup]
    by_cases hn : n = node
    · simp [hn]
    · simp [hn]
  case roots =>
    intro n
    simp only [mem_onEdgeInserted_roots, mem_edgeRemoved_roots, hok.roots, hlookup]
    by_cases hn : n = node
    · simp [hn]
    · simp [hn]
  case registered =>
    intro n hn
    rcases Finset.mem_insert.mp hn with rfl | hn
    · exact hnode
    · rcases Finset.mem_insert.mp hn with rfl | hn
      · exact hparent
      · exact hok.registered hn
  case ends =>
    intro p c hpc
    rcases parent_bind.mp hpc with ⟨hold, -⟩ | ⟨rfl, rfl⟩
    · obtain ⟨hp, hc⟩ := hok.ends p c hold
      simp [hp, hc]
    · simp

/-- A detached node loses its pointer, and is a root of the tracker if it had one. -/
theorem TreeRootsOk.detach (hok : TreeRootsOk s) (node : String) : TreeRootsOk { s with
    guard := s.guard.detach node, tracker := s.edgeRemoved node } := by
  have hlookup : ∀ n, (s.guard.detach node).parentOf.lookup n
      = if n = node then none else s.guard.parentOf.lookup n :=
    fun n => finmap_lookup_erase _ node n
  constructor
  case children =>
    intro n
    simp only [mem_edgeRemoved_hasParent hok, hok.children, hlookup]
    by_cases hn : n = node
    · simp [hn]
    · simp [hn]
  case roots =>
    intro n
    simp only [mem_edgeRemoved_roots, hok.roots, hlookup]
    by_cases hn : n = node
    · subst hn
      by_cases hbound : s.guard.parentOf.lookup n = none
      · simp [hbound]
      · obtain ⟨p, hp⟩ := Option.ne_none_iff_exists'.mp hbound
        simp [hbound, hok.registered (hok.ends p n hp).2]
    · simp [hn]
  case registered => exact hok.registered
  case ends => exact fun p c hpc => hok.ends p c (parent_detach.mp hpc).1

/-- Every step keeps the invariant. -/
theorem treeRootsOk_step {t : TreeRoots} {a : TreeRootsAction} (hstep : s.next a = some t)
    (hok : TreeRootsOk s) : TreeRootsOk t := by
  rcases treeRoots_next_cases hstep with ⟨node, -, rfl⟩ | ⟨fuel, node, newParent, -, -, rfl⟩ |
    ⟨fuel, node, newParent, -, -, hnode, hparent, rfl⟩ | ⟨node, -, rfl⟩
  · exact hok.register node
  · exact hok
  · exact hok.move hnode hparent
  · exact hok.detach node

/-- The guard and the tracker agree on the moved nodes when the guard knows them all. -/
theorem agreeOnMoved_iff (hok : TreeRootsOk s) : AgreeOnMoved s ↔ s.moved ⊆ s.guard.allNodes := by
  constructor
  · intro hagree n hn
    rw [mem_allNodes]
    by_cases hbound : s.guard.parentOf.lookup n = none
    · have hroot := (hok.roots n).mpr ⟨hok.registered hn, hbound⟩
      exact .inr (mem_guardRoots.mp ((hagree n hn).mpr hroot)).2
    · exact .inl hbound
  · intro hknown n hn
    rw [mem_guardRoots, hok.roots]
    constructor
    · exact fun hroot => ⟨hok.registered hn, hroot.1⟩
    · exact fun hroot => ⟨hroot.2, (mem_allNodes.mp (hknown hn)).resolve_left (absurd hroot.2)⟩

/-- Where they agree on the moved nodes and all registered nodes were moved, the root sets are
equal. -/
theorem AgreeOnMoved.rootsAgree (hok : TreeRootsOk s) (hagree : AgreeOnMoved s) :
    RootsAgree s := by
  intro hall
  ext n
  by_cases hn : n ∈ s.moved
  · exact hagree n hn
  · have hguard : n ∉ s.guard.roots := fun hroot => by
      obtain ⟨c, hc⟩ := (mem_guardRoots.mp hroot).2
      exact hn (hok.ends n c hc).1
    have htracker : n ∉ s.tracker.roots := fun hroot => hn (hall ((hok.roots n).mp hroot).1)
    exact iff_of_false hguard htracker

/-- A node that the guard knows has a pointer, is the parent of `node`, or has another child. -/
theorem allNodes_cases (h : n ∈ s.guard.allNodes) (node : String) :
    s.guard.parentOf.lookup n ≠ none ∨ Parent s.guard n node ∨
      ∃ c, c ≠ node ∧ Parent s.guard n c := by
  rcases mem_allNodes.mp h with hbound | ⟨c, hc⟩
  · exact .inl hbound
  · by_cases hcn : c = node
    · exact .inr (.inl (hcn ▸ hc))
    · exact .inr (.inr ⟨c, hcn, hc⟩)

/-- The old parent is the only node that a move can leave without a pointer. -/
theorem known_move_iff (hok : TreeRootsOk s) (hknown : s.moved ⊆ s.guard.allNodes)
    {newParent : String} :
    insert node (insert newParent s.moved)
        ⊆ (s.guard.recordParentUnchecked node newParent).allNodes ↔
      ∀ old, Parent s.guard old node → old = newParent ∨ KeepsEnd s.guard node old := by
  constructor
  · intro hafter old hold
    have hmem : old ∈ insert node (insert newParent s.moved) := by
      simp [(hok.ends old node hold).1]
    rcases mem_allNodes_bind.mp (hafter hmem) with rfl | hnew | hkeeps
    · exact .inr (.inl (by simp [show s.guard.parentOf.lookup old = some old from hold]))
    · exact .inl hnew
    · exact .inr hkeeps
  · intro hkeeps n hn
    rw [mem_allNodes_bind]
    simp only [Finset.mem_insert] at hn
    rcases hn with hn | hn | hn
    · exact .inl hn
    · exact .inr (.inl hn)
    · rcases allNodes_cases (hknown hn) node with hbound | hold | hother
      · exact .inr (.inr (.inl hbound))
      · exact .inr (hkeeps n hold)
      · exact .inr (.inr (.inr hother))

/-- A detach can leave the node and its old parent without a pointer. -/
theorem known_detach_iff (hok : TreeRootsOk s) (hknown : s.moved ⊆ s.guard.allNodes) :
    s.moved ⊆ (s.guard.detach node).allNodes ↔ ∀ old, Parent s.guard old node →
      (∃ c, c ≠ node ∧ Parent s.guard node c) ∧ KeepsEnd s.guard node old := by
  constructor
  · intro hafter old hold
    obtain ⟨hp, hc⟩ := hok.ends old node hold
    have hchild := (mem_allNodes_detach.mp (hafter hc)).resolve_left fun hne => hne.1 rfl
    exact ⟨hchild, (mem_allNodes_detach.mp (hafter hp)).imp_left And.right⟩
  · intro hkeeps n hn
    rw [mem_allNodes_detach]
    by_cases hnode : n = node
    · subst hnode
      rcases allNodes_cases (hknown hn) n with hbound | hold | hother
      · obtain ⟨old, hold⟩ := Option.ne_none_iff_exists'.mp hbound
        exact .inr (hkeeps old hold).1
      · exact .inr (hkeeps n hold).1
      · exact .inr hother
    · rcases allNodes_cases (hknown hn) node with hbound | hold | hother
      · exact .inl ⟨hnode, hbound⟩
      · exact (hkeeps n hold).2.imp_left fun hbound => ⟨hnode, hbound⟩
      · exact .inr hother

/-- A step keeps the agreement exactly when it meets the condition. -/
theorem agreeOnMoved_step_iff {t : TreeRoots} {a : TreeRootsAction} (hstep : s.next a = some t)
    (hok : TreeRootsOk s) (hagree : AgreeOnMoved s) : AgreeOnMoved t ↔ KeepsKnown s a := by
  rw [agreeOnMoved_iff (treeRootsOk_step hstep hok)]
  have hknown := (agreeOnMoved_iff hok).mp hagree
  rcases treeRoots_next_cases hstep with ⟨node, rfl, rfl⟩ |
    ⟨fuel, node, newParent, rfl, habove, rfl⟩ |
    ⟨fuel, node, newParent, rfl, hnot, -, -, rfl⟩ | ⟨node, rfl, rfl⟩
  · simp only [KeepsKnown, iff_true]
    exact hknown
  · simp only [KeepsKnown, habove, true_or, iff_true]
    exact hknown
  · simp only [KeepsKnown, hnot, false_or]
    exact known_move_iff hok hknown
  · simp only [KeepsKnown]
    exact known_detach_iff hok hknown

end

/-! ### Runs -/

theorem treeRootsOk_init : TreeRootsOk .init := by
  constructor
  case children => simp [TreeRoots.init, RootTracker.new, CycleGuard.new]
  case roots => simp [TreeRoots.init, RootTracker.new]
  case registered => exact Finset.Subset.refl _
  case ends => exact fun p c hpc => absurd hpc (by simp [Above, TreeRoots.init, CycleGuard.new])

/-- In every run, the guard and the tracker agree on the moved nodes in all states exactly when
every mutation meets the condition. Then the two root sets are equal in every state in which all
registered nodes were moved. -/
theorem treeRoots_agree {h : List (TreeRoots × TreeRootsAction)} {t : TreeRoots}
    (hrun : Exec TreeRoots.next .init h t) :
    (Steps KeepsKnown h → Always RootsAgree h t) ∧
      (Always AgreeOnMoved h t ↔ Steps KeepsKnown h) := by
  constructor
  · intro hkeeps
    have hboth := hrun.invariant_of_steps (I := fun s => TreeRootsOk s ∧ AgreeOnMoved s)
      (fun s a u hstep hC hI => ⟨treeRootsOk_step hstep hI.1,
        (agreeOnMoved_step_iff hstep hI.1 hI.2).mpr hC⟩)
      ⟨treeRootsOk_init, fun n hn => absurd hn (Finset.notMem_empty n)⟩ hkeeps
    exact ⟨fun p hp => (hboth.1 p hp).2.rootsAgree (hboth.1 p hp).1,
      hboth.2.2.rootsAgree hboth.2.1⟩
  · exact hrun.always_iff (I := TreeRootsOk) (G := fun _ _ => True)
      (fun s a u hstep _ hok => treeRootsOk_step hstep hok) treeRootsOk_init
      (fun n hn => absurd hn (Finset.notMem_empty n))
      (fun s a u hstep _ hok hagree => agreeOnMoved_step_iff hstep hok hagree) (fun _ _ => trivial)

/-- Two nodes move under `a`, and then one of them under the other. -/
theorem treeRoots_agree_three : ∃ h t,
    Exec TreeRoots.next .init h t ∧
    h.map Prod.snd = [.register "a", .register "b", .register "c", .applyMove 9 "b" "a",
      .applyMove 9 "c" "a", .applyMove 9 "c" "b"] ∧
    Always RootsAgree h t ∧ t.registered ⊆ t.moved ∧ t.guard.roots = {"a"} := by
  -- the sets are written in the order of their insertions
  let all : Finset String := {"c", "b", "a"}
  let g1 : CycleGuard := CycleGuard.new.recordParentUnchecked "b" "a"
  let g2 : CycleGuard := g1.recordParentUnchecked "c" "a"
  let g3 : CycleGuard := g2.recordParentUnchecked "c" "b"
  let s0 : TreeRoots := ⟨.new, ⟨∅, all⟩, all, ∅⟩
  let s1 : TreeRoots := ⟨g1, ⟨{"b"}, {"c", "a"}⟩, all, {"b", "a"}⟩
  let s2 : TreeRoots := ⟨g2, ⟨{"c", "b"}, {"a"}⟩, all, all⟩
  let s3 : TreeRoots := ⟨g3, ⟨{"c", "b"}, {"a"}⟩, all, all⟩
  obtain ⟨h, hregister, hmap⟩ := exec_of_run (show runActions TreeRoots.next .init
    [.register "a", .register "b", .register "c"] = some s0 by decide +kernel)
  have hrun := ((hregister.snoc
    (show s0.next (.applyMove 9 "b" "a") = some s1 by decide +kernel)).snoc
    (show s1.next (.applyMove 9 "c" "a") = some s2 by decide +kernel)).snoc
    (show s2.next (.applyMove 9 "c" "b") = some s3 by decide +kernel)
  have hfirst : Steps KeepsKnown h := by
    refine steps_of_actions hmap fun a ha s => ?_
    simp only [List.mem_cons, List.not_mem_nil, or_false] at ha
    rcases ha with rfl | rfl | rfl
    all_goals trivial
  have hb : s0.guard.parentOf.lookup "b" = none := by decide +kernel
  have hc : s1.guard.parentOf.lookup "c" = none := by decide +kernel
  have hold : s2.guard.parentOf.lookup "c" = some "a" := by decide +kernel
  have hother : Parent s2.guard "a" "b" := show g2.parentOf.lookup "b" = some "a" by decide +kernel
  have hsteps : Steps KeepsKnown (h ++ [(s0, .applyMove 9 "b" "a")] ++ [(s1, .applyMove 9 "c" "a")]
      ++ [(s2, .applyMove 9 "c" "b")]) := by
    simp only [steps_snoc]
    refine ⟨⟨⟨hfirst, .inr fun old hbound => ?_⟩, .inr fun old hbound => ?_⟩,
      .inr fun old hbound => ?_⟩
    · cases hb.symm.trans hbound
    · cases hc.symm.trans hbound
    · -- the old parent of `c` still has `b` as a child
      obtain rfl := Option.some.inj (hold.symm.trans hbound)
      exact .inr (.inr ⟨"b", by decide, hother⟩)
  exact ⟨_, s3, hrun, by simp [hmap], (treeRoots_agree hrun).1 hsteps, by decide, by decide +kernel⟩

/-- The node `b` moves under `a` and is detached. Both are registered and both were moved, and the
guard has no root while the tracker has two. -/
theorem detached_leaf_forgotten : ∃ h t,
    Exec TreeRoots.next .init h t ∧
    h.map Prod.snd
      = [.register "a", .register "b", .applyMove 9 "b" "a", .detach "b"] ∧
    t.registered ⊆ t.moved ∧ t.guard.roots = ∅ ∧ t.tracker.roots = {"b", "a"} ∧
    ¬ Always RootsAgree h t := by
  let t : TreeRoots := ⟨.new, ⟨∅, {"b", "a"}⟩, {"b", "a"}, {"b", "a"}⟩
  obtain ⟨h, hrun, hmap⟩ := exec_of_run (show runActions TreeRoots.next .init
    [.register "a", .register "b", .applyMove 9 "b" "a", .detach "b"] = some t by decide +kernel)
  have hmoved : t.registered ⊆ t.moved := Finset.Subset.refl _
  have hguard : t.guard.roots = ∅ := by decide
  have htracker : t.tracker.roots = {"b", "a"} := rfl
  refine ⟨h, t, hrun, hmap, hmoved, hguard, htracker, fun hagree => ?_⟩
  have hequal := hagree.2 hmoved
  rw [hguard, htracker] at hequal
  exact absurd hequal (by decide)

end GrafeoLoro.Proofs
