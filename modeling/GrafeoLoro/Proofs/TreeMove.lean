import GrafeoLoro.Lib.Acyclic
import GrafeoLoro.Schema.TreeMove

/-!
# `GrafeoLoro.Proofs.TreeMove`: when concurrent moves keep the tree acyclic

`Child store` is the parent-to-child relation of the committed `CHILD` edges, and `Linked` the
same relation over edges of every label.

* `wouldCreateCycleInTx_iff`: the cycle check rejects exactly the moves whose new parent is
  the node or is reachable from it along edges of any label.
* `treeAcyclic_iff`: over every interleaving of any number of moves, the committed tree is
  acyclic in every state exactly when no commit finds its new parent at or below its node.
* `treeAcyclic_of_current`: where every commit still sees its own snapshot, this is so.
* `syncTreeMove_acyclic`: a call of `syncTreeMoveToGrafeo` alone is such a run.
* `writeSkew_cycle`: two moves that each pass their check close a cycle together.
-/

set_option autoImplicit false

namespace GrafeoLoro.Proofs

open GrafeoLoro GrafeoLoro.Lib
open Relation (ReflTransGen TransGen)

/-- There is an edge of any label from `p` to `c`. -/
def Linked (store : Store) (p c : NodeId) : Prop :=
  ∃ eid e, store.edges.lookup eid = some e ∧ e.src = p ∧ e.dst = c

/-- There is a `CHILD` edge from `p` to `c`. -/
def Child (store : Store) (p c : NodeId) : Prop :=
  ∃ eid e, store.edges.lookup eid = some e ∧ e.label = treeEdgeLabel ∧ e.src = p ∧ e.dst = c

theorem Child.linked {store : Store} {p c : NodeId} (h : Child store p c) :
    Linked store p c := by
  obtain ⟨eid, e, he, -, hsrc, hdst⟩ := h
  exact ⟨eid, e, he, hsrc, hdst⟩

/-! ### The cycle check -/

/-- The nodes that the search visits next are the sources of the incoming edges. -/
theorem mem_incoming {store : Store} {p c : NodeId} :
    p ∈ (getNeighborsIncoming store c).map Prod.fst ↔ Linked store p c := by
  unfold getNeighborsIncoming Linked
  rw [List.map_map, List.mem_map]
  constructor
  · rintro ⟨⟨eid, e⟩, he, rfl⟩
    obtain ⟨hmem, hdst⟩ := List.mem_filter.mp he
    exact ⟨eid, e, AList.mem_lookup_iff.mpr hmem, rfl, by simpa using hdst⟩
  · rintro ⟨eid, e, he, hsrc, hdst⟩
    exact ⟨⟨eid, e⟩, List.mem_filter.mpr ⟨AList.mem_lookup_iff.mp he, by simpa using hdst⟩, hsrc⟩

/-- The cycle check rejects exactly the moves whose new parent is the node or is reachable
from it. -/
theorem wouldCreateCycleInTx_iff (session : Store) (nodeId newParent : NodeId) :
    wouldCreateCycleInTx session nodeId newParent = true ↔
      ReflTransGen (Linked session) nodeId newParent := by
  -- the search only ever queues sources of edges, so their number bounds its rounds
  have hunivsucc : ∀ x y, y ∈ (getNeighborsIncoming session x).map Prod.fst →
      y ∈ ((session.edges.entries.map fun e => e.2.src).toFinset : Finset NodeId) := by
    intro x y hy
    obtain ⟨eid, e, he, rfl, -⟩ := mem_incoming.mp hy
    exact List.mem_toFinset.mpr (List.mem_map.mpr ⟨⟨eid, e⟩, AList.mem_lookup_iff.mp he, rfl⟩)
  have hfuel : ((session.edges.entries.map fun e => e.2.src).toFinset : Finset NodeId).card + 1
      < session.edges.entries.length + 2 := by
    have hcard := List.toFinset_card_le (session.edges.entries.map fun e => e.2.src)
    rw [List.length_map] at hcard
    omega
  have hsearch : search (fun cur => (getNeighborsIncoming session cur).map Prod.fst) nodeId
      (session.edges.entries.length + 2) [newParent] [newParent] = true ↔
      TransGen (fun a b => b ∈ (getNeighborsIncoming session a).map Prod.fst) newParent nodeId :=
    search_eq_true_iff _ hunivsucc hfuel
  -- the search goes upward, from child to parent
  have hup : TransGen (fun a b => b ∈ (getNeighborsIncoming session a).map Prod.fst)
      newParent nodeId ↔ TransGen (Linked session) nodeId newParent := by
    rw [← Relation.transGen_swap]
    exact iff_of_eq (congrArg (fun r => TransGen r nodeId newParent)
      (funext fun a => funext fun b => propext mem_incoming))
  unfold wouldCreateCycleInTx
  rw [Bool.or_eq_true, beq_iff_eq, hsearch, hup, Relation.reflTransGen_iff_eq_or_transGen]
  exact or_congr_left eq_comm

/-! ### The writes of a move -/

/-- An old edge that a snapshot names goes from the old parent to the node. -/
theorem oldParentEdge_some {session : Store} {oldParent nodeId : NodeId} {eid : EdgeId}
    (h : oldParentEdge session oldParent nodeId = some eid) :
    ∃ e, session.edges.lookup eid = some e ∧ e.label = treeEdgeLabel ∧ e.src = oldParent ∧
      e.dst = nodeId := by
  unfold oldParentEdge getNeighborsOutgoingByType at h
  obtain ⟨⟨dst, eid'⟩, hfind, rfl⟩ := Option.map_eq_some_iff.mp h
  have hmem := List.mem_of_find?_eq_some hfind
  have hdst := List.find?_some hfind
  obtain ⟨⟨id, e⟩, he, heq⟩ := List.mem_map.mp hmem
  obtain ⟨hent, htest⟩ := List.mem_filter.mp he
  obtain ⟨rfl, rfl⟩ := Prod.mk.inj heq
  simp only [Bool.and_eq_true, beq_iff_eq] at htest hdst
  exact ⟨e, AList.mem_lookup_iff.mpr hent, htest.2, htest.1, hdst⟩

/-- A snapshot names no old edge only if it has none. -/
theorem oldParentEdge_none {session : Store} {oldParent nodeId : NodeId}
    (h : oldParentEdge session oldParent nodeId = none) : ¬ Child session oldParent nodeId := by
  rintro ⟨eid, e, he, hlabel, hsrc, hdst⟩
  unfold oldParentEdge getNeighborsOutgoingByType at h
  rw [Option.map_eq_none_iff, List.find?_eq_none] at h
  have hchild : (⟨eid, e⟩ : Σ _ : EdgeId, Edge) ∈ session.edges.entries.filter
      fun e => e.2.src == oldParent && e.2.label == treeEdgeLabel :=
    List.mem_filter.mpr ⟨AList.mem_lookup_iff.mp he, by simp [hsrc, hlabel]⟩
  exact h (e.dst, eid) (List.mem_map.mpr ⟨⟨eid, e⟩, hchild, rfl⟩) (by simp [hdst])

/-- The store that a move's deletion leaves. -/
def withoutEdge (oldEdge : Option EdgeId) (store : Store) : Store :=
  match oldEdge with
  | some eid => store.dropEdge eid
  | none => store

/-- The tree edges after the writes of a move: those that the deletion leaves, and the new
one. -/
theorem child_reparent {store : Store} {oldEdge : Option EdgeId} {nodeId newParent : NodeId}
    (hfresh : ∀ id ∈ store.edges, id < store.nextEdge) (p c : NodeId) :
    Child (reparent oldEdge nodeId newParent store) p c ↔
      Child (withoutEdge oldEdge store) p c ∨ p = newParent ∧ c = nodeId := by
  have hreparent : (reparent oldEdge nodeId newParent store).edges
      = (withoutEdge oldEdge store).edges.insert store.nextEdge
          ⟨newParent, nodeId, treeEdgeLabel, ∅⟩ := by
    cases oldEdge <;> rfl
  -- the new edge takes an id that no edge has
  have hnew : (withoutEdge oldEdge store).edges.lookup store.nextEdge = none := by
    have hnone : store.edges.lookup store.nextEdge = none :=
      AList.lookup_eq_none.mpr fun hmem => Nat.lt_irrefl _ (hfresh _ hmem)
    cases oldEdge with
    | none => exact hnone
    | some eid =>
      show (store.edges.erase eid).lookup store.nextEdge = none
      rw [alist_lookup_erase, hnone]
      split <;> rfl
  constructor
  · rintro ⟨eid, e, he, hlabel, hsrc, hdst⟩
    rw [hreparent, alist_lookup_insert] at he
    split at he
    · obtain rfl := Option.some.inj he
      exact .inr ⟨hsrc.symm, hdst.symm⟩
    · exact .inl ⟨eid, e, he, hlabel, hsrc, hdst⟩
  · rintro (⟨eid, e, he, hlabel, hsrc, hdst⟩ | ⟨rfl, rfl⟩)
    · refine ⟨eid, e, ?_, hlabel, hsrc, hdst⟩
      have hne : eid ≠ store.nextEdge := fun heq => by
        rw [heq, hnew] at he
        cases he
      rw [hreparent, alist_lookup_insert, if_neg hne]
      exact he
    · refine ⟨store.nextEdge, ⟨p, c, treeEdgeLabel, ∅⟩, ?_, rfl, rfl, rfl⟩
      rw [hreparent, alist_lookup_insert, if_pos rfl]

/-- The deletion of a move takes tree edges away, and only edges into its node. -/
theorem child_withoutEdge {store : Store} {oldEdge : Option EdgeId} {nodeId : NodeId}
    (hold : ∀ eid, oldEdge = some eid → ∀ e, store.edges.lookup eid = some e → e.dst = nodeId) :
    (∀ p c, Child (withoutEdge oldEdge store) p c → Child store p c) ∧
      ∀ p c, Child store p c → c ≠ nodeId → Child (withoutEdge oldEdge store) p c := by
  cases oldEdge with
  | none => exact ⟨fun _ _ h => h, fun _ _ h _ => h⟩
  | some gone =>
    constructor
    · rintro p c ⟨eid, e, he, hrest⟩
      change (store.edges.erase gone).lookup eid = some e at he
      rw [alist_lookup_erase] at he
      split at he
      · cases he
      · exact ⟨eid, e, he, hrest⟩
    · rintro p c ⟨eid, e, he, hlabel, hsrc, hdst⟩ hne
      refine ⟨eid, e, ?_, hlabel, hsrc, hdst⟩
      have hkeep : eid ≠ gone := fun heq => hne (by
        rw [← hdst]
        exact hold gone rfl e (heq ▸ he))
      show (store.edges.erase gone).lookup eid = some e
      rw [alist_lookup_erase, if_neg hkeep]
      exact he

/-! ### Runs of concurrent moves -/

/-- The invariant of the moves: edge ids are fresh, an edge that a snapshot and the committed
store both have is the same edge, and a checked move has passed its check. -/
structure MovesOk (s : TreeMoves) : Prop where
  fresh : ∀ id ∈ s.committed.edges, id < s.committed.nextEdge
  snapshotFresh : ∀ m ∈ s.moves, ∀ id ∈ m.snapshot.edges, id < s.committed.nextEdge
  same : ∀ m ∈ s.moves, ∀ id e e', m.snapshot.edges.lookup id = some e →
    s.committed.edges.lookup id = some e' → e' = e
  checked : ∀ m ∈ s.moves, m.phase = .checked →
    wouldCreateCycleInTx m.snapshot m.nodeId m.newParent = false

/-- A change of one move's phase keeps the invariant. -/
theorem movesOk_setPhase {s : TreeMoves} {i : Nat} {m : MoveTx} {phase : MovePhase}
    (h : MovesOk s) (hm : s.moves[i]? = some m)
    (hphase : phase = .checked → wouldCreateCycleInTx m.snapshot m.nodeId m.newParent = false) :
    MovesOk (s.setPhase i m phase) := by
  have hmem : m ∈ s.moves := List.mem_of_getElem? hm
  have hset : ∀ m' ∈ s.moves.set i { m with phase }, m' ∈ s.moves ∨ m' = { m with phase } :=
    fun m' hm' => List.mem_or_eq_of_mem_set hm'
  constructor
  case fresh => exact h.fresh
  case snapshotFresh =>
    intro m' hm'
    rcases hset m' hm' with hm' | rfl
    · exact h.snapshotFresh m' hm'
    · exact h.snapshotFresh m hmem
  case same =>
    intro m' hm'
    rcases hset m' hm' with hm' | rfl
    · exact h.same m' hm'
    · exact h.same m hmem
  case checked =>
    intro m' hm' hchecked
    rcases hset m' hm' with hm' | rfl
    · exact h.checked m' hm' hchecked
    · exact hphase hchecked

/-- What a step of the moves can do: a new move with the committed store as its snapshot, a
change of a move's phase, or a commit. -/
theorem treeMove_next_cases {debug : NodeId → String} {s u : TreeMoves} {a : TreeMoveAction}
    (h : s.next debug a = some u) :
    (∃ m : MoveTx, m.snapshot = s.committed ∧ m.phase ≠ .checked ∧ (∀ i, a ≠ .commit i) ∧
        u = { s with moves := s.moves ++ [m] }) ∨
      (∃ i m phase, s.moves[i]? = some m ∧
        (phase = .checked → wouldCreateCycleInTx m.snapshot m.nodeId m.newParent = false) ∧
        (∀ i, a ≠ .commit i) ∧ u = s.setPhase i m phase) ∨
      (∃ i m, a = .commit i ∧ s.moves[i]? = some m ∧ m.phase = .checked ∧
        u = { s.setPhase i m (.finished (.ok ())) with
          committed := reparent (oldParentEdge m.snapshot m.oldParent m.nodeId) m.nodeId
            m.newParent s.committed }) := by
  cases a with
  | begin nodeId oldParent newParent =>
    simp only [TreeMoves.next, Option.some.injEq] at h
    refine .inl ⟨_, rfl, ?_, nofun, h.symm⟩
    dsimp only
    split <;> exact nofun
  | check i =>
    simp only [TreeMoves.next] at h
    split at h
    · rename_i m hm
      split at h
      · split at h
        · cases h
          exact .inr (.inl ⟨i, m, .finished _, hm, nofun, nofun, rfl⟩)
        · rename_i hno
          cases h
          exact .inr (.inl ⟨i, m, _, hm, fun _ => Bool.eq_false_iff.mpr hno, nofun, rfl⟩)
      · cases h
    · cases h
  | commit i =>
    simp only [TreeMoves.next] at h
    split at h
    · rename_i m hm
      split at h
      · rename_i hphase
        cases h
        exact .inr (.inr ⟨i, m, rfl, hm, hphase, rfl⟩)
      · cases h
    · cases h
  | fail i =>
    simp only [TreeMoves.next] at h
    split at h
    · rename_i m hm
      split at h
      · cases h
      · cases h
        exact .inr (.inl ⟨i, m, .finished _, hm, nofun, nofun, rfl⟩)
    · cases h

/-- An edge of the store after the writes of a move is the new one or was there before. -/
theorem reparent_lookup {store : Store} {oldEdge : Option EdgeId} {nodeId newParent : NodeId}
    {id : EdgeId} {e : Edge} (h : (reparent oldEdge nodeId newParent store).edges.lookup id = some e) :
    id = store.nextEdge ∨ store.edges.lookup id = some e := by
  cases oldEdge with
  | none =>
    change (store.edges.insert store.nextEdge _).lookup id = some e at h
    rw [alist_lookup_insert] at h
    split at h
    · rename_i heq
      exact .inl heq
    · exact .inr h
  | some gone =>
    change ((store.edges.erase gone).insert store.nextEdge _).lookup id = some e at h
    rw [alist_lookup_insert, alist_lookup_erase] at h
    split at h
    · rename_i heq
      exact .inl heq
    · split at h
      · cases h
      · exact .inr h

theorem reparent_nextEdge (store : Store) (oldEdge : Option EdgeId) (nodeId newParent : NodeId) :
    (reparent oldEdge nodeId newParent store).nextEdge = store.nextEdge + 1 := by
  cases oldEdge <;> rfl

/-- A new move has the committed store as its snapshot. -/
theorem movesOk_begin {s : TreeMoves} (h : MovesOk s) {m : MoveTx}
    (hsnapshot : m.snapshot = s.committed) (hphase : m.phase ≠ .checked) :
    MovesOk { s with moves := s.moves ++ [m] } := by
  have hnew : ∀ m' ∈ s.moves ++ [m], m' ∈ s.moves ∨ m' = m := fun m' hm' =>
    (List.mem_append.mp hm').imp_right List.mem_singleton.mp
  constructor
  case fresh => exact h.fresh
  case snapshotFresh =>
    intro m' hm'
    rcases hnew m' hm' with hm' | rfl
    · exact h.snapshotFresh m' hm'
    · rw [hsnapshot]
      exact h.fresh
  case same =>
    intro m' hm' id e e' he he'
    rcases hnew m' hm' with hm' | rfl
    · exact h.same m' hm' id e e' he he'
    · rw [hsnapshot] at he
      exact Option.some.inj (he'.symm.trans he)
  case checked =>
    intro m' hm' hchecked
    rcases hnew m' hm' with hm' | rfl
    · exact h.checked m' hm' hchecked
    · exact absurd hchecked hphase

/-- A commit: the store loses an edge and gets one with a fresh id. -/
theorem movesOk_reparent {s : TreeMoves} (h : MovesOk s) (oldEdge : Option EdgeId)
    (nodeId newParent : NodeId) :
    MovesOk { s with committed := reparent oldEdge nodeId newParent s.committed } := by
  constructor
  case fresh =>
    intro id hid
    show id < (reparent _ _ _ s.committed).nextEdge
    rw [reparent_nextEdge]
    obtain ⟨e, he⟩ := Option.isSome_iff_exists.mp (AList.lookup_isSome.mpr hid)
    rcases reparent_lookup he with rfl | he
    · exact Nat.lt_succ_self _
    · refine Nat.lt_succ_of_lt (h.fresh id (AList.lookup_isSome.mp ?_))
      rw [he]
      rfl
  case snapshotFresh =>
    intro m hm id hid
    show id < (reparent _ _ _ s.committed).nextEdge
    rw [reparent_nextEdge]
    exact Nat.lt_succ_of_lt (h.snapshotFresh m hm id hid)
  case same =>
    intro m hm id e e' he he'
    rcases reparent_lookup he' with rfl | he'
    · -- the id of the new edge is in no snapshot
      have hlt : s.committed.nextEdge < s.committed.nextEdge :=
        h.snapshotFresh m hm _ (AList.lookup_isSome.mp (by rw [he]; rfl))
      exact absurd hlt (Nat.lt_irrefl _)
    · exact h.same m hm id e e' he he'
  case checked => exact h.checked

/-- Every step keeps the invariant. -/
theorem movesOk_step {debug : NodeId → String} {s u : TreeMoves} {a : TreeMoveAction}
    (hnext : s.next debug a = some u) (h : MovesOk s) : MovesOk u := by
  obtain ⟨m, hsnapshot, hphase, -, rfl⟩ | ⟨i, m, phase, hm, hphase, -, rfl⟩ |
    ⟨i, m, rfl, hm, hphase, rfl⟩ := treeMove_next_cases hnext
  · exact movesOk_begin h hsnapshot hphase
  · exact movesOk_setPhase h hm hphase
  · have hfinished : MovesOk (s.setPhase i m (.finished (.ok ()))) :=
      movesOk_setPhase h hm nofun
    exact movesOk_reparent hfinished _ _ _

/-- The committed tree is acyclic. -/
def TreeAcyclic (s : TreeMoves) : Prop := Acyclic (Child s.committed)

/-- The new parent of a commit is neither the node nor below it in the committed tree. -/
def CommitClear (s : TreeMoves) : TreeMoveAction → Prop
  | .commit i => ∀ m, s.moves[i]? = some m →
      ¬ ReflTransGen (Child s.committed) m.nodeId m.newParent
  | _ => True

theorem commitClear_of_ne {s : TreeMoves} {a : TreeMoveAction} (h : ∀ i, a ≠ .commit i) :
    CommitClear s a := by
  cases a with
  | commit i => exact absurd rfl (h i)
  | _ => trivial

/-- A step keeps the tree acyclic exactly when it meets the condition. -/
theorem treeAcyclic_step_iff {debug : NodeId → String} {s u : TreeMoves} {a : TreeMoveAction}
    (hnext : s.next debug a = some u) (hok : MovesOk s) (hs : TreeAcyclic s) :
    TreeAcyclic u ↔ CommitClear s a := by
  obtain ⟨m, -, -, hne, rfl⟩ | ⟨i, m, phase, -, -, hne, rfl⟩ | ⟨i, m, rfl, hm, -, rfl⟩ :=
    treeMove_next_cases hnext
  · exact ⟨fun _ => commitClear_of_ne hne, fun _ => hs⟩
  · exact ⟨fun _ => commitClear_of_ne hne, fun _ => hs⟩
  · -- the edge that the snapshot named, if it is still there, goes into the node
    have hold : ∀ eid, oldParentEdge m.snapshot m.oldParent m.nodeId = some eid →
        ∀ e, s.committed.edges.lookup eid = some e → e.dst = m.nodeId := by
      intro eid heid e he
      obtain ⟨e', he', -, -, hdst⟩ := oldParentEdge_some heid
      rw [hok.same m (List.mem_of_getElem? hm) eid e' e he' he]
      exact hdst
    obtain ⟨hle, hkeep⟩ := child_withoutEdge hold
    have hchild : Child (reparent (oldParentEdge m.snapshot m.oldParent m.nodeId) m.nodeId
        m.newParent s.committed) = fun p c => Child (withoutEdge
          (oldParentEdge m.snapshot m.oldParent m.nodeId) s.committed) p c ∨
            p = m.newParent ∧ c = m.nodeId :=
      funext fun p => funext fun c => propext (child_reparent hok.fresh p c)
    have hclear : CommitClear s (.commit i) ↔
        ¬ ReflTransGen (Child s.committed) m.nodeId m.newParent := by
      refine ⟨fun h => h m hm, fun h m' hm' => ?_⟩
      obtain rfl := Option.some.inj (hm.symm.trans hm')
      exact h
    rw [hclear, ← acyclic_move_iff hs hle hkeep, ← hchild]
    rfl

/-- From every store with an acyclic tree, over every interleaving of any number of moves, the
committed tree is acyclic in every state exactly when no commit finds its new parent at or
below its node. -/
theorem treeAcyclic_iff (debug : NodeId → String) {store : Store}
    (hfresh : ∀ id ∈ store.edges, id < store.nextEdge) (hstart : Acyclic (Child store))
    {h : List (TreeMoves × TreeMoveAction)} {t : TreeMoves}
    (hrun : Exec (TreeMoves.next debug) (TreeMoves.init store) h t) :
    Always TreeAcyclic h t ↔ Steps CommitClear h := by
  have hinit : MovesOk (TreeMoves.init store) :=
    ⟨hfresh, fun _ hm => absurd hm List.not_mem_nil, fun _ hm => absurd hm List.not_mem_nil,
      fun _ hm => absurd hm List.not_mem_nil⟩
  exact hrun.always_iff (G := fun _ _ => True) (fun _ _ _ hn _ => movesOk_step hn) hinit hstart
    (fun _ _ _ hn _ => treeAcyclic_step_iff hn) fun _ _ => trivial

/-- A commit that still sees its own snapshot is clear: its check has looked at the committed
tree. -/
theorem commitClear_of_current {s : TreeMoves} (hok : MovesOk s) {i : Nat}
    (hcurrent : ∀ m, s.moves[i]? = some m → m.phase = .checked ∧
      m.snapshot.edges = s.committed.edges) : CommitClear s (.commit i) := by
  intro m hm hpath
  obtain ⟨hphase, hedges⟩ := hcurrent m hm
  have hpassed := hok.checked m (List.mem_of_getElem? hm) hphase
  have hlinked : ∀ p c, Child s.committed p c → Linked m.snapshot p c := by
    rintro p c hchild
    obtain ⟨eid, e, he, hsrc, hdst⟩ := hchild.linked
    exact ⟨eid, e, hedges ▸ he, hsrc, hdst⟩
  have hcycle := (wouldCreateCycleInTx_iff m.snapshot m.nodeId m.newParent).mpr
    (ReflTransGen.mono hlinked _ _ hpath)
  rw [hpassed] at hcycle
  cases hcycle

/-- Moves one after the other keep the tree acyclic: in every run in which every commit still
sees its own snapshot, the committed tree is acyclic in every state. -/
theorem treeAcyclic_of_current (debug : NodeId → String) {store : Store}
    (hfresh : ∀ id ∈ store.edges, id < store.nextEdge) (hstart : Acyclic (Child store))
    {h : List (TreeMoves × TreeMoveAction)} {t : TreeMoves}
    (hrun : Exec (TreeMoves.next debug) (TreeMoves.init store) h t)
    (hcurrent : Steps (fun s a => ∀ i m, a = .commit i → s.moves[i]? = some m →
      m.snapshot.edges = s.committed.edges) h) :
    Always TreeAcyclic h t := by
  have hboth := hrun.invariant_of_steps (I := fun s => MovesOk s ∧ TreeAcyclic s)
    (fun s a u hnext hcur hI => ?_) ⟨⟨hfresh, nofun, nofun, nofun⟩, hstart⟩ hcurrent
  · exact ⟨fun p hp => (hboth.1 p hp).2, hboth.2.2⟩
  · obtain ⟨hok, hacyclic⟩ := hI
    refine ⟨movesOk_step hnext hok, (treeAcyclic_step_iff hnext hok hacyclic).mpr ?_⟩
    obtain ⟨m, -, -, hne, rfl⟩ | ⟨i, m, phase, -, -, hne, rfl⟩ | ⟨i, m, rfl, hm, hphase, rfl⟩ :=
      treeMove_next_cases hnext
    · exact commitClear_of_ne hne
    · exact commitClear_of_ne hne
    · refine commitClear_of_current hok fun m' hm' => ?_
      obtain rfl := Option.some.inj (hm.symm.trans hm')
      exact ⟨hphase, hcur i m rfl hm⟩

/-! ### A move alone -/

/-- What a move that is run alone and succeeds did after its probe: its check passed, and it
wrote what a commit of `TreeMoves` writes. -/
theorem syncTreeMove_ok {debug : NodeId → String} {fault : Nat → Bool}
    {nodeId oldParent newParent : NodeId} {store store' : Store}
    (hprobe : probeTreeMove debug nodeId oldParent newParent store = none)
    (hok : syncTreeMoveToGrafeo debug fault nodeId oldParent newParent store = (.ok (), store')) :
    wouldCreateCycleInTx store nodeId newParent = false ∧
      store'.edges
        = (reparent (oldParentEdge store oldParent nodeId) nodeId newParent store).edges := by
  simp only [syncTreeMoveToGrafeo, hprobe, call, prepareCommit, commit] at hok
  by_cases hbegin : fault store.calls
  · simp [hbegin] at hok
  · simp only [hbegin, Bool.false_eq_true, if_false, id] at hok
    have hcheck : wouldCreateCycleInTx store.tick nodeId newParent
        = wouldCreateCycleInTx store nodeId newParent := rfl
    cases hcycle : wouldCreateCycleInTx store nodeId newParent with
    | true => simp [hcheck, hcycle] at hok
    | false =>
      simp only [hcheck, hcycle, Bool.false_eq_true, if_false] at hok
      have hwritten : (reparent (oldParentEdge store.tick oldParent nodeId) nodeId newParent
          store.tick).edges
            = (reparent (oldParentEdge store oldParent nodeId) nodeId newParent store).edges := by
        show (reparent (oldParentEdge store oldParent nodeId) _ _ store.tick).edges = _
        cases oldParentEdge store oldParent nodeId <;> rfl
      generalize reparent (oldParentEdge store.tick oldParent nodeId) nodeId newParent
        store.tick = written at hok hwritten
      by_cases hprepare : fault written.calls
      · simp [hprepare] at hok
      · simp only [hprepare, Bool.false_eq_true, if_false] at hok
        by_cases hcommit : fault written.tick.calls
        · simp [hcommit] at hok
        · simp only [hcommit, Bool.false_eq_true, if_false] at hok
          obtain rfl := (Prod.mk.inj hok).2
          exact ⟨rfl, hwritten⟩

/-- A move that is run alone and succeeds is a run of `TreeMoves` with one move, which sees its
own snapshot all along. -/
theorem syncTreeMove_run {debug : NodeId → String} {fault : Nat → Bool}
    {nodeId oldParent newParent : NodeId} {store store' : Store}
    (hprobe : probeTreeMove debug nodeId oldParent newParent store = none)
    (hok : syncTreeMoveToGrafeo debug fault nodeId oldParent newParent store = (.ok (), store')) :
    ∃ h t, Exec (TreeMoves.next debug) (TreeMoves.init store) h t ∧
      (∀ p ∈ h, p.1.committed = store ∧ ∀ m ∈ p.1.moves, m.snapshot = store) ∧
      t.committed.edges = store'.edges := by
  obtain ⟨hcheck, hedges⟩ := syncTreeMove_ok hprobe hok
  let inPhase (phase : MovePhase) : TreeMoves :=
    ⟨store, [⟨nodeId, oldParent, newParent, store, phase⟩]⟩
  have hbegin : TreeMoves.next debug (TreeMoves.init store) (.begin nodeId oldParent newParent)
      = some (inPhase .begun) := by
    simp only [TreeMoves.next, TreeMoves.init, hprobe]
    rfl
  have hchecked : TreeMoves.next debug (inPhase .begun) (.check 0)
      = some (inPhase .checked) := by
    show (if wouldCreateCycleInTx store nodeId newParent then _ else _) = _
    rw [hcheck]
    rfl
  have hrun := ((Exec.nil.snoc hbegin).snoc hchecked).snoc (a := .commit 0) rfl
  refine ⟨_, _, hrun, ?_, hedges.symm⟩
  intro p hp
  simp only [List.nil_append, List.cons_append, List.mem_cons, List.not_mem_nil, or_false] at hp
  rcases hp with rfl | rfl | rfl
  · exact ⟨rfl, fun m hm => absurd hm List.not_mem_nil⟩
  · exact ⟨rfl, fun m hm => by rw [List.mem_singleton.mp hm]⟩
  · exact ⟨rfl, fun m hm => by rw [List.mem_singleton.mp hm]⟩

/-- A move that is run alone and succeeds keeps the tree acyclic. -/
theorem syncTreeMove_acyclic {debug : NodeId → String} {fault : Nat → Bool}
    {nodeId oldParent newParent : NodeId} {store store' : Store}
    (hfresh : ∀ id ∈ store.edges, id < store.nextEdge) (hstart : Acyclic (Child store))
    (hprobe : probeTreeMove debug nodeId oldParent newParent store = none)
    (hok : syncTreeMoveToGrafeo debug fault nodeId oldParent newParent store = (.ok (), store')) :
    Acyclic (Child store') := by
  obtain ⟨h, t, hrun, hcurrent, hedges⟩ := syncTreeMove_run hprobe hok
  have hacyclic : TreeAcyclic t := by
    refine (treeAcyclic_of_current debug hfresh hstart hrun fun p hp i m _ hm => ?_).2
    obtain ⟨hcommitted, hsnapshots⟩ := hcurrent p hp
    rw [hcommitted, hsnapshots m (List.mem_of_getElem? hm)]
  have hchild : Child t.committed = Child store' := by
    unfold Child
    rw [hedges]
  rw [← hchild]
  exact hacyclic

/-- A root with two children. -/
def twoSiblings : Store :=
  ((((Store.empty.addNode [] []).addNode [] []).addNode [] []).addEdge 0 1 treeEdgeLabel
    []).addEdge 0 2 treeEdgeLabel []

/-- Its edges go from smaller to larger ids. -/
theorem twoSiblings_acyclic : Acyclic (Child twoSiblings) := by
  refine Acyclic.of_rank id ?_
  have hup : ∀ e ∈ twoSiblings.edges.entries, e.2.src < e.2.dst := by decide
  rintro p c ⟨eid, e, he, -, rfl, rfl⟩
  exact hup ⟨eid, e⟩ (AList.mem_lookup_iff.mp he)

theorem twoSiblings_fresh : ∀ id ∈ twoSiblings.edges, id < twoSiblings.nextEdge := by
  have hids : ∀ id ∈ twoSiblings.edges.keys, id < twoSiblings.nextEdge := by decide
  exact fun id hid => hids id (AList.mem_keys.mp hid)

/-- One sibling moves under the other. -/
theorem treeAcyclic_one_move :
    ∃ h t, Exec (TreeMoves.next fun _ => "") (TreeMoves.init twoSiblings) h t ∧
      h.map Prod.snd = [.begin 1 0 2, .check 0, .commit 0] ∧ Always TreeAcyclic h t := by
  have hrun : Exec (TreeMoves.next fun _ => "") (TreeMoves.init twoSiblings) _ _ :=
    Exec.snoc (Exec.snoc (Exec.snoc .nil (a := .begin 1 0 2) rfl) (a := .check 0) rfl)
      (a := .commit 0) rfl
  refine ⟨_, _, hrun, rfl,
    (treeAcyclic_iff (fun _ => "") twoSiblings_fresh twoSiblings_acyclic hrun).mpr ?_⟩
  intro p hp
  simp only [List.nil_append, List.cons_append, List.mem_cons, List.not_mem_nil, or_false] at hp
  rcases hp with rfl | rfl | rfl
  · exact trivial
  · exact trivial
  · rintro m hm hpath
    obtain rfl := Option.some.inj hm
    have hleaf : ∀ e ∈ twoSiblings.edges.entries, e.2.src ≠ 1 := by decide
    rcases hpath.cases_head with heq | ⟨c, ⟨eid, e, he, -, hsrc, -⟩, -⟩
    · cases heq
    · exact hleaf ⟨eid, e⟩ (AList.mem_lookup_iff.mp he) hsrc

/-- Two siblings move under each other at once. Each check looks at a snapshot without the
other move and passes, and the two commits close a cycle. -/
theorem writeSkew_cycle :
    ∃ h t, Exec (TreeMoves.next fun _ => "") (TreeMoves.init twoSiblings) h t ∧
      h.map Prod.snd
        = [.begin 1 0 2, .begin 2 0 1, .check 0, .check 1, .commit 0, .commit 1] ∧
      Acyclic (Child twoSiblings) ∧ ¬ TreeAcyclic t := by
  have hrun : Exec (TreeMoves.next fun _ => "") (TreeMoves.init twoSiblings) _ _ :=
    Exec.snoc (Exec.snoc (Exec.snoc (Exec.snoc (Exec.snoc (Exec.snoc .nil (a := .begin 1 0 2) rfl)
      (a := .begin 2 0 1) rfl) (a := .check 0) rfl) (a := .check 1) rfl) (a := .commit 0) rfl)
      (a := .commit 1) rfl
  refine ⟨_, _, hrun, rfl, twoSiblings_acyclic, fun hacyclic => hacyclic 1 ?_⟩
  refine (TransGen.single (b := 2) ?_).tail ?_
  · exact ⟨3, ⟨1, 2, treeEdgeLabel, ∅⟩, rfl, rfl, rfl, rfl⟩
  · exact ⟨2, ⟨2, 1, treeEdgeLabel, ∅⟩, rfl, rfl, rfl, rfl⟩

end GrafeoLoro.Proofs
