import GrafeoLoro.Lib.Maps
import GrafeoLoro.Schema.EdgeSpec

/-!
# `GrafeoLoro.Proofs.EdgeBatch`: the pre-commit check is exact

* `validateAcyclic_exact`: for every batch and all iteration orders the check comes to a result. It
  accepts exactly the batches without a cycle, and the edge that it reports is an edge of the batch
  on a cycle.
-/

set_option autoImplicit false

namespace GrafeoLoro.Proofs

open GrafeoLoro GrafeoLoro.Lib Relation

/-- An edge of the batch, of any label. -/
def BatchEdge (edges : List EdgeSpec) (x y : String) : Prop :=
  ∃ e ∈ edges, e.src = x ∧ e.dst = y

/-! ### The adjacency map -/

/-- The targets of a source in the adjacency map. -/
def targets (adj : HashMap String (Finset String)) (x : String) : Finset String :=
  (adj.lookup x).getD ∅

/-- One edge more in the adjacency map. -/
theorem mem_targets_insert {adj : HashMap String (Finset String)} {src dst x y : String} :
    y ∈ targets (adj.insert src (insert dst (targets adj src))) x ↔
      y ∈ targets adj x ∨ src = x ∧ dst = y := by
  rw [targets, finmap_lookup_insert]
  by_cases hx : x = src
  · subst hx
    rw [if_pos rfl, Option.getD_some, Finset.mem_insert]
    constructor
    · rintro (rfl | hy)
      · exact .inr ⟨rfl, rfl⟩
      · exact .inl hy
    · rintro (hy | ⟨-, rfl⟩)
      · exact .inr hy
      · exact .inl rfl
  · rw [if_neg hx]
    exact ⟨.inl, fun h => h.resolve_right fun hsame => hx hsame.1.symm⟩

/-- A batch that is built: it has no self-loop, the adjacency map holds its edges in addition, and
the nodes are their ends. -/
theorem buildAdjacency_ok {edges : List EdgeSpec} {adj adj' : HashMap String (Finset String)}
    {nodes nodes' : Finset String} (h : buildAdjacency edges adj nodes = .ok (adj', nodes')) :
    (∀ x y, y ∈ targets adj' x ↔ y ∈ targets adj x ∨ BatchEdge edges x y) ∧
      ∀ x, x ∈ nodes' ↔ x ∈ nodes ∨ ∃ e ∈ edges, x = e.src ∨ x = e.dst := by
  induction edges generalizing adj nodes with
  | nil =>
    obtain ⟨rfl, rfl⟩ : adj = adj' ∧ nodes = nodes' := by simpa [buildAdjacency] using h
    simp [BatchEdge]
  | cons e edges ih =>
    rw [buildAdjacency] at h
    split at h
    · cases h
    · obtain ⟨hadj, hnodes⟩ := ih h
      constructor
      · intro x y
        rw [hadj x y]
        refine (or_congr_left mem_targets_insert).trans ?_
        rw [or_assoc]
        simp [BatchEdge]
      · intro x
        rw [hnodes x]
        simp only [Finset.mem_insert, List.mem_cons, exists_eq_or_imp]
        grind

/-- A batch that is not built has a self-loop, which is reported. -/
theorem buildAdjacency_error {edges : List EdgeSpec} {adj : HashMap String (Finset String)}
    {nodes : Finset String} {err : CycleError} (h : buildAdjacency edges adj nodes = .error err) :
    ∃ e ∈ edges, e.src = e.dst ∧ err = ⟨e.dst, e.src⟩ := by
  induction edges generalizing adj nodes with
  | nil => cases h
  | cons e edges ih =>
    rw [buildAdjacency] at h
    split at h
    · rename_i hloop
      cases h
      exact ⟨e, List.mem_cons_self, hloop, rfl⟩
    · obtain ⟨e', hmem, hloop⟩ := ih h
      exact ⟨e', List.mem_cons_of_mem _ hmem, hloop⟩

/-! ### The check -/

section
variable (nodesOrder : SetOrder String) (order : String → SetOrder String)

theorem mem_neighbors {adj : HashMap String (Finset String)} {x y : String} :
    y ∈ neighbors order adj x ↔ y ∈ targets adj x :=
  (order x).mem_iter _ _

/-- The relation that is searched is that of the batch. -/
theorem edges_neighbors {edges : List EdgeSpec} {adj : HashMap String (Finset String)}
    {nodes : Finset String} (hbuild : buildAdjacency edges ∅ ∅ = .ok (adj, nodes)) :
    Edges (neighbors order adj) = BatchEdge edges := by
  funext x y
  refine propext ((mem_neighbors order).trans (((buildAdjacency_ok hbuild).1 x y).trans ?_))
  simp [targets]

/-- Both ends of an edge that is searched are nodes. -/
theorem mem_nodes_of_neighbors {edges : List EdgeSpec} {adj : HashMap String (Finset String)}
    {nodes : Finset String} (hbuild : buildAdjacency edges ∅ ∅ = .ok (adj, nodes)) {x y : String}
    (hy : y ∈ neighbors order adj x) : x ∈ nodes ∧ y ∈ nodes := by
  have hmem := (buildAdjacency_ok hbuild).2
  obtain ⟨e, he, rfl, rfl⟩ : BatchEdge edges x y := by
    rw [← edges_neighbors order hbuild]
    exact hy
  exact ⟨(hmem _).mpr (.inr ⟨e, he, .inl rfl⟩), (hmem _).mpr (.inr ⟨e, he, .inr rfl⟩)⟩

/-- The check comes to a result. -/
theorem validateAcyclic_returns (edges : List EdgeSpec) :
    ∃ fuel res, ∀ more, fuel ≤ more → validateAcyclic nodesOrder order more edges = some res := by
  cases hempty : edges.isEmpty with
  | true => exact ⟨0, .ok (), fun more _ => by simp [validateAcyclic, hempty]⟩
  | false =>
    cases hbuild : buildAdjacency edges ∅ ∅ with
    | error err => exact ⟨0, .error err, fun more _ => by simp [validateAcyclic, hempty, hbuild]⟩
    | ok built =>
      obtain ⟨adj, nodes⟩ := built
      have hmem : ∀ x y, y ∈ neighbors order adj x → y ∈ nodes :=
        fun x y hy => (mem_nodes_of_neighbors order hbuild hy).2
      obtain ⟨fuel, res, hfuel⟩ :=
        findBackEdge_returns nodes hmem (nodesOrder.iter nodes) fun _ => .white
      refine ⟨fuel, res.mapError fun edge => ⟨edge.2, edge.1⟩, fun more hmore => ?_⟩
      simp only [validateAcyclic, hempty, hbuild, hfuel more hmore]
      rfl

/-- What the check reports is right. -/
theorem validateAcyclic_report {fuel : Nat} {edges : List EdgeSpec} {res : Except CycleError Unit}
    (hrun : validateAcyclic nodesOrder order fuel edges = some res) :
    Report (BatchEdge edges) (res.mapError fun err => (err.newParent, err.node)) := by
  rw [validateAcyclic] at hrun
  split at hrun
  · rename_i hempty
    obtain rfl := List.isEmpty_iff.mp hempty
    obtain rfl := Option.some.inj hrun
    intro x hcycle
    obtain ⟨y, ⟨e, hmem, -⟩, -⟩ := TransGen.head'_iff.mp hcycle
    simp at hmem
  · split at hrun
    · rename_i err hbuild
      obtain rfl := Option.some.inj hrun
      obtain ⟨e, hmem, hloop, rfl⟩ := buildAdjacency_error hbuild
      -- A self-loop is the path back to itself.
      show BatchEdge edges e.src e.dst ∧ ReflTransGen (BatchEdge edges) e.dst e.src
      exact ⟨⟨e, hmem, rfl, rfl⟩, hloop ▸ .refl⟩
    · rename_i adj nodes hbuild
      -- Every node with a neighbour is a root of the search.
      obtain ⟨res', hsearch, rfl⟩ := Option.map_eq_some_iff.mp hrun
      have hreport := findBackEdge_report (fun x y hy => (nodesOrder.mem_iter nodes x).mpr
        (mem_nodes_of_neighbors order hbuild hy).1) hsearch
      rw [edges_neighbors order hbuild] at hreport
      cases res' with
      | ok u => exact hreport
      | error edge => exact hreport

/-- The check of a batch of edges, in all iteration orders of its hash sets, comes to a result. The
result is `Ok` exactly when the edges, of all labels, form no cycle. An error reports an edge of
the batch, from its `new_parent` to its `node`, and there is a path back. -/
theorem validateAcyclic_exact (edges : List EdgeSpec) :
    ∃ fuel res, (∀ more, fuel ≤ more →
        validateAcyclic nodesOrder order more edges = some res) ∧
      (res = .ok () ↔ Acyclic (BatchEdge edges)) ∧
      ∀ err, res = .error err → BatchEdge edges err.newParent err.node ∧
        ReflTransGen (BatchEdge edges) err.node err.newParent := by
  obtain ⟨fuel, res, hfuel⟩ := validateAcyclic_returns nodesOrder order edges
  have hreport := validateAcyclic_report nodesOrder order (hfuel fuel (Nat.le_refl _))
  refine ⟨fuel, res, hfuel, ?_, ?_⟩
  · rw [← hreport.ok_iff]
    cases res <;> simp [Except.mapError]
  · rintro err rfl
    exact hreport

end

end GrafeoLoro.Proofs
