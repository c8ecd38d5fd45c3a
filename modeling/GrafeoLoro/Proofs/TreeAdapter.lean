import GrafeoLoro.Proofs.TreeOps
import GrafeoLoro.TreeAdapter

/-!
# `GrafeoLoro.Proofs.TreeAdapter`: descendants and ancestors over the id maps

`TreeChild maps p c` is one `CHILD` edge between two ids: from the key of `p` to a key that is bound
to `c`. The maps may be out of step, and the edges may form cycles or lead to unbound keys.

* `descendants_reachable`: `descendants` comes to a result, which is what is reachable over one or
  more edges, each node after a parent of it.
* `ancestors_iff_descendants`: in maps in step, with one parent at most for each node, `ancestors`
  is the parent chain, and it is the converse of `descendants`.
-/

set_option autoImplicit false

namespace GrafeoLoro.Proofs

open GrafeoLoro GrafeoLoro.Lib Relation

/-- A `CHILD` edge between two ids. -/
def TreeChild (maps : BridgeMaps) (p c : NodeId) : Prop :=
  ∃ pKey cKey, maps.nodeKeyMap.lookup p = some pKey ∧ TreeEdge maps pKey cKey ∧
    maps.nodeIdMap.lookup cKey = some c

section
variable (debug : NodeId → String) (t : TreeAdapter)

/-! ### One read -/

theorem nodeId_toOption (key : String) :
    (t.nodeId key).toOption = t.maps.nodeIdMap.lookup key := by
  unfold TreeAdapter.nodeId
  cases t.maps.nodeIdMap.lookup key with
  | none => rfl
  | some id => rfl

/-- A read meets a key exactly when it is bound. -/
theorem mem_edgeKeys_iff (node : NodeId) (srcKey dstKey : String) :
    (srcKey, dstKey, treeEdgeLabel) ∈ t.edgeKeys node ↔ TreeEdge t.maps srcKey dstKey := by
  rw [t.mem_edgeKeys, ← Finmap.lookup_isSome, TreeEdge, Option.isSome_iff_ne_none]

/-- The children of a node, and none for a node without a key. -/
def childList (node : NodeId) : List NodeId := (t.children debug node).toOption.getD []

theorem childList_unknown {node : NodeId} (h : t.maps.nodeKeyMap.lookup node = none) :
    childList debug t node = [] := by
  simp [childList, TreeAdapter.children, TreeAdapter.nodeKey, h, Except.toOption]

theorem children_known {node : NodeId} {key : String}
    (h : t.maps.nodeKeyMap.lookup node = some key) :
    t.children debug node = .ok (childList debug t node) := by
  simp [childList, TreeAdapter.children, TreeAdapter.nodeKey, h, Except.toOption]

theorem mem_childList {p c : NodeId} : c ∈ childList debug t p ↔ TreeChild t.maps p c := by
  cases hkey : t.maps.nodeKeyMap.lookup p with
  | none =>
    rw [childList_unknown debug t hkey]
    simp [TreeChild, hkey]
  | some pKey =>
    -- The first collect takes the targets of the `CHILD` edges, the second one their ids.
    have hmem : ∀ cKey, cKey ∈ ((t.edgeKeys p).filterMap fun key : EdgeKey =>
        if key.2.2 == treeEdgeLabel && key.1 == pKey then some key.2.1 else none) ↔
          TreeEdge t.maps pKey cKey := by
      intro cKey
      rw [← mem_edgeKeys_iff t p, List.mem_filterMap]
      constructor
      · rintro ⟨⟨srcKey, dstKey, label⟩, hin, hif⟩
        obtain ⟨⟨rfl, rfl⟩, rfl⟩ : (label = treeEdgeLabel ∧ srcKey = pKey) ∧ dstKey = cKey := by
          simpa using hif
        exact hin
      · exact fun hin => ⟨_, hin, by simp⟩
    have hlist : childList debug t p = (((t.edgeKeys p).filterMap fun key : EdgeKey =>
        if key.2.2 == treeEdgeLabel && key.1 == pKey then some key.2.1 else none).filterMap
          fun childKey => (t.nodeId childKey).toOption) := by
      simp [childList, TreeAdapter.children, TreeAdapter.nodeKey, hkey, Except.toOption]
    rw [hlist, List.mem_filterMap]
    constructor
    · rintro ⟨cKey, hin, hid⟩
      rw [nodeId_toOption] at hid
      exact ⟨pKey, cKey, hkey, (hmem cKey).mp hin, hid⟩
    · rintro ⟨pKey', cKey, hkey', hedge, hid⟩
      rw [hkey] at hkey'
      obtain rfl := Option.some.inj hkey'
      exact ⟨cKey, (hmem cKey).mpr hedge, by rw [nodeId_toOption, hid]⟩

/-- The ids that some key is bound to. -/
def boundIds (maps : BridgeMaps) : Finset NodeId :=
  maps.nodeIdMap.keys.biUnion fun key => (maps.nodeIdMap.lookup key).toFinset

theorem mem_boundIds {maps : BridgeMaps} {key : String} {id : NodeId}
    (h : maps.nodeIdMap.lookup key = some id) : id ∈ boundIds maps := by
  rw [boundIds, Finset.mem_biUnion]
  refine ⟨key, ?_, by simp [h]⟩
  rw [Finmap.mem_keys, ← Finmap.lookup_isSome, h]
  rfl

/-! ### Descendants -/

theorem descendants_eq (fuel : Nat) (node : NodeId) :
    t.descendants debug (fuel + 1) node
      = preorder (childList debug t) (fuel + 1) (childList debug t node) [node] := by
  unfold TreeAdapter.descendants
  cases hkey : t.maps.nodeKeyMap.lookup node with
  | none =>
    rw [childList_unknown debug t hkey]
    simp [TreeAdapter.children, TreeAdapter.nodeKey, hkey, preorder]
  | some key =>
    rw [children_known debug t hkey]
    rfl

/-- `descendants` comes to a result, and the result is an output of the search. -/
theorem descendants_returns (node : NodeId) :
    ∃ fuel out, (∀ more, fuel ≤ more → t.descendants debug more node = some out) ∧
      PreorderOf (childList debug t) (childList debug t node) [node] out := by
  have hbound : ∀ x y, y ∈ childList debug t x → y ∈ boundIds t.maps := by
    intro x y hy
    obtain ⟨_, cKey, _, _, hid⟩ := (mem_childList debug t).mp hy
    exact mem_boundIds hid
  obtain ⟨fuel, out, hfuel⟩ := preorder_returns (boundIds t.maps) hbound (childList debug t node)
    [node] (hbound node)
  -- One round more, because a walk without fuel gives no result even for an unknown node.
  refine ⟨fuel + 1, out, fun more hmore => ?_, .of_result (hfuel fuel (Nat.le_refl _))⟩
  obtain ⟨rest, rfl⟩ := Nat.exists_eq_add_of_le' hmore
  show t.descendants debug (rest + fuel + 1) node = some out
  rw [descendants_eq, hfuel _ (by omega)]

theorem mem_descendants {node : NodeId} {out : List NodeId}
    (h : PreorderOf (childList debug t) (childList debug t node) [node] out) (x : NodeId) :
    x ∈ out ↔ x ≠ node ∧ TransGen (TreeChild t.maps) node x := by
  have hrel : (fun a b => b ∈ childList debug t a) = TreeChild t.maps := by
    funext a b
    exact propext (mem_childList debug t)
  rw [mem_preorder_iff h x, hrel]

/-- In every state of the maps and for every order of the edges, `descendants` comes to a result.
The result has no duplicates. It is what is reachable over one or more `CHILD` edges, without the
node itself, and each id is a child of the node or comes after a parent of it. -/
theorem descendants_reachable (node : NodeId) :
    ∃ fuel out, (∀ more, fuel ≤ more → t.descendants debug more node = some out) ∧ out.Nodup ∧
      (∀ x, x ∈ out ↔ x ≠ node ∧ TransGen (TreeChild t.maps) node x) ∧
      ∀ before x after, out = before ++ x :: after →
        TreeChild t.maps node x ∨ ∃ y ∈ before, TreeChild t.maps y x := by
  obtain ⟨fuel, out, hfuel, hspec⟩ := descendants_returns debug t node
  refine ⟨fuel, out, hfuel, hspec.nodup, mem_descendants debug t hspec, ?_⟩
  intro before x after hout
  rcases hspec.order before x after hout with hchild | ⟨y, hy, hchild⟩
  · exact .inl ((mem_childList debug t).mp hchild)
  · exact .inr ⟨y, hy, (mem_childList debug t).mp hchild⟩

/-! ### Ancestors -/

/-- The parent of a node, and none at a root or at an error. -/
def parentOf (node : NodeId) : Option NodeId := (t.parent debug node).toOption.join

theorem parentOf_unknown {node : NodeId} (h : t.maps.nodeKeyMap.lookup node = none) :
    parentOf debug t node = none := by
  simp [parentOf, TreeAdapter.parent, TreeAdapter.nodeKey, h, Except.toOption]

/-- The first edge that the scan for a parent stops at. -/
def edgeInto (node : NodeId) (key : String) : Option EdgeKey :=
  (t.edgeKeys node).find? fun edge => edge.2.2 == treeEdgeLabel && edge.2.1 == key

/-- The parent is the source of that edge. -/
theorem parentOf_known {node : NodeId} {key : String}
    (h : t.maps.nodeKeyMap.lookup node = some key) :
    parentOf debug t node = (edgeInto t node key).bind fun edge =>
      t.maps.nodeIdMap.lookup edge.1 := by
  cases hedge : edgeInto t node key with
  | none =>
    have hparent : t.parent debug node = .ok none := by
      simp only [TreeAdapter.parent, TreeAdapter.nodeKey, h]
      rw [show (t.edgeKeys node).find? _ = none from hedge]
    rw [parentOf, hparent]
    rfl
  | some edge =>
    have hparent : t.parent debug node = (t.nodeId edge.1).map some := by
      simp only [TreeAdapter.parent, TreeAdapter.nodeKey, h]
      rw [show (t.edgeKeys node).find? _ = some edge from hedge]
    rw [parentOf, hparent, Option.bind_some, ← nodeId_toOption]
    cases t.nodeId edge.1 with
    | error e => rfl
    | ok id => rfl

end

/-- The node maps are in step, the ends of the `CHILD` edges are bound, and no key has two
parents. -/
structure OneParent (maps : BridgeMaps) : Prop where
  nodeInverse : MutualInverse maps.nodeIdMap maps.nodeKeyMap
  bound : ∀ p c, TreeEdge maps p c →
    maps.nodeIdMap.lookup p ≠ none ∧ maps.nodeIdMap.lookup c ≠ none
  unique : ∀ p p' c, TreeEdge maps p c → TreeEdge maps p' c → p = p'

/-- The parents of a node are those of its key. -/
theorem OneParent.treeChild_iff {maps : BridgeMaps} (h : OneParent maps) {node p : NodeId}
    {key : String} (hkey : maps.nodeKeyMap.lookup node = some key) :
    TreeChild maps p node ↔
      ∃ pKey, maps.nodeKeyMap.lookup p = some pKey ∧ TreeEdge maps pKey key := by
  constructor
  · rintro ⟨pKey, cKey, hp, hedge, hid⟩
    rw [h.nodeInverse, hkey] at hid
    obtain rfl := Option.some.inj hid
    exact ⟨pKey, hp, hedge⟩
  · rintro ⟨pKey, hp, hedge⟩
    exact ⟨pKey, key, hp, hedge, (h.nodeInverse _ _).mpr hkey⟩

section
variable (debug : NodeId → String) {t : TreeAdapter} (h : OneParent t.maps)
include h

/-- The scan of the edges finds the parent. -/
theorem parentOf_eq_some_iff {node p : NodeId} :
    parentOf debug t node = some p ↔ TreeChild t.maps p node := by
  cases hkey : t.maps.nodeKeyMap.lookup node with
  | none =>
    rw [parentOf_unknown debug t hkey]
    refine iff_of_false (by simp) ?_
    rintro ⟨_, cKey, _, _, hid⟩
    rw [h.nodeInverse, hkey] at hid
    cases hid
  | some key =>
    rw [h.treeChild_iff hkey, parentOf_known debug t hkey]
    cases hfind : edgeInto t node key with
    | none =>
      refine iff_of_false (by simp) ?_
      rintro ⟨pKey, -, hedge⟩
      have hno := List.find?_eq_none.mp hfind _ ((mem_edgeKeys_iff t node pKey key).mpr hedge)
      simp at hno
    | some edge =>
      obtain ⟨srcKey, dstKey, label⟩ := edge
      have hmem := List.mem_of_find?_eq_some hfind
      obtain ⟨rfl, rfl⟩ : label = treeEdgeLabel ∧ dstKey = key := by
        simpa using List.find?_some hfind
      have hedge := (mem_edgeKeys_iff t node srcKey dstKey).mp hmem
      rw [Option.bind_some, h.nodeInverse]
      constructor
      · exact fun hp => ⟨srcKey, hp, hedge⟩
      · -- another parent would have the same key
        rintro ⟨pKey, hp, hedge'⟩
        rwa [h.unique _ _ _ hedge hedge']

/-- In maps in step, with one parent at most for each node, `ancestors` comes to a result: the
chain of parents, the nearest first, without repetition. It stops at a root, or where it would come
back. A node is in it exactly when the start is among the descendants of that node. -/
theorem ancestors_iff_descendants (d : NodeId) :
    ∃ fuel chain, (∀ more, fuel ≤ more → t.ancestors debug more d = some chain) ∧
      (d :: chain).Nodup ∧ (d :: chain).IsChain (fun c p => TreeChild t.maps p c) ∧
      (∀ x ∈ d :: chain, ∀ p, TreeChild t.maps p x → p ∈ d :: chain) ∧
      ∀ a, a ≠ d → ∃ fuel' desc,
        (∀ more, fuel' ≤ more → t.descendants debug more a = some desc) ∧
          (a ∈ chain ↔ d ∈ desc) := by
  have hbound : ∀ x p, parentOf debug t x = some p → p ∈ boundIds t.maps := by
    intro x p hp
    obtain ⟨pKey, _, hkey, _⟩ := (parentOf_eq_some_iff debug h).mp hp
    exact mem_boundIds ((h.nodeInverse _ _).mpr hkey)
  obtain ⟨fuel, chain, hfuel⟩ := climbAll_returns (boundIds t.maps) hbound [d] d
  have hspec := ClimbOf.of_result (hfuel fuel (Nat.le_refl _))
  have hrel : Above (parentOf debug t) = TreeChild t.maps := by
    funext p c
    exact propext (parentOf_eq_some_iff debug h)
  refine ⟨fuel, chain, hfuel, ?_, ?_, ?_, fun a hne => ?_⟩
  · exact List.nodup_cons.mpr ⟨fun hmem => hspec.new d hmem (List.mem_singleton.mpr rfl),
      hspec.nodup⟩
  · exact hspec.chain.imp fun c p => (parentOf_eq_some_iff debug h).mp
  · intro x hx p hp
    rcases hspec.closed x hx p ((parentOf_eq_some_iff debug h).mpr hp) with hd | hchain
    · exact List.mem_cons.mpr (.inl (List.mem_singleton.mp hd))
    · exact List.mem_cons_of_mem _ hchain
  · obtain ⟨fuel', desc, hfuel', hdesc⟩ := descendants_returns debug t a
    refine ⟨fuel', desc, hfuel', ?_⟩
    rw [mem_climbAll_iff hspec a, mem_descendants debug t hdesc, hrel]
    exact and_congr_left' ne_comm

end

/-- A root, its child, and the child of that. -/
def threeLevels : TreeAdapter where
  maps :=
    ((((BridgeMaps.new.insertNode "root" 1).insertNode "mid" 2).insertNode "leaf" 3).insertEdge
      ("root", "mid", treeEdgeLabel) 100).insertEdge ("mid", "leaf", treeEdgeLabel) 101
  edgeKeys := fun _ => [("root", "mid", treeEdgeLabel), ("mid", "leaf", treeEdgeLabel)]
  nodup := fun _ => by decide
  mem_edgeKeys := fun _ key => by
    rw [← Finmap.lookup_isSome]
    simp only [BridgeMaps.insertEdge, BridgeMaps.insertNode, BridgeMaps.new, finmap_lookup_insert,
      Finmap.lookup_empty, List.mem_cons, List.not_mem_nil, or_false]
    by_cases hlow : key = ("mid", "leaf", treeEdgeLabel)
    · simp [hlow]
    · by_cases hhigh : key = ("root", "mid", treeEdgeLabel) <;> simp [hlow, hhigh]

theorem threeLevels_edges {p c : String} (h : TreeEdge threeLevels.maps p c) :
    p = "root" ∧ c = "mid" ∨ p = "mid" ∧ c = "leaf" := by
  have hmem := (mem_edgeKeys_iff threeLevels 0 p c).mpr h
  simpa [threeLevels] using hmem

theorem threeLevels_oneParent : OneParent threeLevels.maps where
  nodeInverse := by
    refine .insert (.insert (.insert .empty rfl fun k => by simp) (by decide +kernel) fun k => ?_)
      (by decide +kernel) fun k => ?_
    · simp only [finmap_lookup_insert, Finmap.lookup_empty]
      split <;> simp
    · simp only [finmap_lookup_insert, Finmap.lookup_empty]
      split
      · simp
      · split <;> simp
  bound := fun p c hedge => by
    rcases threeLevels_edges hedge with ⟨rfl, rfl⟩ | ⟨rfl, rfl⟩
    · decide +kernel
    · decide +kernel
  unique := fun p p' c hedge hedge' => by
    rcases threeLevels_edges hedge with ⟨rfl, rfl⟩ | ⟨rfl, rfl⟩
    · rcases threeLevels_edges hedge' with ⟨rfl, -⟩ | ⟨-, hne⟩
      · rfl
      · simp at hne
    · rcases threeLevels_edges hedge' with ⟨-, hne⟩ | ⟨rfl, -⟩
      · simp at hne
      · rfl

/-- The root is above the leaf, and the leaf is among the descendants of the root. -/
theorem ancestors_iff_descendants_three_levels : ∃ fuel desc,
    (∀ more, fuel ≤ more →
      threeLevels.descendants (fun id => s!"NodeId({id})") more 1 = some desc) ∧ 3 ∈ desc := by
  obtain ⟨_, chain, _, _, _, hclosed, hconverse⟩ :=
    ancestors_iff_descendants (fun id => s!"NodeId({id})") threeLevels_oneParent 3
  have hmid : TreeChild threeLevels.maps 2 3 :=
    ⟨"mid", "leaf", by decide +kernel, by decide +kernel, by decide +kernel⟩
  have hroot : TreeChild threeLevels.maps 1 2 :=
    ⟨"root", "mid", by decide +kernel, by decide +kernel, by decide +kernel⟩
  have habove := hclosed 2 (hclosed 3 List.mem_cons_self 2 hmid) 1 hroot
  obtain ⟨fuel, desc, hfuel, hiff⟩ := hconverse 1 (by decide)
  exact ⟨fuel, desc, hfuel, hiff.mp ((List.mem_cons.mp habove).resolve_left (by decide))⟩

end GrafeoLoro.Proofs
