import GrafeoLoro.Observability.Invariants
import GrafeoLoro.Proofs.EdgeBatch

/-!
# `GrafeoLoro.Proofs.InvariantMonitor`: the monitor finds what the pre-commit check finds

`has_cycle` searches over its index frames round for round as `visitFrames` does over the children
that are left (`visitIndexed_eq`). So both checks of a batch decide whether its edges are acyclic.

* `hasCycle_exact`: the search ends, with `true` exactly when the pairs form a cycle.
* `checkInvariants_exact`: on any input the monitor passes exactly when nothing is violated, and
  what it reports is violated.
* `checkInvariants_agrees`: on an input with only parent-child pairs the monitor reports I14 exactly
  when the pre-commit check of the corresponding batch fails.
-/

set_option autoImplicit false

namespace GrafeoLoro.Proofs

open GrafeoLoro GrafeoLoro.Lib Relation

/-! ### The search over index frames -/

/-- The children of a node, with duplicates. -/
def childVec (adj : HashMap String (List String)) (node : String) : List String :=
  (adj.lookup node).getD []

/-- The colour of a key, white when it has none. -/
def colorOf (color : HashMap String Color) (k : String) : Color := (color.lookup k).getD .white

/-- The children that are left for a frame. -/
def frameOf (adj : HashMap String (List String)) (frame : String × Nat) : String × List String :=
  (frame.1, (childVec adj frame.1).drop frame.2)

theorem colorOf_insert (color : HashMap String Color) (k : String) (c : Color) :
    colorOf (color.insert k c) = Function.update (colorOf color) k c := by
  funext x
  by_cases hx : x = k
  · simp [colorOf, hx]
  · simp [colorOf, hx]

variable (adj : HashMap String (List String))

/-- The search over index frames is the search over the children that are left. -/
theorem visitIndexed_eq (fuel : Nat) (stack : List (String × Nat))
    (color : HashMap String Color) :
    (visitIndexed adj fuel stack color).map (Except.map colorOf) =
      (visitFrames (childVec adj) fuel (stack.map (frameOf adj)) (colorOf color)).map
        (Except.mapError fun _ => ()) := by
  induction fuel generalizing stack color with
  | zero => rfl
  | succ fuel ih =>
    cases stack with
    | nil => rfl
    | cons frame stack =>
      obtain ⟨node, idx⟩ := frame
      have hframe : frameOf adj (node, idx) = (node, (childVec adj node).drop idx) := rfl
      have hchildren : ∀ {children}, adj.lookup node = some children →
          childVec adj node = children := by
        intro children hlookup
        rw [childVec, hlookup, Option.getD_some]
      rw [visitIndexed, List.map_cons, hframe]
      split
      · rename_i hlookup
        -- No entry in the map means no children, so both searches pop the frame.
        have hnone : childVec adj node = [] := by rw [childVec, hlookup, Option.getD_none]
        rw [hnone, List.drop_nil, visitFrames, ih, colorOf_insert]
      · rename_i children hlookup
        rw [hchildren hlookup]
        split
        · rename_i hidx
          rw [List.drop_eq_nil_of_le (List.getElem?_eq_none_iff.mp hidx), visitFrames, ih,
            colorOf_insert]
        · rename_i child hidx
          obtain ⟨hlt, hchild⟩ := List.getElem?_eq_some_iff.mp hidx
          have hrest : frameOf adj (node, idx + 1) = (node, children.drop (idx + 1)) := by
            rw [frameOf, hchildren hlookup]
          -- The child at the index is the first one that is left, and the colours agree on it.
          rw [List.drop_eq_getElem_cons hlt, hchild, visitFrames]
          have hcolor : (color.lookup child).getD .white = colorOf color child := rfl
          rw [hcolor]
          cases colorOf color child with
          | gray => rfl
          | black => rw [ih, List.map_cons, hrest]
          | white =>
            rw [ih, List.map_cons, List.map_cons, hrest, colorOf_insert]
            rfl

/-- The search from all keys is the search for a back edge. -/
theorem hasCycleFrom_eq (fuel : Nat) (nodes : List String) (color : HashMap String Color) :
    hasCycleFrom adj fuel nodes color =
      (findBackEdge (childVec adj) fuel nodes (colorOf color)).map
        fun | .ok () => false | .error _ => true := by
  induction nodes generalizing color with
  | nil => rfl
  | cons start nodes ih =>
    rw [hasCycleFrom, findBackEdge]
    show (if colorOf color start ≠ .white then _ else _) = _
    split
    · exact ih color
    · -- One search: both run out of fuel, find a back edge, or end with the same colours.
      have hvisit := visitIndexed_eq adj fuel [(start, 0)] (color.insert start .gray)
      rw [List.map_singleton, frameOf, List.drop_zero, colorOf_insert] at hvisit
      cases hindexed : visitIndexed adj fuel [(start, 0)] (color.insert start .gray) with
      | none =>
        rw [hindexed, Option.map_none, eq_comm, Option.map_eq_none_iff] at hvisit
        rw [hvisit]
        rfl
      | some res =>
        rw [hindexed, Option.map_some, eq_comm, Option.map_eq_some_iff] at hvisit
        obtain ⟨res', hrun, hres⟩ := hvisit
        rw [hrun]
        cases res with
        | error u =>
          cases res' with
          | error edge => rfl
          | ok color' => cases hres
        | ok color' =>
          cases res' with
          | error edge => cases hres
          | ok color'' =>
            obtain rfl : color'' = colorOf color' := Except.ok.inj hres
            exact ih color'

/-! ### The whole search -/

/-- The adjacency map holds the pairs in addition, and every end of a pair is a white key. -/
theorem collectEdges_spec (pairs : List (String × String)) (adj : HashMap String (List String))
    (color : HashMap String Color) :
    (∀ x y, y ∈ childVec (collectEdges pairs adj color).1 x ↔
        y ∈ childVec adj x ∨ (x, y) ∈ pairs) ∧
      (∀ k, k ∈ (collectEdges pairs adj color).2.keys ↔
        k ∈ color.keys ∨ ∃ pair ∈ pairs, k = pair.1 ∨ k = pair.2) ∧
      ((∀ k, colorOf color k = .white) → ∀ k, colorOf (collectEdges pairs adj color).2 k = .white)
    := by
  induction pairs generalizing adj color with
  | nil => simp [collectEdges]
  | cons pair pairs ih =>
    obtain ⟨p, c⟩ := pair
    obtain ⟨hadj, hkeys, hwhite⟩ := ih (adj.insert p ((adj.lookup p).getD [] ++ [c]))
      ((color.insert p .white).insert c .white)
    rw [collectEdges]
    refine ⟨fun x y => ?_, fun k => ?_, fun hall => hwhite fun k => ?_⟩
    · rw [hadj x y, childVec, finmap_lookup_insert]
      by_cases hx : x = p
      · subst hx
        simp [childVec, or_assoc]
      · simp [childVec, hx]
    · rw [hkeys k]
      simp only [Finmap.mem_keys, Finmap.mem_insert, List.mem_cons, exists_eq_or_imp]
      grind
    · rw [colorOf_insert, colorOf_insert]
      by_cases hc : k = c
      · simp [hc]
      · rw [Function.update_of_ne hc]
        by_cases hp : k = p
        · simp [hp]
        · simp [hp, hall k]

/-- A pair as an edge from the parent to the child. -/
def PairEdge (pairs : List (String × String)) (p c : String) : Prop := (p, c) ∈ pairs

/-- The search over the pairs, in any order of the keys, ends, and its result says whether they form
a cycle. -/
theorem hasCycle_exact (keysOrder : SetOrder String) (pairs : List (String × String)) :
    ∃ fuel cycle, (∀ more, fuel ≤ more → hasCycle keysOrder more pairs = some cycle) ∧
      (cycle = false ↔ Acyclic (PairEdge pairs)) := by
  obtain ⟨hadj, hkeys, hwhite⟩ := collectEdges_spec pairs ∅ ∅
  set adj := (collectEdges pairs ∅ ∅).1
  set color := (collectEdges pairs ∅ ∅).2
  have hrel : Edges (childVec adj) = PairEdge pairs := by
    funext x y
    refine propext ((hadj x y).trans ?_)
    simp [childVec, PairEdge]
  have hends : ∀ x y, y ∈ childVec adj x → x ∈ color.keys ∧ y ∈ color.keys := by
    intro x y hy
    have hpair : (x, y) ∈ pairs := ((hadj x y).mp hy).resolve_left (by simp [childVec])
    exact ⟨(hkeys x).mpr (.inr ⟨_, hpair, .inl rfl⟩), (hkeys y).mpr (.inr ⟨_, hpair, .inr rfl⟩)⟩
  have hcolor : colorOf color = fun _ => .white := by
    funext k
    exact hwhite (by simp [colorOf]) k
  -- All keys are white, and they are the ends of the pairs. So the search covers the pairs.
  obtain ⟨fuel, res, hfuel⟩ := findBackEdge_returns color.keys (fun x y hy => (hends x y hy).2)
    (keysOrder.iter color.keys) fun _ => .white
  have hreport := findBackEdge_report
    (fun x y hy => (keysOrder.mem_iter color.keys x).mpr (hends x y hy).1)
    (hfuel fuel (Nat.le_refl _))
  rw [hrel] at hreport
  refine ⟨fuel, (match res with | .ok () => false | .error _ => true), fun more hmore => ?_, ?_⟩
  · show hasCycleFrom adj more (keysOrder.iter color.keys) color = _
    rw [hasCycleFrom_eq, hcolor, hfuel more hmore]
    cases res <;> rfl
  · rw [← hreport.ok_iff]
    cases res <;> simp

/-! ### All invariants -/

theorem hasDuplicate_eq_false_iff (keys : List String) (seen : Finset String) :
    hasDuplicate keys seen = false ↔ keys.Nodup ∧ ∀ k ∈ keys, k ∉ seen := by
  induction keys generalizing seen with
  | nil => simp [hasDuplicate]
  | cons k keys ih =>
    rw [hasDuplicate]
    by_cases hk : k ∈ seen
    · simp [hk]
    · rw [if_neg hk, ih, List.nodup_cons, List.forall_mem_cons]
      simp only [Finset.mem_insert, not_or]
      constructor
      · rintro ⟨hnodup, hnew⟩
        exact ⟨⟨fun hmem => (hnew k hmem).1 rfl, hnodup⟩, hk, fun x hx => (hnew x hx).2⟩
      · rintro ⟨⟨hnotMem, hnodup⟩, -, hnew⟩
        exact ⟨hnodup, fun x hx => ⟨fun heq => hnotMem (heq ▸ hx), hnew x hx⟩⟩

theorem hasDecrease_eq_false_iff (epochs : List (String × UInt64)) :
    hasDecrease epochs = false ↔ (epochs.map Prod.snd).IsChain (· ≤ ·) := by
  match epochs with
  | [] => simp [hasDecrease]
  | [w] => simp [hasDecrease]
  | w₀ :: w₁ :: epochs =>
    have ih := hasDecrease_eq_false_iff (w₁ :: epochs)
    rw [hasDecrease, List.map_cons, List.map_cons, List.isChain_cons_cons, ← List.map_cons, ← ih]
    by_cases hlt : w₁.2 < w₀.2
    · simp [hlt]
    · simp [hlt, UInt64.not_lt.mp hlt]

/-- What a violation says of an input. -/
def Violates (state : InvariantCheckInput) : InvariantViolation → Prop
  | .i4Uniqueness => ¬ state.nodeKeys.Nodup
  | .i5Monotonicity => ¬ (state.epochs.map Prod.snd).IsChain (· ≤ ·)
  | .i11BridgeBijection =>
    ¬ (state.grafeoNodes.length = state.loroContainers.length ∧ state.grafeoNodes.Nodup)
  | .i12EpochOrdering => ∃ pair ∈ state.parentChildEpochs, pair.2 < pair.1
  | .i14TreeAcyclicity => ¬ Acyclic (PairEdge state.parentChildPairs)

section
variable {state : InvariantCheckInput}

theorem violates_i4_iff :
    (!state.nodeKeys.isEmpty && hasDuplicate state.nodeKeys ∅) = true ↔
      Violates state .i4Uniqueness := by
  rw [Violates, ← not_iff_not, not_not]
  cases hkeys : state.nodeKeys with
  | nil => simp
  | cons k keys => simpa using hasDuplicate_eq_false_iff (k :: keys) ∅

theorem violates_i5_iff :
    (decide (state.epochs.length > 1) && hasDecrease state.epochs) = true ↔
      Violates state .i5Monotonicity := by
  rw [Violates, ← not_iff_not, not_not, ← hasDecrease_eq_false_iff]
  match state.epochs with
  | [] => simp [hasDecrease]
  | [w] => simp [hasDecrease]
  | w₀ :: w₁ :: epochs => simp

theorem violates_i11_iff :
    ((!state.grafeoNodes.isEmpty || !state.loroContainers.isEmpty) &&
      (state.grafeoNodes.length != state.loroContainers.length ||
        hasDuplicate state.grafeoNodes ∅)) = true ↔ Violates state .i11BridgeBijection := by
  have hdup := hasDuplicate_eq_false_iff state.grafeoNodes ∅
  rw [Violates, ← not_iff_not, not_not]
  by_cases hempty : state.grafeoNodes = [] ∧ state.loroContainers = []
  · simp [hempty.1, hempty.2]
  · have hsome : (!state.grafeoNodes.isEmpty || !state.loroContainers.isEmpty) = true := by
      simpa [List.isEmpty_iff, imp_iff_not_or] using hempty
    simp [hsome, hdup]

theorem violates_i12_iff :
    (state.parentChildEpochs.any fun (parent, child) => parent > child) = true ↔
      Violates state .i12EpochOrdering := by
  simp [Violates]

/-- What the monitor says of an input is right: it passes exactly when nothing is violated, and what
it reports is violated. -/
def MonitorReport (state : InvariantCheckInput) (res : Except InvariantViolation Unit) : Prop :=
  (res = .ok () ↔ ∀ violation, ¬ Violates state violation) ∧
    ∀ violation, res = .error violation → Violates state violation

theorem MonitorReport.found {violation : InvariantViolation} (h : Violates state violation) :
    MonitorReport state (.error violation) := by
  refine ⟨iff_of_false (by simp) fun hall => hall violation h, fun violation' herr => ?_⟩
  obtain rfl := Except.error.inj herr
  exact h

/-- Without parent-child pairs nothing is above anything. -/
theorem acyclic_of_isEmpty {pairs : List (String × String)} (hempty : pairs.isEmpty = true) :
    Acyclic (PairEdge pairs) := by
  intro x hx
  obtain ⟨y, hstep, -⟩ := TransGen.head'_iff.mp hx
  simp [PairEdge, List.isEmpty_iff.mp hempty] at hstep

/-- What the monitor does where the first four invariants hold: it searches. -/
theorem checkInvariants_search {keysOrder : SetOrder String} {fuel : Nat} {cycle : Bool}
    (h4 : ¬ Violates state .i4Uniqueness) (h5 : ¬ Violates state .i5Monotonicity)
    (h11 : ¬ Violates state .i11BridgeBijection) (h12 : ¬ Violates state .i12EpochOrdering)
    (hcycle : hasCycle keysOrder fuel state.parentChildPairs = some cycle)
    (hexact : cycle = false ↔ Acyclic (PairEdge state.parentChildPairs)) :
    checkInvariants keysOrder fuel state =
      some (if cycle then .error .i14TreeAcyclicity else .ok ()) := by
  rw [checkInvariants, if_neg (mt violates_i4_iff.mp h4), if_neg (mt violates_i5_iff.mp h5),
    if_neg (mt violates_i11_iff.mp h11), if_neg (mt violates_i12_iff.mp h12)]
  cases hempty : state.parentChildPairs.isEmpty with
  | true => simp [hexact.mpr (acyclic_of_isEmpty hempty)]
  | false => simp [hcycle]

end

/-- The monitor, on any input and in any order of the keys, comes to a result. It passes exactly
when nothing is violated, and what it reports is violated. -/
theorem checkInvariants_exact (keysOrder : SetOrder String) (state : InvariantCheckInput) :
    ∃ fuel res, (∀ more, fuel ≤ more → checkInvariants keysOrder more state = some res) ∧
      MonitorReport state res := by
  by_cases h4 : Violates state .i4Uniqueness
  · refine ⟨0, _, fun more _ => ?_, .found h4⟩
    rw [checkInvariants, if_pos (violates_i4_iff.mpr h4)]
  by_cases h5 : Violates state .i5Monotonicity
  · refine ⟨0, _, fun more _ => ?_, .found h5⟩
    rw [checkInvariants, if_neg (mt violates_i4_iff.mp h4), if_pos (violates_i5_iff.mpr h5)]
  by_cases h11 : Violates state .i11BridgeBijection
  · refine ⟨0, _, fun more _ => ?_, .found h11⟩
    rw [checkInvariants, if_neg (mt violates_i4_iff.mp h4), if_neg (mt violates_i5_iff.mp h5),
      if_pos (violates_i11_iff.mpr h11)]
  by_cases h12 : Violates state .i12EpochOrdering
  · refine ⟨0, _, fun more _ => ?_, .found h12⟩
    rw [checkInvariants, if_neg (mt violates_i4_iff.mp h4), if_neg (mt violates_i5_iff.mp h5),
      if_neg (mt violates_i11_iff.mp h11), if_pos (violates_i12_iff.mpr h12)]
  -- the search decides the last one
  obtain ⟨fuel, cycle, hcycle, hexact⟩ := hasCycle_exact keysOrder state.parentChildPairs
  refine ⟨fuel, _, fun more hmore =>
    checkInvariants_search h4 h5 h11 h12 (hcycle more hmore) hexact, ?_⟩
  have h14 : Violates state .i14TreeAcyclicity ↔ cycle = true := by
    rw [Violates, ← hexact, Bool.not_eq_false]
  cases cycle with
  | true => exact .found (h14.mpr rfl)
  | false =>
    refine ⟨iff_of_true rfl fun violation => ?_, fun violation herr => by cases herr⟩
    cases violation with
    | i4Uniqueness => exact h4
    | i5Monotonicity => exact h5
    | i11BridgeBijection => exact h11
    | i12EpochOrdering => exact h12
    | i14TreeAcyclicity => simp [h14]

/-! ### The monitor and the pre-commit check -/

/-- The batch of the pairs, with any labels. -/
def edgeSpecs (label : Nat → String) (pairs : List (String × String)) : List EdgeSpec :=
  pairs.mapIdx fun i (p, c) => ⟨p, c, label i⟩

/-- The edges of the batch are the pairs. -/
theorem batchEdge_edgeSpecs (label : Nat → String) (pairs : List (String × String)) :
    BatchEdge (edgeSpecs label pairs) = PairEdge pairs := by
  funext x y
  refine propext ⟨?_, fun hpair => ?_⟩
  · rintro ⟨e, hmem, rfl, rfl⟩
    obtain ⟨i, hi, rfl⟩ := List.mem_mapIdx.mp hmem
    exact List.getElem_mem hi
  · obtain ⟨i, hi, hget⟩ := List.mem_iff_getElem.mp hpair
    refine ⟨⟨x, y, label i⟩, List.mem_mapIdx.mpr ⟨i, hi, ?_⟩, rfl, rfl⟩
    rw [hget]

/-- On an input with only parent-child pairs, the monitor reports a cycle exactly when the
pre-commit check of the batch of these pairs fails. Both come to a result for all labels and all
iteration orders. -/
theorem checkInvariants_agrees (keysOrder nodesOrder : SetOrder String)
    (order : String → SetOrder String) (label : Nat → String) (pairs : List (String × String)) :
    ∃ fuel res res', (∀ more, fuel ≤ more →
        checkInvariants keysOrder more { parentChildPairs := pairs } = some res ∧
        validateAcyclic nodesOrder order more (edgeSpecs label pairs) = some res') ∧
      (res = .error .i14TreeAcyclicity ↔ ∃ err, res' = .error err) := by
  obtain ⟨fuel, res, hmonitor, hok, herror⟩ :=
    checkInvariants_exact keysOrder { parentChildPairs := pairs }
  obtain ⟨fuel', res', hvalidate⟩ :=
    validateAcyclic_returns nodesOrder order (edgeSpecs label pairs)
  have hreport := validateAcyclic_report nodesOrder order (hvalidate fuel' (Nat.le_refl _))
  rw [batchEdge_edgeSpecs] at hreport
  refine ⟨max fuel fuel', res, res', fun more hmore => ⟨hmonitor more (by omega),
    hvalidate more (by omega)⟩, ?_⟩
  -- The other fields are empty, and nothing is violated in an empty field.
  have honly : ∀ violation, Violates { parentChildPairs := pairs } violation →
      violation = .i14TreeAcyclicity := by
    intro violation hviolates
    cases violation with
    | i14TreeAcyclicity => rfl
    | _ => simp [Violates] at hviolates
  have hres : res = .error .i14TreeAcyclicity ↔ ¬ Acyclic (PairEdge pairs) := by
    constructor
    · exact fun h => herror _ h
    · intro hcyclic
      cases res with
      | ok u => exact absurd hcyclic (hok.mp rfl .i14TreeAcyclicity)
      | error violation => rw [honly violation (herror violation rfl)]
  rw [hres, ← hreport.ok_iff]
  cases res' <;> simp [Except.mapError]

end GrafeoLoro.Proofs
