import GrafeoLoro.Schema.EdgeSpec

/-!
# `GrafeoLoro.Observability.Invariants`: the runtime monitor of the invariants

The model of `check_invariants` and `has_cycle` (`src/observability/mod.rs`). The cycle detection is
not that of `validate_acyclic`. It keeps the children of a node in a `Vec`, with duplicates, and a
frame of its stack is a node and the index of its next child.

`fuel` bounds the rounds of one search, and `none` says that they were not enough.
-/

set_option autoImplicit false

namespace GrafeoLoro

open GrafeoLoro.Lib

/-- `InvariantViolation`. -/
inductive InvariantViolation where
  | i4Uniqueness
  | i5Monotonicity
  | i11BridgeBijection
  | i12EpochOrdering
  | i14TreeAcyclicity
  deriving DecidableEq, Repr

/-- `InvariantCheckInput`. Each field is empty by default. -/
structure InvariantCheckInput where
  nodeKeys : List String := []
  epochs : List (String × UInt64) := []
  parentChildPairs : List (String × String) := []
  grafeoNodes : List String := []
  loroContainers : List String := []
  parentChildEpochs : List (UInt64 × UInt64) := []
  deriving DecidableEq, Repr

/-! ### `has_cycle` -/

/-- The loop that builds the adjacency map and colours both ends of each edge white. -/
def collectEdges : List (String × String) → HashMap String (List String) → HashMap String Color →
    HashMap String (List String) × HashMap String Color
  | [], adj, color => (adj, color)
  | (p, c) :: edges, adj, color =>
    -- A pair that comes twice is in the `Vec` of its parent twice.
    collectEdges edges (adj.insert p ((adj.lookup p).getD [] ++ [c]))
      ((color.insert p .white).insert c .white)

/-- The inner loop. A frame is a node and the index of its next child. `.error ()` is the
`return true` at a gray child, and `.ok` has the colours after the loop. -/
def visitIndexed (adj : HashMap String (List String)) :
    Nat → List (String × Nat) → HashMap String Color →
      Option (Except Unit (HashMap String Color))
  | 0, _, _ => none
  | _ + 1, [], color => some (.ok color)
  | fuel + 1, (node, idx) :: stack, color =>
    match adj.lookup node with
    -- A node without an outgoing edge has no entry in the map.
    | none => visitIndexed adj fuel stack (color.insert node .black)
    | some children =>
      match children[idx]? with
      | none => visitIndexed adj fuel stack (color.insert node .black)
      | some child =>
        match (color.lookup child).getD .white with
        -- A back edge.
        | .gray => some (.error ())
        | .black => visitIndexed adj fuel ((node, idx + 1) :: stack) color
        | .white =>
          visitIndexed adj fuel ((child, 0) :: (node, idx + 1) :: stack) (color.insert child .gray)

/-- The outer loop, over the keys of the colour map. -/
def hasCycleFrom (adj : HashMap String (List String)) (fuel : Nat) :
    List String → HashMap String Color → Option Bool
  | [], _ => some false
  | start :: nodes, color =>
    if (color.lookup start).getD .white ≠ .white then hasCycleFrom adj fuel nodes color
    else
      match visitIndexed adj fuel [(start, 0)] (color.insert start .gray) with
      | none => none
      | some (.error ()) => some true
      | some (.ok color') => hasCycleFrom adj fuel nodes color'

/-- `has_cycle`. `keysOrder` is the iteration order of the colour map. -/
def hasCycle (keysOrder : SetOrder String) (fuel : Nat) (edges : List (String × String)) :
    Option Bool :=
  let (adj, color) := collectEdges edges ∅ ∅
  hasCycleFrom adj fuel (keysOrder.iter color.keys) color

/-! ### `check_invariants` -/

/-- A loop with a `seen` set: whether it meets a key twice. -/
def hasDuplicate : List String → Finset String → Bool
  | [], _ => false
  | k :: keys, seen => if k ∈ seen then true else hasDuplicate keys (insert k seen)

/-- The loop over `windows(2)`: whether an epoch is less than the one before it. -/
def hasDecrease : List (String × UInt64) → Bool
  | w₀ :: w₁ :: epochs => if w₁.2 < w₀.2 then true else hasDecrease (w₁ :: epochs)
  | _ => false

/-- `check_invariants`: the first violated invariant, in the order I4, I5, I11, I12, I14. -/
def checkInvariants (keysOrder : SetOrder String) (fuel : Nat) (state : InvariantCheckInput) :
    Option (Except InvariantViolation Unit) :=
  if !state.nodeKeys.isEmpty && hasDuplicate state.nodeKeys ∅ then some (.error .i4Uniqueness)
  else if state.epochs.length > 1 && hasDecrease state.epochs then some (.error .i5Monotonicity)
  -- Of the containers only the number is read.
  else if (!state.grafeoNodes.isEmpty || !state.loroContainers.isEmpty) &&
      (state.grafeoNodes.length != state.loroContainers.length ||
        hasDuplicate state.grafeoNodes ∅) then
    some (.error .i11BridgeBijection)
  else if state.parentChildEpochs.any fun (parent, child) => parent > child then
    some (.error .i12EpochOrdering)
  else if state.parentChildPairs.isEmpty then some (.ok ())
  else
    (hasCycle keysOrder fuel state.parentChildPairs).map fun cycle =>
      if cycle then .error .i14TreeAcyclicity else .ok ()

end GrafeoLoro
