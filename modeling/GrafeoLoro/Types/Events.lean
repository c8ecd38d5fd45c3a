import GrafeoLoro.Types.Values

/-!
# `GrafeoLoro.Types.Events`: the ops of the inbound path

`LoroOp` of `src/types/events.rs`: one translated Loro mutation on its way to Grafeo. And
`ConflictResolution`, the outcome of a text merge.
-/

set_option autoImplicit false

namespace GrafeoLoro

/-- Composite key of a Loro-side edge: source key, destination key and label. -/
abbrev EdgeKey : Type := String × String × String

/-- One graph mutation, with Loro-side string keys. -/
inductive LoroOp where
  /-- Insert or update a vertex. The property map is the full map of the vertex. -/
  | upsertNode (loroKey : String) (labels : List String) (properties : Table String GraphValue)
  /-- Insert or update an edge. -/
  | upsertEdge (srcKey dstKey label : String) (properties : Table String GraphValue)
  /-- Remove a vertex. -/
  | deleteNode (loroKey : String)
  /-- Remove an edge. -/
  | deleteEdge (srcKey dstKey label : String)
  /-- Tree reparenting: delete the old `CHILD` edge, insert the new one. -/
  | treeMove (nodeKey oldParentKey newParentKey : String)

/-- Outcome of a three-way text merge. -/
inductive ConflictResolution where
  /-- The merge took `ours`. -/
  | oursWins
  /-- The merge took `theirs`. -/
  | theirsWins
  /-- The merge combined changes from both sides. -/
  | merged
  /-- Both sides modified the same lines differently. The output has conflict markers. -/
  | manualRequired
  deriving DecidableEq, Repr

end GrafeoLoro
