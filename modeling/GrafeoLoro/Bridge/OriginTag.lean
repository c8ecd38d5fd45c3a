import GrafeoLoro.Constants
import GrafeoLoro.Lib.Exec

/-!
# `GrafeoLoro.Bridge.OriginTag`: the outbound worker and the pending transaction

A `LoroDoc` has one pending transaction. A mutation adds an op to it, whatever thread it runs
on, and `commit` commits all pending ops under the origin that was set last and clears the
origin. The outbound worker of `src/bridge/sync_engine.rs` handles an event in two critical
sections, each under the write lock of the document: `apply_change_event_to_loro`, and then
`set_next_commit_origin(ORIGIN_GRAFEO_BRIDGE)` with `commit`. The lock is free in between.

One step is one critical section of the worker, or one mutation, one
`set_next_commit_origin` or one commit of another thread. No other thread of the crate sets
the worker's origin. An event whose application fails writes nothing and is skipped, so it is
no step.
-/

set_option autoImplicit false

namespace GrafeoLoro

/-- Who wrote an op of the document. -/
inductive Writer where
  /-- The outbound worker, in `apply_change_event_to_loro`. -/
  | bridge
  /-- Any other thread. -/
  | other
  deriving DecidableEq, Repr

/-- One commit: its origin and its ops, each with its writer. -/
structure LoroCommit (Op : Type) where
  origin : Option String
  ops : List (Writer × Op)

/-- The document as the worker and the other threads share it. -/
structure TaggedDoc (Op : Type) where
  pending : List (Writer × Op)
  nextOrigin : Option String
  commits : List (LoroCommit Op)
  /-- Whether the worker is between its two critical sections. -/
  applied : Bool

/-- One step of the worker or of another thread. -/
inductive TagAction (Op : Type) where
  /-- The first critical section: the ops that one event writes. -/
  | workerApply (ops : List Op)
  /-- The second critical section. -/
  | workerCommit
  | otherWrite (op : Op)
  | otherSetOrigin (origin : String)
  | otherCommit

namespace TaggedDoc

variable {Op : Type}

/-- No pending op, no commit, the worker at its `recv`. -/
def init : TaggedDoc Op := ⟨[], none, [], false⟩

/-- `LoroDoc::set_next_commit_origin`. -/
def setNextCommitOrigin (origin : String) (s : TaggedDoc Op) : TaggedDoc Op :=
  { s with nextOrigin := some origin }

/-- `LoroDoc::commit`. -/
def commit (s : TaggedDoc Op) : TaggedDoc Op :=
  { s with
      pending := []
      nextOrigin := none
      commits := s.commits ++ [⟨s.nextOrigin, s.pending⟩] }

/-- The steps of the worker and of the other threads. -/
def next (s : TaggedDoc Op) : TagAction Op → Option (TaggedDoc Op)
  | .workerApply ops =>
    if s.applied then none
    else some { s with pending := s.pending ++ ops.map fun op => (.bridge, op), applied := true }
  | .workerCommit =>
    if s.applied then
      some { (s.setNextCommitOrigin originGrafeoBridge).commit with applied := false }
    else none
  | .otherWrite op => some { s with pending := s.pending ++ [(.other, op)] }
  | .otherSetOrigin origin =>
    if origin = originGrafeoBridge then none else some (s.setNextCommitOrigin origin)
  | .otherCommit => some s.commit

end TaggedDoc

end GrafeoLoro
