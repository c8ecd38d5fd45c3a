import GrafeoLoro.App
import GrafeoLoro.Lib.Exec
import Mathlib.Logic.Function.Basic

/-!
# `GrafeoLoro.Storage.Shared`: several instances on one storage

Every instance of the app has a document of its own, and all of them `hydrate` from and
`checkpoint` to the same graph of the same storage (`src/app.rs`). Both functions are `async`, and
at each storage call another instance can come in between. So a call is a row of steps here, one
for each storage call, and `Phase` says which step comes next. The Grafeo rebuild at the end of
`hydrate` reads the document only, and it is left out.

`hydrate_steps` and `checkpoint_steps` (`Proofs/SharedStorage.lean`) say that a call which nothing
comes in between is `importStored` or `saveSnapshot`.
-/

set_option autoImplicit false

namespace GrafeoLoro

open GrafeoLoro.Lib

/-- Where an instance is in a call. -/
inductive Phase (Op : Type) where
  | idle
  /-- `hydrate` has imported the base and lists the delta keys next. -/
  | hydrateList
  /-- `hydrate` loads these delta keys. -/
  | hydrateLoad (keys : List String)
  /-- `checkpoint` has exported this snapshot and saves it next. -/
  | checkpointSave (snapshot : Finset Op)
  /-- `checkpoint` has saved the base and lists the delta keys next. -/
  | checkpointList
  /-- `checkpoint` deletes these delta keys. -/
  | checkpointDelete (keys : List String)

/-- One instance. -/
structure Instance (Op : Type) where
  loroDoc : Finset Op
  phase : Phase Op

/-- The storage and the instances, which are named by `I`. -/
structure SharedStorage (Op I : Type) where
  storage : Storage Op
  instances : I → Instance Op

/-- One step of an instance. `fails` tells whether the storage call of the step fails. -/
inductive SharedAction (Op I : Type) where
  /-- Ops that are written locally or come from a peer. -/
  | edit (i : I) (ops : Finset Op)
  /-- The call of `hydrate`, up to the load of the base. -/
  | hydrate (i : I) (fails : Bool)
  /-- The call of `checkpoint`, up to the export. -/
  | checkpoint (i : I)
  /-- The next storage call of the call that the instance is in. -/
  | advance (i : I) (fails : Bool)
  /-- The instance ends and starts again with an empty document. -/
  | restart (i : I)

namespace SharedStorage

variable {Op I : Type} [DecidableEq Op] [DecidableEq I]

/-- The instance `i` is replaced. -/
def put (s : SharedStorage Op I) (i : I) (inst : Instance Op) : SharedStorage Op I :=
  { s with instances := Function.update s.instances i inst }

section
omit [DecidableEq Op]

@[simp] theorem put_storage (s : SharedStorage Op I) (i : I) (inst : Instance Op) :
    (s.put i inst).storage = s.storage := rfl

@[simp] theorem put_instances (s : SharedStorage Op I) (i : I) (inst : Instance Op) :
    (s.put i inst).instances i = inst := by
  unfold put
  exact Function.update_self i inst s.instances

@[simp] theorem put_put (s : SharedStorage Op I) (i : I) (inst inst' : Instance Op) :
    (s.put i inst).put i inst' = s.put i inst' := by
  unfold put
  rw [Function.update_idem]

@[simp] theorem put_mk_put (s : SharedStorage Op I) (i : I) (inst inst' : Instance Op)
    (storage : Storage Op) :
    SharedStorage.put ⟨storage, (s.put i inst).instances⟩ i inst'
      = SharedStorage.put ⟨storage, s.instances⟩ i inst' := by
  unfold put
  rw [Function.update_idem]

theorem put_eq_self (s : SharedStorage Op I) (i : I) : s.put i (s.instances i) = s := by
  unfold put
  rw [Function.update_eq_self]

end

/-- The first step of `hydrate`: the load and the import of the base. -/
def loadBase (graphId : String) (s : SharedStorage Op I) (i : I) (fails : Bool) :
    SharedStorage Op I :=
  let doc := (s.instances i).loroDoc
  match s.storage.load fails (baseKey graphId) with
  | .error _ => s.put i ⟨doc, .idle⟩
  | .ok base =>
    if base.isEmpty then s.put i ⟨doc, .idle⟩
    else
      match decompressFromWire base with
      | .error _ => s.put i ⟨doc, .idle⟩
      | .ok ops => s.put i ⟨doc ∪ ops, .hydrateList⟩

/-- The storage call that comes next. -/
def advance (graphId : String) (s : SharedStorage Op I) (i : I) (fails : Bool) :
    Option (SharedStorage Op I) :=
  let doc := (s.instances i).loroDoc
  match (s.instances i).phase with
  | .idle => none
  | .hydrateList =>
    match s.storage.list fails (deltaPrefix graphId) with
    | .error _ => some (s.put i ⟨doc, .idle⟩)
    | .ok keys => some (s.put i ⟨doc, .hydrateLoad (keys.mergeSort (· ≤ ·))⟩)
  | .hydrateLoad [] => some (s.put i ⟨doc, .idle⟩)
  | .hydrateLoad (key :: rest) =>
    match s.storage.load fails key with
    -- A delta that cannot be loaded is skipped.
    | .error _ => some (s.put i ⟨doc, .hydrateLoad rest⟩)
    | .ok blob =>
      match decompressFromWire blob with
      | .error _ => some (s.put i ⟨doc, .idle⟩)
      | .ok ops => some (s.put i ⟨doc ∪ ops, .hydrateLoad rest⟩)
  | .checkpointSave snapshot =>
    match s.storage.save fails (baseKey graphId) (.wire snapshot) with
    | (.error _, _) => some (s.put i ⟨doc, .idle⟩)
    | (.ok _, storage) => some ({ s with storage }.put i ⟨doc, .checkpointList⟩)
  | .checkpointList =>
    match s.storage.list fails (deltaPrefix graphId) with
    | .error _ => some (s.put i ⟨doc, .idle⟩)
    | .ok keys => some (s.put i ⟨doc, .checkpointDelete keys⟩)
  | .checkpointDelete [] => some (s.put i ⟨doc, .idle⟩)
  | .checkpointDelete (key :: rest) =>
    -- A failed deletion is logged.
    some ({ s with storage := (s.storage.delete fails key).2 }.put i
      ⟨doc, .checkpointDelete rest⟩)

/-- The steps of the instances. A call starts when the instance is in no other. -/
def next (graphId : String) (s : SharedStorage Op I) :
    SharedAction Op I → Option (SharedStorage Op I)
  | .edit i ops =>
    some (s.put i ⟨(s.instances i).loroDoc ∪ ops, (s.instances i).phase⟩)
  | .hydrate i fails =>
    match (s.instances i).phase with
    | .idle => some (s.loadBase graphId i fails)
    | _ => none
  | .checkpoint i =>
    match (s.instances i).phase with
    | .idle => some (s.put i
        ⟨(s.instances i).loroDoc, .checkpointSave (s.instances i).loroDoc⟩)
    | _ => none
  | .advance i fails => s.advance graphId i fails
  | .restart i => some (s.put i ⟨∅, .idle⟩)

end SharedStorage

end GrafeoLoro
