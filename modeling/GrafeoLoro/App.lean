import GrafeoLoro.Constants
import GrafeoLoro.Storage.Backend

/-!
# `GrafeoLoro.App`: `hydrate` and `checkpoint`

The two storage operations of `GrafeoLoroApp` (`src/app.rs`). `hydrate` imports the base
snapshot of a graph and its deltas into the Loro document. `checkpoint` saves a snapshot of the
document as the new base and deletes the deltas.

The document is the set of its ops. An import is a union, and an export holds all ops. What the
environment decides is in `HydrateFaults` and `CheckpointFaults`: which storage calls fail,
whether the export fails, and how the rebuild of the Grafeo indexes ends.
-/

set_option autoImplicit false

namespace GrafeoLoro

/-- `SsotMode` (`src/config.rs`). -/
inductive SsotMode where
  | loro
  | grafeo
  deriving DecidableEq, Repr

/-- The parts of `GrafeoLoroApp` that the two operations use. -/
structure GrafeoLoroApp (Op : Type) where
  ssotMode : SsotMode
  storage : Option (Storage Op)
  loroDoc : Finset Op

/-- What happens to one `hydrate`. -/
structure HydrateFaults where
  loadBase : Bool
  list : Bool
  /-- Whether the load of this delta key fails. -/
  loadDelta : String → Bool
  /-- The result of `parallel_hydrate_grafeo`. -/
  grafeo : Except GrafeoLoroError Unit

/-- What happens to one `checkpoint`. -/
structure CheckpointFaults where
  /-- The export of the snapshot or its compression fails. -/
  snapshot : Bool
  save : Bool
  list : Bool
  /-- Whether the deletion of this delta key fails. -/
  delete : String → Bool

/-- The key of the base snapshot of a graph. -/
def baseKey (graphId : String) : String := graphId ++ "/" ++ storageKeyBaseLoro

/-- What the delta keys of a graph start with. -/
def deltaPrefix (graphId : String) : String := graphId ++ "/" ++ storageKeyDeltaPrefix

section
variable {Op : Type} [DecidableEq Op]

/-- The loop of `hydrate` over the delta keys. A delta that cannot be loaded is skipped. One
that cannot be decompressed ends the loop. -/
def importDeltas (fails : String → Bool) (s : Storage Op) :
    List String → Finset Op → Except GrafeoLoroError Unit × Finset Op
  | [], doc => (.ok (), doc)
  | key :: rest, doc =>
    match s.load (fails key) key with
    | .error _ => importDeltas fails s rest doc
    | .ok blob =>
      match decompressFromWire blob with
      | .error e => (.error e, doc)
      | .ok ops => importDeltas fails s rest (doc ∪ ops)

/-- The import steps of `hydrate`. The deltas are only looked at after a base that is not
empty. -/
def importStored (faults : HydrateFaults) (graphId : String) (s : Storage Op)
    (doc : Finset Op) : Except GrafeoLoroError Unit × Finset Op :=
  match s.load faults.loadBase (baseKey graphId) with
  | .error .other => (.error (.storageIo .other), doc)
  | .error .notFound => (.ok (), doc)
  | .ok base =>
    if base.isEmpty then (.ok (), doc)
    else
      match decompressFromWire base with
      | .error e => (.error e, doc)
      | .ok ops =>
        match s.list faults.list (deltaPrefix graphId) with
        | .error kind => (.error (.storageIo kind), doc ∪ ops)
        | .ok keys => importDeltas faults.loadDelta s (keys.mergeSort (· ≤ ·)) (doc ∪ ops)

/-- `GrafeoLoroApp::hydrate`. -/
def GrafeoLoroApp.hydrate (faults : HydrateFaults) (graphId : String)
    (app : GrafeoLoroApp Op) : Except GrafeoLoroError Unit × GrafeoLoroApp Op :=
  match app.storage with
  | none => (.error (.config "storage backend not set"), app)
  | some s =>
    match app.ssotMode with
    | .grafeo => (.error (.notYetImplemented
        "SsotMode::Grafeo hydrate: requires wal feature + ArcSwap grafeo_db field"), app)
    | .loro =>
      match importStored faults graphId s app.loroDoc with
      | (.error e, loroDoc) => (.error e, { app with loroDoc })
      | (.ok _, loroDoc) => (faults.grafeo, { app with loroDoc })

/-- The loop of `checkpoint` over the delta keys. A failed deletion is logged. -/
def deleteDeltas (fails : String → Bool) : List String → Storage Op → Storage Op
  | [], s => s
  | key :: rest, s => deleteDeltas fails rest (s.delete (fails key) key).2

/-- The storage steps of `checkpoint`. -/
def saveSnapshot (faults : CheckpointFaults) (graphId : String) (doc : Finset Op)
    (s : Storage Op) : Except GrafeoLoroError Unit × Storage Op :=
  if faults.snapshot then (.error .loro, s)
  else
    match s.save faults.save (baseKey graphId) (.wire doc) with
    | (.error kind, s) => (.error (.storageIo kind), s)
    | (.ok _, s) =>
      match s.list faults.list (deltaPrefix graphId) with
      | .error kind => (.error (.storageIo kind), s)
      | .ok keys => (.ok (), deleteDeltas faults.delete keys s)

/-- `GrafeoLoroApp::checkpoint`. -/
def GrafeoLoroApp.checkpoint (faults : CheckpointFaults) (graphId : String)
    (app : GrafeoLoroApp Op) : Except GrafeoLoroError Unit × GrafeoLoroApp Op :=
  match app.storage with
  | none => (.error (.config "storage backend not set"), app)
  | some s =>
    match app.ssotMode with
    | .grafeo => (.error (.notYetImplemented
        "SsotMode::Grafeo checkpoint: requires wal feature + ArcSwap grafeo_db field"), app)
    | .loro =>
      let (res, s) := saveSnapshot faults graphId app.loroDoc s
      (res, { app with storage := some s })

/-- Ops that are written locally. -/
def GrafeoLoroApp.edit (edits : Finset Op) (app : GrafeoLoroApp Op) : GrafeoLoroApp Op :=
  { app with loroDoc := app.loroDoc ∪ edits }

end

end GrafeoLoro
