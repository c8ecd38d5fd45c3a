import GrafeoLoro.Bridge.Batcher
import GrafeoLoro.Constants
import GrafeoLoro.Lib.Chunks

/-!
# `GrafeoLoro.Hydration`: cold-boot hydration

`hydrate_grafeo` (`src/hydration/serial.rs`) and `parallel_hydrate_grafeo`
(`src/hydration/parallel.rs`) build the Grafeo nodes from the root map `V` of a document. The
keys are cut into chunks of `DEFAULT_CHUNK_SIZE`, and each chunk is one transaction.

`VertexEntity::hydrate_map` is generated code that reads the container of a vertex. It is the
parameter `hydrateMap`.

The serial function takes the chunks in order and stops at the first error. The parallel one
gives them to a thread pool: any order is possible, and an error cancels the chunks that no
thread has started. Two chunks share no key, and each has its own session, so a chunk is one
step here. `ParallelRun` lists the possible runs.
-/

set_option autoImplicit false

namespace GrafeoLoro

open GrafeoLoro.Lib

/-- `VertexEntity` (`src/schema/vertex.rs`) without its `description`, which hydration does not
read. -/
structure VertexEntity where
  labels : List String
  properties : Table String LoroProperty

/-- The root map `V` of a document. Its entries are in the order of `keys()`. -/
abbrev VertexRoot : Type := Table String ValueOrContainer

/-- `into_container`, then `into_map`. -/
def intoMap : ValueOrContainer → Option ContainerID
  | .container id => if id.containerType = .map then some id else none
  | .value _ => none

/-- The properties of an entity as the properties of an op. -/
def VertexEntity.graphProperties (entity : VertexEntity) : Table String GraphValue :=
  mapValues LoroProperty.toGraphValue entity.properties

section
variable (hydrateMap : ContainerID → Except GrafeoLoroError VertexEntity)

/-- The op for one key of the root map, or the error that ends the chunk. -/
def hydrateVertex (root : VertexRoot) (key : String) : Except GrafeoLoroError LoroOp :=
  match root.lookup key with
  | none => .error (.bridge s!"vertex {key} missing from LoroMap")
  | some voc =>
    match intoMap voc with
    | none => .error (.bridge s!"vertex {key} is not a Container::Map")
    | some vertexMap =>
      match hydrateMap vertexMap with
      | .error e => .error e
      | .ok entity => .ok (.upsertNode key entity.labels entity.graphProperties)

variable (fault : Nat → Bool)

/-- One chunk: its keys in one transaction. -/
def hydrateChunk (root : VertexRoot) (chunk : List String) (b : Bridge) : BridgeResult :=
  inTransaction fault (applyEach fault (hydrateVertex hydrateMap root) chunk) b

/-- The chunks in order. The first error ends the loop. -/
def hydrateChunks (root : VertexRoot) : List (List String) → Bridge → BridgeResult
  | [], b => (.ok (), b)
  | chunk :: rest, b =>
    match hydrateChunk hydrateMap fault root chunk b with
    | (.ok _, b') => hydrateChunks root rest b'
    | (.error e, b') => (.error e, b')

/-- The chunks of the keys of a root map. -/
def keyChunks (root : VertexRoot) : List (List String) := chunks defaultChunkSize root.keys

/-- `hydrate_grafeo`. -/
def hydrateGrafeo (root : VertexRoot) (b : Bridge) : BridgeResult :=
  hydrateChunks hydrateMap fault root (keyChunks root) b

/-- The chunks that the threads took, in this order. An error does not stop the chunks after
it, which other threads may have started. The result is the first error. -/
def takeChunks (root : VertexRoot) : List (List String) → Bridge → BridgeResult
  | [], b => (.ok (), b)
  | chunk :: rest, b =>
    match hydrateChunk hydrateMap fault root chunk b with
    | (.ok _, b') => takeChunks root rest b'
    | (.error e, b') => (.error e, (takeChunks root rest b').2)

/-- A run of `parallel_hydrate_grafeo`: the threads took the chunks `taken`, in this order.
They leave a chunk out only when a chunk failed. -/
structure ParallelRun (root : VertexRoot) (b : Bridge) (taken : List (List String))
    (res : BridgeResult) : Prop where
  subperm : List.Subperm taken (keyChunks root)
  result : takeChunks hydrateMap fault root taken b = res
  complete : res.1 = .ok () → taken.length = (keyChunks root).length

end

end GrafeoLoro
