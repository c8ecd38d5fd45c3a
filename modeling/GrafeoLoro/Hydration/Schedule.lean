import GrafeoLoro.Hydration
import GrafeoLoro.Lib.Interleave

/-!
# `GrafeoLoro.Hydration.Schedule`: the calls of the hydration threads, interleaved

`ParallelRun` takes a chunk as one step. Here a thread makes its calls one by one, and the calls of
the chunks interleave in any way: one thread may be in the middle of its chunk while another
commits. `ParallelOk` lists the runs in which no call fails, which are those that return `Ok`.

An upsert is one call. Its accesses to the maps and to the store are about a key that no other
thread has.
-/

set_option autoImplicit false

namespace GrafeoLoro

open GrafeoLoro.Lib

/-- A call of the closure that hydrates a chunk. -/
inductive ChunkCall where
  | begin
  | vertex (key : String)
  | prepare
  | commit
  deriving DecidableEq, Repr

/-- The calls for a chunk, when none fails. -/
def chunkCalls (chunk : List String) : List ChunkCall :=
  .begin :: (chunk.map .vertex ++ [.prepare, .commit])

/-- A call of a session, which leaves the maps alone. -/
def sessionCall (f : Store → SessionResult Unit) (b : Bridge) : BridgeResult :=
  let (res, store) := f b.store
  (res, { b with store })

section
variable (hydrateMap : ContainerID → Except GrafeoLoroError VertexEntity) (fault : Nat → Bool)

/-- One call. -/
def ChunkCall.run (root : VertexRoot) : ChunkCall → Bridge → BridgeResult
  | .begin, b => sessionCall (beginTransaction fault) b
  | .vertex key, b =>
    match hydrateVertex hydrateMap root key with
    | .error e => (.error e, b)
    | .ok op => applyLoroOp fault op b
  | .prepare, b => sessionCall (prepareCommit fault) b
  | .commit, b => sessionCall (GrafeoLoro.commit fault) b

/-- The calls one after the other, up to the first that fails. -/
def runCalls (root : VertexRoot) : List ChunkCall → Bridge → BridgeResult
  | [], b => (.ok (), b)
  | call :: rest, b =>
    match call.run hydrateMap fault root b with
    | (.ok _, b') => runCalls root rest b'
    | (.error e, b') => (.error e, b')

/-- A run of `parallel_hydrate_grafeo` from `b` that returns `Ok` and leaves `after`. -/
def ParallelOk (root : VertexRoot) (b after : Bridge) : Prop :=
  ∃ calls, Interleaved ((keyChunks root).map chunkCalls) calls ∧
    runCalls hydrateMap fault root calls b = (.ok (), after)

end

end GrafeoLoro
