import Mathlib.Data.Nat.Notation

/-!
# `GrafeoLoro.Constants`: the literals of the bridge

The constants of `src/constants.rs` that the modelled functions read, under the source's
names.
-/

set_option autoImplicit false

namespace GrafeoLoro

/-- Origin tag of the outbound worker's Loro commits. -/
def originGrafeoBridge : String := "grafeo-bridge"

/-- Origin tag of the Loro commits that the crate's own API makes. -/
def originLoroBridge : String := "loro-bridge"

/-- The root map that holds the vertices. -/
def rootVertices : String := "V"

/-- The root map that holds the edges. -/
def rootEdges : String := "E"

/-- Label of a tree edge. The direction is parent to child. -/
def treeEdgeLabel : String := "CHILD"

/-- Number of vertices that one hydration transaction handles. -/
def defaultChunkSize : Nat := 256

/-- Brotli quality of the compressed snapshots. -/
def defaultBrotliQuality : Nat := 5

/-- Retention window of the epoch side channel. -/
def epochRetention : Nat := 10000

/-- Capacity of the inbound, outbound and batcher channels (`CHANNEL_CAPACITY` in
`src/bridge/sync_engine.rs`). -/
def channelCapacity : Nat := 1024

/-- Suffix of the base snapshot key of a graph. -/
def storageKeyBaseLoro : String := "base.loro"

/-- Prefix of the delta keys of a graph. -/
def storageKeyDeltaPrefix : String := "delta-"

/-- Suffix of the delta keys of a graph, after the epoch. -/
def storageKeyDeltaSuffix : String := ".loro"

end GrafeoLoro
