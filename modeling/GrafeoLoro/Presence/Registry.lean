import GrafeoLoro.Lib.Maps
import GrafeoLoro.Types.Values

/-!
# `GrafeoLoro.Presence.Registry`: who is at which node

The model of `NodePresenceRegistry` (`src/presence/mod.rs`). It has one entry for each peer and
vertex, the last one that the peer sent. Entries that are too old are dropped by `gc_stale`, which
the host calls with its clock.

Every entry is under the key of its own peer and vertex, and the structure carries this as a field.
A callback is a member of `Callback`, and a call of it is an output.
-/

set_option autoImplicit false

namespace GrafeoLoro

open GrafeoLoro.Lib

/-- `CursorPos` (`src/types/presence.rs`). -/
structure CursorPos where
  offset : UInt32
  line : UInt32
  col : UInt32
  deriving DecidableEq, Repr

/-- `SelectionRange` (`src/types/presence.rs`). -/
structure SelectionRange where
  start : UInt32
  stop : UInt32
  deriving DecidableEq, Repr

/-- `NodePresence` (`src/types/presence.rs`). -/
structure NodePresence where
  peerId : String
  vertexId : String
  cursor : Option CursorPos
  selection : Option SelectionRange
  lastSeenMs : UInt64
  deriving DecidableEq, Repr

/-- The key of an entry. -/
def NodePresence.key (presence : NodePresence) : String × String :=
  (presence.peerId, presence.vertexId)

/-- `DEFAULT_NODE_PRESENCE_STALE_TIMEOUT_MS`. -/
def defaultNodePresenceStaleTimeoutMs : UInt64 := 30000

/-- The registry. -/
structure NodePresenceRegistry (Callback : Type) where
  states : Table (String × String) NodePresence
  staleTimeoutMs : UInt64
  onChange : Option Callback
  keyed : ∀ key presence, states.lookup key = some presence → presence.key = key

namespace NodePresenceRegistry

variable {Callback : Type}

/-- `NodePresenceRegistry::new`. -/
def new (staleTimeoutMs : UInt64) : NodePresenceRegistry Callback where
  states := ∅
  staleTimeoutMs
  onChange := none
  keyed _ _ h := by cases h

/-- `upsert`, with the call of the callback. -/
def upsert (r : NodePresenceRegistry Callback) (presence : NodePresence) :
    Option (Callback × NodePresence) × NodePresenceRegistry Callback :=
  (r.onChange.map fun callback => (callback, presence),
    { r with
      states := r.states.insert presence.key presence
      keyed := by
        intro key found h
        rw [alist_lookup_insert] at h
        split at h
        · rename_i heq
          rw [← Option.some.inj h, heq]
        · exact r.keyed key found h })

/-- `remove`. -/
def remove (r : NodePresenceRegistry Callback) (peerId vertexId : String) :
    NodePresenceRegistry Callback :=
  { r with
    states := r.states.erase (peerId, vertexId)
    keyed := by
      intro key found h
      rw [alist_lookup_erase] at h
      split at h
      · cases h
      · exact r.keyed key found h }

/-- `for_node`. -/
def forNode (r : NodePresenceRegistry Callback) (vertexId : String) : List NodePresence :=
  (r.states.entries.map fun e => e.2).filter fun presence => presence.vertexId == vertexId

/-- `u64::saturating_sub`. -/
def saturatingSub (a b : UInt64) : UInt64 := if b ≤ a then a - b else 0

/-- The entry is at least as new as the cutoff of a collection at this time. -/
def fresh (staleTimeoutMs nowMs : UInt64) (presence : NodePresence) : Bool :=
  saturatingSub nowMs staleTimeoutMs ≤ presence.lastSeenMs

/-- `gc_stale`, with the number of entries that it dropped. -/
def gcStale (r : NodePresenceRegistry Callback) (nowMs : UInt64) :
    Nat × NodePresenceRegistry Callback :=
  let kept := filterEntries (fun e => fresh r.staleTimeoutMs nowMs e.2) r.states
  (r.states.entries.length - kept.entries.length,
    { r with
      states := kept
      keyed := by
        intro key found h
        rw [lookup_filterEntries, Option.filter_eq_some_iff] at h
        exact r.keyed key found h.1 })

/-- `on_change`. `presence_register_callback` is this with a C callback. -/
def registerOnChange (r : NodePresenceRegistry Callback) (callback : Callback) :
    NodePresenceRegistry Callback := { r with onChange := some callback }

/-- `len`. -/
def len (r : NodePresenceRegistry Callback) : Nat := r.states.entries.length

/-- `is_empty`. -/
def isEmpty (r : NodePresenceRegistry Callback) : Bool := r.states.entries.isEmpty

end NodePresenceRegistry

/-- A call of a method that changes the registry. -/
inductive PresenceAction (Callback : Type) where
  | upsert (presence : NodePresence)
  | remove (peerId vertexId : String)
  | gcStale (nowMs : UInt64)
  | onChange (callback : Callback)

namespace NodePresenceRegistry

variable {Callback : Type}

/-- One call. -/
def next (r : NodePresenceRegistry Callback) :
    PresenceAction Callback → NodePresenceRegistry Callback
  | .upsert presence => (r.upsert presence).2
  | .remove peerId vertexId => r.remove peerId vertexId
  | .gcStale nowMs => (r.gcStale nowMs).2
  | .onChange callback => r.registerOnChange callback

/-- Calls in a row. -/
def run (r : NodePresenceRegistry Callback) (actions : List (PresenceAction Callback)) :
    NodePresenceRegistry Callback := actions.foldl next r

end NodePresenceRegistry

end GrafeoLoro
