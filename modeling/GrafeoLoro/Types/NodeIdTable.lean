import GrafeoLoro.Types.Values

/-!
# `GrafeoLoro.Types.NodeIdTable`: ids for string keys

The model of `NodeIdTable` (`src/types/ids.rs`). The table hands out the next number for each new
key and has no operation that removes a key. The counter is a `u64` and wraps around.
-/

set_option autoImplicit false

namespace GrafeoLoro

/-- `NodeIdTable`. -/
structure NodeIdTable where
  strToId : HashMap String UInt64
  idToStr : HashMap UInt64 String
  nextId : UInt64

namespace NodeIdTable

/-- `NodeIdTable::new`. -/
def new : NodeIdTable := ⟨∅, ∅, 0⟩

/-- `NodeIdTable::intern`: the id of the key, and the table after the call. -/
def intern (key : String) (t : NodeIdTable) : UInt64 × NodeIdTable :=
  match t.strToId.lookup key with
  | some id => (id, t)
  | none =>
    let id := t.nextId
    (id,
      { strToId := t.strToId.insert key id
        idToStr := t.idToStr.insert id key
        nextId := t.nextId + 1 })

/-- `NodeIdTable::lookup`. -/
def lookup (id : UInt64) (t : NodeIdTable) : Option String := t.idToStr.lookup id

/-- `NodeIdTable::lookup_by_str`. -/
def lookupByStr (key : String) (t : NodeIdTable) : Option UInt64 := t.strToId.lookup key

/-- `NodeIdTable::len`. -/
def len (t : NodeIdTable) : Nat := t.strToId.keys.card

/-- `NodeIdTable::is_empty`. -/
def isEmpty (t : NodeIdTable) : Bool := t.len = 0

/-- The table after a call of `intern` with each key, in order. -/
def internAll (keys : List String) : NodeIdTable :=
  keys.foldl (fun t key => (t.intern key).2) new

end NodeIdTable

end GrafeoLoro
