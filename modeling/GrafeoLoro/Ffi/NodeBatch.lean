import GrafeoLoro.Bridge.Batcher

/-!
# `GrafeoLoro.Ffi.NodeBatch`: ops that come over the FFI

The model of `NodeValue`, `NodeOp`, `apply_node_batch` and `apply_loro_op_bytes`
(`src/ffi/mod.rs`). A caller sends the properties of a node as two arrays, and the bridge reads
them into a `HashMap`. The order in which that map is read later is arbitrary, so an item of a
batch carries it.
-/

set_option autoImplicit false

namespace GrafeoLoro

open GrafeoLoro.Lib

/-- `NodeValue`. A float is its 64-bit pattern. -/
inductive NodeValue where
  | null
  | bool (b : Bool)
  | integer (i : Int64)
  | float (bits : UInt64)
  | str (s : String)

/-- The conversion of a `NodeValue` into a `GraphValue`. -/
def NodeValue.toGraphValue : NodeValue → GraphValue
  | .null => .null
  | .bool b => .bool b
  | .integer i => .integer i
  | .float bits => .float bits
  | .str s => .string s

/-- `NodeOp`. `property_count` is the capacity that the `HashMap` starts with. -/
structure NodeOp where
  loroKey : String
  labels : List String
  propertyCount : UInt64
  propertyKeys : List String
  propertyValues : List NodeValue

namespace NodeOp

/-- The keys and values side by side. The longer array loses its end. -/
def pairs (op : NodeOp) : List (Σ _ : String, GraphValue) :=
  (op.propertyKeys.zip op.propertyValues).map fun pair => ⟨pair.1, pair.2.toGraphValue⟩

/-- The `HashMap` that the pairs are inserted into, one after the other. -/
def properties (op : NodeOp) : HashMap String GraphValue := insertAll ∅ op.pairs

end NodeOp

/-- An op of a batch, with the order in which its properties are read. -/
structure BatchItem where
  op : NodeOp
  order : Table String GraphValue
  reads : order.toFinmap = op.properties

/-- The conversion of a `NodeOp` into a `LoroOp`. -/
def BatchItem.toLoroOp (item : BatchItem) : LoroOp :=
  .upsertNode item.op.loroKey item.op.labels item.order

section
variable (fault : Nat → Bool)

/-- `apply_node_batch`: the first error ends the loop. -/
def applyNodeBatch (nodes : List BatchItem) (b : Bridge) : BridgeResult :=
  applyEach fault (fun node => .ok node.toLoroOp) nodes b

/-- `apply_loro_op_bytes`. `deserialize` is `bincode`: the ops, or the text of its error. -/
def applyLoroOpBytes (deserialize : List UInt8 → Except String (List LoroOp))
    (bytes : List UInt8) (b : Bridge) : BridgeResult :=
  match deserialize bytes with
  | .error e => (.error (.bridge s!"bincode decode: {e}"), b)
  | .ok ops => applyEach fault .ok ops b

end

end GrafeoLoro
