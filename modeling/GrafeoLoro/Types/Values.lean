import GrafeoLoro.Error
import Mathlib.Data.Finmap

/-!
# `GrafeoLoro.Types.Values`: the three value types and their conversions

A property value exists in several forms. `LoroValue` is what a Loro map stores,
`LoroProperty` is what a hydrated vertex entity holds, `GraphValue` is what a `LoroOp`
carries, and `Value` is what a Grafeo property stores.
`lvalToGval` and `gvalToGrafeoValue` are the inbound conversions of `src/types/values.rs`, and
`grafeoValueToLval` is the outbound one.

An `f64` is its 64-bit pattern and an `f32` its 32-bit pattern: the conversions copy them
and do no arithmetic. A `HashMap` inside a value is the list of its entries in iteration
order. A `BTreeMap` is the list of its entries in key order.
-/

set_option autoImplicit false

namespace GrafeoLoro

/-- A Rust `HashMap` with keys `K` and values `V`. -/
abbrev HashMap (K V : Type) : Type := Finmap fun _ : K => V

/-- A Rust `HashMap` whose iteration order matters to the code: the entries in that
order, with distinct keys. -/
abbrev Table (K V : Type) : Type := AList fun _ : K => V

/-- The kinds of a Loro container. -/
inductive ContainerType where
  | text | map | list | movableList | tree | counter | unknown
  deriving DecidableEq, Repr

/-- A Loro container id: a root container by name, or a child container by the op that
created it. -/
inductive ContainerID where
  | root (name : String) (containerType : ContainerType)
  | normal (peer counter : Nat) (containerType : ContainerType)
  deriving DecidableEq, Repr

/-- The kind of the container with this id. -/
def ContainerID.containerType : ContainerID → ContainerType
  | .root _ containerType => containerType
  | .normal _ _ containerType => containerType

/-- `loro::LoroValue`. -/
inductive LoroValue where
  | null
  | bool (b : Bool)
  | double (bits : UInt64)
  | i64 (i : Int64)
  | binary (bytes : List UInt8)
  | string (s : String)
  | list (items : List LoroValue)
  | map (entries : List (String × LoroValue))
  | container (id : ContainerID)

/-- What `into_container` tells apart: a value stored as it is, or a container. A container is
its id, and its contents stay in the document. -/
inductive ValueOrContainer where
  | value (v : LoroValue)
  | container (id : ContainerID)

/-- `LoroProperty`: a primitive property value of a `VertexEntity`. -/
inductive LoroProperty where
  | null
  | bool (b : Bool)
  | integer (i : Int64)
  | float (bits : UInt64)
  | string (s : String)

/-- `GraphValue`, the value type of a `LoroOp`. -/
inductive GraphValue where
  | null
  | bool (b : Bool)
  | integer (i : Int64)
  | float (bits : UInt64)
  | string (s : String)
  | vector (v : List UInt32)
  | map (entries : List (String × GraphValue))
  | list (items : List GraphValue)

/-- `grafeo::Value`. The variants without a Loro form (timestamps, dates, paths, counters,
bytes) are `exotic`. -/
inductive Value where
  | null
  | bool (b : Bool)
  | int64 (i : Int64)
  | float64 (bits : UInt64)
  | string (s : String)
  | vector (v : List UInt32)
  | list (items : List Value)
  | map (entries : List (String × Value))
  | exotic (kind : String)

mutual

/-- `lval_to_gval`: the recursive conversion. `Binary` and `Container` have no graph
value, at any depth. -/
def lvalToGval : LoroValue → Except GrafeoLoroError GraphValue
  | .null => .ok .null
  | .bool b => .ok (.bool b)
  | .i64 i => .ok (.integer i)
  | .double f => .ok (.float f)
  | .string s => .ok (.string s)
  | .list items => (lvalsToGvals items).map .list
  | .map entries => (lentriesToGentries entries).map .map
  | .binary _ => .error (.unsupportedLoroType "Binary")
  | .container _ => .error (.unsupportedLoroType "Container")

/-- The `collect` over the items of a list: the first error wins. -/
def lvalsToGvals : List LoroValue → Except GrafeoLoroError (List GraphValue)
  | [] => .ok []
  | v :: rest => do
    let g ← lvalToGval v
    let gs ← lvalsToGvals rest
    return g :: gs

/-- The loop over the entries of a map: the first error wins. -/
def lentriesToGentries :
    List (String × LoroValue) → Except GrafeoLoroError (List (String × GraphValue))
  | [] => .ok []
  | (k, v) :: rest => do
    let g ← lvalToGval v
    let gs ← lentriesToGentries rest
    return (k, g) :: gs

end

/-- `GraphValue::from` on a property of a vertex entity. -/
def LoroProperty.toGraphValue : LoroProperty → GraphValue
  | .null => .null
  | .bool b => .bool b
  | .integer i => .integer i
  | .float f => .float f
  | .string s => .string s

/-- `Reconcile` of a property of a vertex entity: a bare scalar. -/
def LoroProperty.toLoroValue : LoroProperty → LoroValue
  | .null => .null
  | .bool b => .bool b
  | .integer i => .i64 i
  | .float f => .double f
  | .string s => .string s

/-- `BTreeMap::insert` on the entries in key order. -/
def btreeInsert {V : Type} (k : String) (v : V) : List (String × V) → List (String × V)
  | [] => [(k, v)]
  | (k', v') :: rest =>
    if k = k' then (k, v) :: rest
    else if k < k' then (k, v) :: (k', v') :: rest
    else (k', v') :: btreeInsert k v rest

mutual

/-- `gval_to_grafeo_value`: the total conversion of the inbound apply path. -/
def gvalToGrafeoValue : GraphValue → Value
  | .null => .null
  | .bool b => .bool b
  | .integer i => .int64 i
  | .float f => .float64 f
  | .string s => .string s
  | .vector v => .vector v
  | .list items => .list (gvalsToGrafeoValues items)
  | .map entries => .map (gentriesToGrafeoValues entries [])

/-- The conversion of the items of a list. -/
def gvalsToGrafeoValues : List GraphValue → List Value
  | [] => []
  | v :: rest => gvalToGrafeoValue v :: gvalsToGrafeoValues rest

/-- The loop over the entries of a map, into the `BTreeMap` built so far. -/
def gentriesToGrafeoValues :
    List (String × GraphValue) → List (String × Value) → List (String × Value)
  | [], bt => bt
  | (k, v) :: rest, bt => gentriesToGrafeoValues rest (btreeInsert k (gvalToGrafeoValue v) bt)

end

/-- `f64::from` on an `f32`. -/
def widenFloat (bits : UInt32) : UInt64 := (Float32.ofBits bits).toFloat.toBits

mutual

/-- `grafeo_value_to_lval`: the total conversion of the outbound worker. An exotic value
collapses to `Null`. -/
def grafeoValueToLval : Value → LoroValue
  | .null => .null
  | .bool b => .bool b
  | .int64 i => .i64 i
  | .float64 f => .double f
  | .string s => .string s
  | .list items => .list (grafeoValuesToLvals items)
  | .map entries => .map (grafeoEntriesToLentries entries)
  | .vector v => .list (v.map fun f => .double (widenFloat f))
  | .exotic _ => .null

/-- The conversion of the items of a list. -/
def grafeoValuesToLvals : List Value → List LoroValue
  | [] => []
  | v :: rest => grafeoValueToLval v :: grafeoValuesToLvals rest

/-- The conversion of the entries of a map. -/
def grafeoEntriesToLentries : List (String × Value) → List (String × LoroValue)
  | [] => []
  | (k, v) :: rest => (k, grafeoValueToLval v) :: grafeoEntriesToLentries rest

end

/-- A nested map converts entry by entry, and its keys come out in order. -/
example : (lvalToGval (.map [("b", .i64 2), ("a", .list [.null])])).map gvalToGrafeoValue
    = .ok (.map [("a", .list [.null]), ("b", .int64 2)]) := by rfl

end GrafeoLoro
