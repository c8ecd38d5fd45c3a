import GrafeoLoro.Error
import GrafeoLoro.Types.Values
import Mathlib.Data.Finset.Basic

/-!
# `GrafeoLoro.Storage.Backend`: the key-value store of snapshots

The four calls of `StorageBackend` (`src/storage/traits.rs`) that the app makes, as the
in-memory backend (`src/storage/memory.rs`) answers them. A backend can fail each call. A
failed call changes nothing.

A stored blob is the wire form of an exported Loro payload, and a payload is the set of its
ops. A blob that is empty or that does not decode holds no ops.
-/

set_option autoImplicit false

namespace GrafeoLoro

/-- The bytes under one key. -/
inductive Blob (Op : Type) where
  | empty
  /-- Bytes that `decompress_from_wire` or the import rejects with this error. -/
  | rejected (e : GrafeoLoroError)
  /-- The wire form of a payload with these ops. -/
  | wire (ops : Finset Op)

/-- The content of a backend. -/
abbrev Storage (Op : Type) : Type := Table String (Blob Op)

variable {Op : Type}

/-- `Vec::is_empty`. -/
def Blob.isEmpty : Blob Op → Bool
  | .empty => true
  | _ => false

/-- The ops of a blob. -/
def Blob.ops : Blob Op → Finset Op
  | .wire ops => ops
  | _ => ∅

/-- `decompress_from_wire`, and the decoding that the import does. -/
def decompressFromWire : Blob Op → Except GrafeoLoroError (Finset Op)
  | .empty => .error (.compression
      "wire format: too few bytes (got 0; expected ≥2 for version+codec tag)")
  | .rejected e => .error e
  | .wire ops => .ok ops

namespace Storage

/-- `load`. -/
def load (fails : Bool) (s : Storage Op) (key : String) : Except IoErrorKind (Blob Op) :=
  if fails then .error .other
  else match s.lookup key with
    | some blob => .ok blob
    | none => .error .notFound

/-- `save`. -/
def save (fails : Bool) (s : Storage Op) (key : String) (blob : Blob Op) :
    Except IoErrorKind Unit × Storage Op :=
  if fails then (.error .other, s) else (.ok (), s.insert key blob)

/-- `list`: the keys that start with `start`. -/
def list (fails : Bool) (s : Storage Op) (start : String) : Except IoErrorKind (List String) :=
  if fails then .error .other
  else .ok (s.keys.filter fun key => start.toList.isPrefixOf key.toList)

/-- `delete`. -/
def delete (fails : Bool) (s : Storage Op) (key : String) :
    Except IoErrorKind Unit × Storage Op :=
  if fails then (.error .other, s) else (.ok (), s.erase key)

end Storage

end GrafeoLoro
