import GrafeoLoro.Lib.Bytes
import GrafeoLoro.Lib.Records
import Mathlib.Algebra.Group.Nat.Defs

/-!
# `GrafeoLoro.Sab.LayoutWriter`: layout entries in one byte buffer

The model of `SabLayoutWriter` (`src/sab/mod.rs`). An entry has 16 bytes: the `y_offset`, the
height and eight zeros. An `f32` is its 32-bit pattern, and its addition is a parameter. A `usize`
has 64 bits, and `none` is a panic: a failed assertion, an overflow of a checked multiplication, a
`Vec` of more than `isize::MAX` bytes, or an index out of bounds.
-/

set_option autoImplicit false

namespace GrafeoLoro

open GrafeoLoro.Lib

/-- `LAYOUT_ENTRY_BYTES`. -/
def layoutEntryBytes : Nat := 16

/-- `f32::from_le_bytes` of the four bytes from `off` on. -/
def readF32 (buffer : List UInt8) (off : Nat) : Option UInt32 := do
  let b₀ ← buffer[off]?
  let b₁ ← buffer[off + 1]?
  let b₂ ← buffer[off + 2]?
  let b₃ ← buffer[off + 3]?
  return u32FromLe b₀ b₁ b₂ b₃

/-- `copy_from_slice` of the four bytes of an `f32` to the bytes from `off` on. -/
def writeF32 (buffer : List UInt8) (off : Nat) (f : UInt32) : Option (List UInt8) :=
  if off + 4 ≤ buffer.length then some (splice buffer off (u32ToLe f)) else none

/-- `usize::checked_mul`. -/
def checkedMul (a b : Nat) : Option Nat := if a * b < 2 ^ 64 then some (a * b) else none

/-- `SabLayoutWriter`. -/
structure SabLayoutWriter where
  buffer : List UInt8
  entryCount : Nat
  deriving DecidableEq

namespace SabLayoutWriter

/-- `SabLayoutWriter::new`. -/
def new (capacityEntries : Nat) : Option SabLayoutWriter := do
  let bufLen ← checkedMul capacityEntries layoutEntryBytes
  -- `vec!` panics above `isize::MAX`
  if bufLen < 2 ^ 63 then return ⟨List.replicate bufLen 0, 0⟩ else none

/-- `SabLayoutWriter::set_layout`. -/
def setLayout (index : Nat) (yOffset height : UInt32) (w : SabLayoutWriter) :
    Option SabLayoutWriter :=
  if index ≤ w.entryCount then do
    let byteOff ← checkedMul index layoutEntryBytes
    -- the addition of the second assertion wraps around
    if (byteOff + layoutEntryBytes) % 2 ^ 64 ≤ w.buffer.length then
      let buffer ← writeF32 w.buffer byteOff yOffset
      let buffer ← writeF32 buffer (byteOff + 4) height
      return ⟨buffer, if index = w.entryCount then w.entryCount + 1 else w.entryCount⟩
    else none
  else none

/-- The `while` loop of `recompute_offsets`: `rounds` rounds from entry `i` on. -/
def cascade (add : UInt32 → UInt32 → UInt32) : Nat → Nat → List UInt8 → Option (List UInt8)
  | 0, _, buffer => some buffer
  | rounds + 1, i, buffer => do
    let prevOff := (i - 1) * layoutEntryBytes
    let curOff := i * layoutEntryBytes
    let prevY ← readF32 buffer prevOff
    let prevH ← readF32 buffer (prevOff + 4)
    let buffer ← writeF32 buffer curOff (add prevY prevH)
    cascade add rounds (i + 1) buffer

/-- `SabLayoutWriter::recompute_offsets`. -/
def recomputeOffsets (add : UInt32 → UInt32 → UInt32) (startIndex : Nat) (w : SabLayoutWriter) :
    Option SabLayoutWriter :=
  if w.entryCount = 0 ∨ startIndex ≥ w.entryCount then some w
  else do
    -- entry 0 keeps its offset
    let i := if startIndex = 0 then 1 else startIndex
    let buffer ← cascade add (w.entryCount - i) i w.buffer
    return { w with buffer := buffer }

/-- `SabLayoutWriter::get_layout`. The inner `none` is the one that the source returns. -/
def getLayout (index : Nat) (w : SabLayoutWriter) : Option (Option (UInt32 × UInt32)) :=
  if index ≥ w.entryCount then some none
  else do
    let off := index * layoutEntryBytes
    let y ← readF32 w.buffer off
    let h ← readF32 w.buffer (off + 4)
    return some (y, h)

end SabLayoutWriter

/-- A call that changes the buffer. -/
inductive LayoutCall where
  | setLayout (index : Nat) (yOffset height : UInt32)
  | recomputeOffsets (startIndex : Nat)

/-- The writer after one call, or `none` if the call panics. -/
def SabLayoutWriter.next (add : UInt32 → UInt32 → UInt32) (w : SabLayoutWriter) :
    LayoutCall → Option SabLayoutWriter
  | .setLayout index yOffset height => w.setLayout index yOffset height
  | .recomputeOffsets startIndex => w.recomputeOffsets add startIndex

end GrafeoLoro
