import Mathlib.Algebra.Group.Nat.Defs

/-!
# `GrafeoLoro.Lib.Bytes`: byte strings as a wire format reads and writes them

A byte string is a `List UInt8`. `slice?` and `l[i]?` are the reads of a range and of an index,
with `none` where the source would be out of bounds. `u16ToLe` and `u16FromLe` are the two bytes of
a 16-bit number, `u32ToLe` and `u32FromLe` the four bytes of a 32-bit number, `u64ToBe` and
`u64FromBe` the eight bytes of a 64-bit number, highest first, and `asBytes` and `strFromUtf8` the
UTF-8 form of a string.

* `u16FromLe_toLe`, `u16ToLe_fromLe`, `strFromUtf8_eq_some`: each pair is inverse.
* `u32FromLe_toLe`, `u64FromBe_toBe`: the bytes of a number give the number.
* `slice?_middle`, `getElem?_middle`: a part between two others is read by its bounds.

The module names nothing of the bridge.
-/

set_option autoImplicit false

namespace GrafeoLoro.Lib

/-! ### Reads -/

section
variable {α : Type}

/-- The elements from `start` up to `stop`, or `none` if they are not all there. -/
def slice? (l : List α) (start stop : Nat) : Option (List α) :=
  if start ≤ stop ∧ stop ≤ l.length then some ((l.drop start).take (stop - start)) else none

/-- A range inside the list is read. -/
theorem slice?_eq_some {l : List α} {start stop : Nat} (hle : start ≤ stop)
    (hstop : stop ≤ l.length) :
    slice? l start stop = some ((l.drop start).take (stop - start)) := by
  simp [slice?, hle, hstop]

/-- The middle of three parts is read by its bounds. -/
theorem slice?_middle {l middle : List α} {start stop : Nat} (before after : List α)
    (hl : l = before ++ middle ++ after) (hstart : start = before.length)
    (hstop : stop = before.length + middle.length) : slice? l start stop = some middle := by
  subst hl hstart hstop
  rw [slice?_eq_some (by omega) (by simp)]
  simp

/-- The element between two parts is read by its index. -/
theorem getElem?_middle {l : List α} {a : α} {i : Nat} (before after : List α)
    (hl : l = before ++ [a] ++ after) (hi : i = before.length) : l[i]? = some a := by
  subst hl hi
  simp

end

/-! ### Numbers -/

/-- `{:02x}` of a byte: two hexadecimal digits. -/
def hexByte (b : UInt8) : String :=
  String.ofList [Nat.digitChar (b.toNat / 16), Nat.digitChar (b.toNat % 16)]

/-- `u16::to_le_bytes`. -/
def u16ToLe (n : UInt16) : List UInt8 := [UInt8.ofNat (n.toNat % 256), UInt8.ofNat (n.toNat / 256)]

/-- `u16::from_le_bytes`. -/
def u16FromLe (lo hi : UInt8) : UInt16 := UInt16.ofNat (lo.toNat + 256 * hi.toNat)

/-- The number of two bytes. -/
theorem u16FromLe_toNat (lo hi : UInt8) : (u16FromLe lo hi).toNat = lo.toNat + 256 * hi.toNat := by
  have hlo := lo.toNat_lt
  have hhi := hi.toNat_lt
  rw [u16FromLe, UInt16.toNat_ofNat']
  omega

/-- The two bytes of a number give the number. -/
theorem u16FromLe_toLe (n : UInt16) :
    u16FromLe (UInt8.ofNat (n.toNat % 256)) (UInt8.ofNat (n.toNat / 256)) = n := by
  have hn := n.toNat_lt
  apply UInt16.toNat_inj.mp
  rw [u16FromLe_toNat, UInt8.toNat_ofNat', UInt8.toNat_ofNat']
  omega

/-- The number of two bytes gives the two bytes. -/
theorem u16ToLe_fromLe (lo hi : UInt8) : u16ToLe (u16FromLe lo hi) = [lo, hi] := by
  have hlo := lo.toNat_lt
  have hhi := hi.toNat_lt
  have hfirst : UInt8.ofNat ((u16FromLe lo hi).toNat % 256) = lo := by
    apply UInt8.toNat_inj.mp
    rw [u16FromLe_toNat, UInt8.toNat_ofNat']
    omega
  have hsecond : UInt8.ofNat ((u16FromLe lo hi).toNat / 256) = hi := by
    apply UInt8.toNat_inj.mp
    rw [u16FromLe_toNat, UInt8.toNat_ofNat']
    omega
  rw [u16ToLe, hfirst, hsecond]

/-- `u32::to_le_bytes`. -/
def u32ToLe (n : UInt32) : List UInt8 :=
  [UInt8.ofNat (n.toNat % 256), UInt8.ofNat (n.toNat / 256 % 256),
    UInt8.ofNat (n.toNat / 65536 % 256), UInt8.ofNat (n.toNat / 16777216)]

/-- `u32::from_le_bytes`. -/
def u32FromLe (b₀ b₁ b₂ b₃ : UInt8) : UInt32 :=
  UInt32.ofNat (b₀.toNat + 256 * b₁.toNat + 65536 * b₂.toNat + 16777216 * b₃.toNat)

/-- The four bytes of a number give the number. -/
theorem u32FromLe_toLe (n : UInt32) :
    u32FromLe (UInt8.ofNat (n.toNat % 256)) (UInt8.ofNat (n.toNat / 256 % 256))
      (UInt8.ofNat (n.toNat / 65536 % 256)) (UInt8.ofNat (n.toNat / 16777216)) = n := by
  have hn := n.toNat_lt
  apply UInt32.toNat_inj.mp
  rw [u32FromLe, UInt32.toNat_ofNat', UInt8.toNat_ofNat', UInt8.toNat_ofNat', UInt8.toNat_ofNat',
    UInt8.toNat_ofNat']
  omega

/-- The `k` lowest bytes of a number, highest first. -/
def beBytes : Nat → Nat → List UInt8
  | 0, _ => []
  | k + 1, n => beBytes k (n / 256) ++ [UInt8.ofNat n]

/-- The number of some bytes, highest first. -/
def beValue (bytes : List UInt8) : Nat := bytes.foldl (fun n b => 256 * n + b.toNat) 0

@[simp] theorem length_beBytes (k n : Nat) : (beBytes k n).length = k := by
  induction k generalizing n with
  | zero => rfl
  | succ k ih => rw [beBytes, List.length_append, ih, List.length_singleton]

/-- The bytes of a number that fits give the number. -/
theorem beValue_beBytes (k n : Nat) (h : n < 256 ^ k) : beValue (beBytes k n) = n := by
  induction k generalizing n with
  | zero =>
    rw [Nat.lt_one_iff.mp h]
    rfl
  | succ k ih =>
    have hdiv : n / 256 < 256 ^ k := by
      rw [Nat.pow_succ] at h
      omega
    have hhigh := ih (n / 256) hdiv
    unfold beValue at hhigh
    rw [beBytes, beValue, List.foldl_append, hhigh, List.foldl_cons, List.foldl_nil,
      UInt8.toNat_ofNat']
    omega

/-- `u64::to_be_bytes`. -/
def u64ToBe (n : UInt64) : List UInt8 := beBytes 8 n.toNat

/-- `u64::from_be_bytes`. -/
def u64FromBe (bytes : List UInt8) : UInt64 := UInt64.ofNat (beValue bytes)

/-- The eight bytes of a number give the number. -/
theorem u64FromBe_toBe (n : UInt64) : u64FromBe (u64ToBe n) = n := by
  rw [u64FromBe, u64ToBe, beValue_beBytes 8 n.toNat n.toNat_lt, UInt64.ofNat_toNat]

/-! ### Strings -/

/-- `str::as_bytes`. -/
def asBytes (s : String) : List UInt8 := s.toUTF8.data.toList

/-- `str::from_utf8`: the string of valid bytes. -/
def strFromUtf8 (bytes : List UInt8) : Option String := String.fromUTF8? ⟨bytes.toArray⟩

/-- The bytes are valid exactly when they are those of a string. -/
theorem strFromUtf8_eq_some {bytes : List UInt8} {s : String} :
    strFromUtf8 bytes = some s ↔ bytes = asBytes s := by
  unfold strFromUtf8 asBytes String.fromUTF8?
  constructor
  · intro h
    split at h
    · rw [← Option.some.inj h]
      rfl
    · cases h
  · rintro rfl
    have hvalid : (⟨s.toUTF8.data.toList.toArray⟩ : ByteArray).IsValidUTF8 := by
      simpa using s.isValidUTF8
    rw [dif_pos hvalid]
    congr 1

@[simp] theorem strFromUtf8_asBytes (s : String) : strFromUtf8 (asBytes s) = some s :=
  strFromUtf8_eq_some.mpr rfl

end GrafeoLoro.Lib
