import Mathlib.Data.List.Basic

/-!
# `GrafeoLoro.Lib.Records`: records of one width in a flat buffer

A buffer that holds records of `width` elements one after the other. Element `k` of record `i` is
at `i * width + k` (`getElem?_flatten`), and what is written there inside one record changes that
record only (`splice_flatten`).

The module names nothing of the bridge.
-/

set_option autoImplicit false

namespace GrafeoLoro.Lib

variable {α : Type}

/-- Overwrite the elements from `off` on with `part`. -/
def splice (l : List α) (off : Nat) (part : List α) : List α :=
  l.take off ++ part ++ l.drop (off + part.length)

/-- A write inside the first of two parts. -/
theorem splice_append_left {l : List α} {off : Nat} {part : List α}
    (h : off + part.length ≤ l.length) (more : List α) :
    splice (l ++ more) off part = splice l off part ++ more := by
  unfold splice
  rw [List.take_append_of_le_length (by omega), List.drop_append_of_le_length h]
  simp only [List.append_assoc]

/-- A write inside the second of two parts. -/
theorem splice_append_right (l more : List α) (off : Nat) (part : List α) :
    splice (l ++ more) (l.length + off) part = l ++ splice more off part := by
  unfold splice
  rw [List.take_length_add_append, Nat.add_assoc, List.drop_length_add_append]
  simp only [List.append_assoc]

variable {records : List (List α)} {width : Nat}

/-- The length of the buffer. -/
theorem length_flatten (hwidth : ∀ r ∈ records, r.length = width) :
    records.flatten.length = records.length * width := by
  induction records with
  | nil => simp
  | cons r rest ih =>
    rw [List.flatten_cons, List.length_append, hwidth r List.mem_cons_self,
      ih fun r' hr' => hwidth r' (List.mem_cons_of_mem r hr'), List.length_cons, Nat.succ_mul,
      Nat.add_comm]

/-- An element of the buffer is an element of its record. -/
theorem getElem?_flatten (hwidth : ∀ r ∈ records, r.length = width) (i : Nat) {k : Nat}
    (hk : k < width) : records.flatten[i * width + k]? = records[i]?.bind fun r => r[k]? := by
  induction records generalizing i with
  | nil => simp
  | cons r rest ih =>
    have hr := hwidth r List.mem_cons_self
    have hrest := ih fun r' hr' => hwidth r' (List.mem_cons_of_mem r hr')
    rw [List.flatten_cons]
    cases i with
    | zero =>
      rw [Nat.zero_mul, Nat.zero_add, List.getElem?_append_left (by omega)]
      rfl
    | succ i =>
      -- the first record is passed over
      have hoff : (i + 1) * width + k = r.length + (i * width + k) := by
        rw [Nat.succ_mul, hr]
        omega
      rw [hoff, List.getElem?_append_right (by omega), Nat.add_sub_cancel_left, hrest]
      rfl

/-- A write inside one record changes that record only. -/
theorem splice_flatten (hwidth : ∀ r ∈ records, r.length = width) {i off : Nat} {r part : List α}
    (hr : records[i]? = some r) (hoff : off + part.length ≤ width) :
    splice records.flatten (i * width + off) part
      = (records.set i (splice r off part)).flatten := by
  induction records generalizing i with
  | nil => cases hr
  | cons first rest ih =>
    have hfirst := hwidth first List.mem_cons_self
    rw [List.flatten_cons]
    cases i with
    | zero =>
      obtain rfl := Option.some.inj hr
      rw [Nat.zero_mul, Nat.zero_add, splice_append_left (by omega)]
      rfl
    | succ i =>
      have hrest := ih (fun r' hr' => hwidth r' (List.mem_cons_of_mem first hr')) hr
      have hplace : (i + 1) * width + off = first.length + (i * width + off) := by
        rw [Nat.succ_mul, hfirst]
        omega
      rw [hplace, splice_append_right, hrest]
      rfl

end GrafeoLoro.Lib
