import Mathlib.Data.List.Basic
import Mathlib.Order.Lattice

/-!
# `GrafeoLoro.Lib.Windows`: reading a sorted log window by window

A reader keeps a cursor into a log that is sorted by a key and grows at its end. Each round it
reads the entries between its cursor and a later key, and moves the cursor there. A round reads
the entries of its start key or not: `inclusive` tells which.

`Windows` says what such a reader has read so far.

* `Windows.eq_window`: with exclusive starts it has read the log from its first cursor to its
  last, each entry once.
* `Windows.covers`: with either kind of start it has read each of these entries.
* `Windows.sorted`: it has read them in the order of the keys.
* `Windows.append`: later entries change nothing.

The module names nothing of the bridge.
-/

set_option autoImplicit false

namespace GrafeoLoro.Lib

variable {α κ : Type} [LinearOrder κ] {key : α → κ} {inclusive : Bool}

/-- The entries between two keys, with those of the first key or without. -/
def window (key : α → κ) (inclusive : Bool) (start stop : κ) (log : List α) : List α :=
  log.filter fun x =>
    (if inclusive then decide (start ≤ key x) else decide (start < key x)) && decide (key x ≤ stop)

/-- The log is sorted by its keys. -/
def Sorted (key : α → κ) (log : List α) : Prop := log.Pairwise fun x y => key x ≤ key y

theorem mem_window {start stop : κ} {log : List α} {x : α}
    (h : x ∈ window key inclusive start stop log) : x ∈ log ∧ start ≤ key x ∧ key x ≤ stop := by
  cases inclusive with
  | true => simpa [window] using h
  | false =>
    have hx : x ∈ log ∧ start < key x ∧ key x ≤ stop := by simpa [window] using h
    exact ⟨hx.1, hx.2.1.le, hx.2.2⟩

theorem lt_of_mem_window {start stop : κ} {log : List α} {x : α}
    (h : x ∈ window key false start stop log) : start < key x := by
  have hx : x ∈ log ∧ start < key x ∧ key x ≤ stop := by simpa [window] using h
  exact hx.2.1

theorem window_sublist (start stop : κ) (log : List α) :
    (window key inclusive start stop log).Sublist log := List.filter_sublist

/-- A window without the entries of its start is part of the one with them. -/
theorem window_false_sublist (start stop : κ) (log : List α) :
    (window key false start stop log).Sublist (window key inclusive start stop log) := by
  cases inclusive with
  | false => exact List.Sublist.refl _
  | true =>
    refine List.monotone_filter_right log fun x hx => ?_
    simp only [Bool.and_eq_true, decide_eq_true_eq, if_true, Bool.false_eq_true, if_false] at hx ⊢
    exact ⟨hx.1.le, hx.2⟩

/-- Entries behind the stop key do not enter a window. -/
theorem window_append {start stop : κ} {log new : List α} (hnew : ∀ x ∈ new, stop < key x) :
    window key inclusive start stop (log ++ new) = window key inclusive start stop log := by
  have hnone : window key inclusive start stop new = [] := by
    refine List.filter_eq_nil_iff.mpr fun x hx => ?_
    simp [(hnew x hx).not_ge]
  show List.filter _ (log ++ new) = _
  rw [List.filter_append]
  exact (congrArg _ hnone).trans (List.append_nil _)

/-- Two windows in a row are one window. -/
theorem window_trans {a b c : κ} {log : List α} (hlog : Sorted key log) (hab : a ≤ b)
    (hbc : b ≤ c) :
    window key false a b log ++ window key false b c log = window key false a c log := by
  induction log with
  | nil => rfl
  | cons x rest ih =>
    have hrest := ih (List.pairwise_cons.mp hlog).2
    have hhead := (List.pairwise_cons.mp hlog).1
    by_cases hxb : key x ≤ b
    · -- the entry is not in the second window
      simp only [window] at hrest ⊢
      rw [List.filter_cons, List.filter_cons_of_neg (by simp [hxb.not_gt]), List.filter_cons, ← hrest]
      by_cases hax : a < key x
      · simp [hax, hxb, hxb.trans hbc]
      · simp [hax]
    · -- the first window is over
      have hxb : b < key x := lt_of_not_ge hxb
      have hall : ∀ y ∈ x :: rest, b < key y := by
        intro y hy
        cases List.mem_cons.mp hy with
        | inl heq => exact heq ▸ hxb
        | inr hmem => exact hxb.trans_le (hhead y hmem)
      have hnone : window key false a b (x :: rest) = [] :=
        List.filter_eq_nil_iff.mpr fun y hy => by simp [(hall y hy).not_ge]
      rw [hnone, List.nil_append]
      refine List.filter_congr fun y hy => ?_
      simp [hall y hy, hab.trans_lt (hall y hy)]

/-- What a reader has read that started at `start`, in the order it read it. Its cursor is the
last key. -/
inductive Windows (key : α → κ) (inclusive : Bool) (start : κ) (log : List α) :
    κ → List α → Prop where
  | nil : Windows key inclusive start log start []
  | snoc {cursor stop : κ} {read : List α}
      (prev : Windows key inclusive start log cursor read) (hle : cursor ≤ stop) :
      Windows key inclusive start log stop (read ++ window key inclusive cursor stop log)

namespace Windows

variable {start cursor : κ} {log read : List α}

/-- The cursor moves forward. -/
theorem start_le (h : Windows key inclusive start log cursor read) : start ≤ cursor := by
  induction h with
  | nil => exact le_rfl
  | snoc _ hle ih => exact ih.trans hle

/-- The reader does not read ahead of its cursor. -/
theorem le_cursor (h : Windows key inclusive start log cursor read) :
    ∀ x ∈ read, key x ≤ cursor := by
  induction h with
  | nil => simp
  | snoc _ hle ih =>
    intro x hx
    cases List.mem_append.mp hx with
    | inl hread => exact (ih x hread).trans hle
    | inr hwindow => exact (mem_window hwindow).2.2

/-- With exclusive starts, the reader reads each entry once. -/
theorem eq_window (h : Windows key false start log cursor read) (hlog : Sorted key log) :
    read = window key false start cursor log := by
  induction h with
  | nil =>
    refine (List.filter_eq_nil_iff.mpr fun x _ => ?_).symm
    simp +contextual [not_le_of_gt]
  | snoc prev hle ih => rw [ih, window_trans hlog prev.start_le hle]

/-- The reader skips no entry. -/
theorem covers (h : Windows key inclusive start log cursor read) (hlog : Sorted key log) :
    (window key false start cursor log).Sublist read := by
  induction h with
  | nil => rw [← eq_window .nil hlog]
  | snoc prev hle ih =>
    rw [← window_trans hlog prev.start_le hle]
    exact ih.append (window_false_sublist _ _ _)

/-- The reader reads in the order of the keys. -/
theorem sorted (h : Windows key inclusive start log cursor read) (hlog : Sorted key log) :
    Sorted key read := by
  induction h with
  | nil => exact List.Pairwise.nil
  | snoc prev hle ih =>
    refine List.pairwise_append.mpr ⟨ih, hlog.sublist (window_sublist _ _ _), fun x hx y hy => ?_⟩
    exact (prev.le_cursor x hx).trans (mem_window hy).2.1

/-- Entries behind the cursor change nothing of what was read. -/
theorem append (h : Windows key inclusive start log cursor read) {new : List α}
    (hnew : ∀ x ∈ new, cursor < key x) :
    Windows key inclusive start (log ++ new) cursor read := by
  induction h with
  | nil => exact .nil
  | snoc prev hle ih =>
    rw [← window_append hnew]
    exact (ih fun x hx => hle.trans_lt (hnew x hx)).snoc hle

end Windows

end GrafeoLoro.Lib
