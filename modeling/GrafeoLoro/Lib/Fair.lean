import GrafeoLoro.Lib.Exec
import Mathlib.Order.Monotone.Basic

/-!
# `GrafeoLoro.Lib.Fair`: infinite runs and fairness

An `InfRun` takes one step after the other for ever. A task is a set of actions, and a run is
fair to a task when the task, from every point on, moves at some time or is not enabled at
some time.

* `InfRun.nextMove` is the progress rule: a property that the other tasks keep, and under
  which the task is enabled, still holds when the task moves.
* `catchUp` is for queues: a counter that grows whenever it is behind another one passes every
  value that the other one passes.

The module names nothing of the bridge.
-/

set_option autoImplicit false

namespace GrafeoLoro.Lib

variable {S A : Type} {next : S → A → Option S} {s : S}

/-- An infinite run from `s`. -/
structure InfRun (next : S → A → Option S) (s : S) where
  state : Nat → S
  act : Nat → A
  start : state 0 = s
  step : ∀ i, next (state i) (act i) = some (state (i + 1))

/-- Some action of the task is enabled. -/
def Enabled (next : S → A → Option S) (task : A → Prop) (t : S) : Prop :=
  ∃ a u, task a ∧ next t a = some u

namespace InfRun

/-- From every point on, the task moves at some time or is not enabled at some time. -/
def Fair (r : InfRun next s) (task : A → Prop) : Prop :=
  ∀ i, ∃ j, i ≤ j ∧ (task (r.act j) ∨ ¬ Enabled next task (r.state j))

/-- The first `i` steps are a finite run. -/
theorem exec (r : InfRun next s) (i : Nat) :
    Exec next s ((List.range i).map fun j => (r.state j, r.act j)) (r.state i) := by
  induction i with
  | zero =>
    rw [r.start]
    exact .nil
  | succ i ih =>
    rw [List.range_succ, List.map_append]
    exact ih.snoc (r.step i)

/-- A condition on all steps is a condition on the steps of every finite part. -/
theorem steps (r : InfRun next s) {C : S → A → Prop} (hC : ∀ i, C (r.state i) (r.act i))
    (i : Nat) : Steps C ((List.range i).map fun j => (r.state j, r.act j)) := by
  intro p hp
  obtain ⟨j, -, rfl⟩ := List.mem_map.mp hp
  exact hC j

/-- The progress rule for one fair task: a property that the steps of the others keep, and
under which the task is enabled, holds until the task moves. -/
theorem nextMove {r : InfRun next s} {task : A → Prop} (hfair : r.Fair task) {P : S → Prop}
    (hkeep : ∀ j, P (r.state j) → ¬ task (r.act j) → P (r.state (j + 1)))
    (henabled : ∀ j, P (r.state j) → Enabled next task (r.state j))
    {i : Nat} (hi : P (r.state i)) : ∃ j, i ≤ j ∧ P (r.state j) ∧ task (r.act j) := by
  obtain ⟨k, hik, hk⟩ := hfair i
  -- up to the task's turn at `k`, the task has moved or the property still holds
  have hreach : ∀ d, (∃ j, i ≤ j ∧ P (r.state j) ∧ task (r.act j)) ∨ P (r.state (i + d)) := by
    intro d
    induction d with
    | zero => exact .inr hi
    | succ d ih =>
      rcases ih with hdone | hP
      · exact .inl hdone
      · by_cases hmine : task (r.act (i + d))
        · exact .inl ⟨i + d, by omega, hP, hmine⟩
        · exact .inr (hkeep (i + d) hP hmine)
  rcases hreach (k - i) with hdone | hP
  · exact hdone
  · rw [show i + (k - i) = k by omega] at hP
    rcases hk with hmine | hoff
    · exact ⟨k, hik, hP, hmine⟩
    · exact absurd (henabled k hP) hoff

end InfRun

/-- A counter that grows whenever it is behind another one passes every value that the other
one passes. -/
theorem catchUp {f g : Nat → Nat} (hg : Monotone g)
    (hgrow : ∀ i, f i < g i → ∃ j, i ≤ j ∧ f i < f j) {i n : Nat} (hn : n < g i) :
    ∃ j, i ≤ j ∧ n < f j := by
  induction hd : n + 1 - f i using Nat.strong_induction_on generalizing i with
  | _ d ih =>
    by_cases hlt : n < f i
    · exact ⟨i, Nat.le_refl i, hlt⟩
    · obtain ⟨j, hij, hj⟩ := hgrow i (by omega)
      have hnj : n < g j := Nat.lt_of_lt_of_le hn (hg hij)
      obtain ⟨k, hjk, hk⟩ := ih (n + 1 - f j) (by omega) hnj rfl
      exact ⟨k, Nat.le_trans hij hjk, hk⟩

end GrafeoLoro.Lib
