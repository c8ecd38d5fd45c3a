import Mathlib.Logic.Relation
import Mathlib.Order.Basic

/-!
# `GrafeoLoro.Lib.Acyclic`: acyclic relations and one new edge

A relation is acyclic when no element reaches itself in one or more steps. A tree move takes
edges into one element away and adds one edge into it, and `acyclic_move_iff` says when the
result is acyclic again: exactly when the source of the new edge was not reachable from its
target before.

The module names nothing of the bridge.
-/

set_option autoImplicit false

namespace GrafeoLoro.Lib

open Relation

variable {α : Type} {R R₀ : α → α → Prop} {p c : α}

/-- No element reaches itself in one or more steps. -/
def Acyclic (R : α → α → Prop) : Prop := ∀ x, ¬ TransGen R x x

/-- A relation along which a number grows is acyclic. -/
theorem Acyclic.of_rank (rank : α → Nat) (h : ∀ x y, R x y → rank x < rank y) : Acyclic R := by
  intro x hx
  have hlt : ∀ y, TransGen R x y → rank x < rank y := by
    intro y hy
    induction hy with
    | single hstep => exact h _ _ hstep
    | tail _ hstep ih => exact Nat.lt_trans ih (h _ _ hstep)
  exact Nat.lt_irrefl _ (hlt x hx)

/-- A part of an acyclic relation is acyclic. -/
theorem Acyclic.mono (h : Acyclic R) (hle : ∀ x y, R₀ x y → R x y) : Acyclic R₀ :=
  fun x hx => h x (TransGen.mono hle _ _ hx)

/-- A path with one new edge allowed does without it, or goes through it. -/
theorem transGen_insert {x y : α} (h : TransGen (fun x y => R x y ∨ x = p ∧ y = c) x y) :
    TransGen R x y ∨ ReflTransGen R x p ∧ ReflTransGen R c y := by
  -- along the path; a path that went through the new edge may go through it again
  induction h with
  | single hstep =>
    rcases hstep with hstep | ⟨rfl, rfl⟩
    · exact .inl (.single hstep)
    · exact .inr ⟨.refl, .refl⟩
  | tail _ hstep ih =>
    rcases hstep with hstep | ⟨rfl, rfl⟩
    · rcases ih with ih | ⟨hp, hc⟩
      · exact .inl (ih.tail hstep)
      · exact .inr ⟨hp, hc.tail hstep⟩
    · rcases ih with ih | ⟨hp, -⟩
      · exact .inr ⟨ih.to_reflTransGen, .refl⟩
      · exact .inr ⟨hp, .refl⟩

/-- One new edge keeps a relation acyclic exactly when its target does not reach its
source. -/
theorem acyclic_insert_iff (h : Acyclic R) :
    Acyclic (fun x y => R x y ∨ x = p ∧ y = c) ↔ ¬ ReflTransGen R c p := by
  constructor
  · -- a path from the target to the source closes a cycle with the new edge
    intro hacyclic hpath
    have hpath' : ReflTransGen (fun x y => R x y ∨ x = p ∧ y = c) c p :=
      ReflTransGen.mono (fun _ _ hstep => Or.inl hstep) _ _ hpath
    exact hacyclic c (TransGen.tail' hpath' (.inr ⟨rfl, rfl⟩))
  · intro hpath x hx
    rcases transGen_insert hx with hx | ⟨hp, hc⟩
    · exact h x hx
    · exact hpath (hc.trans hp)

/-- A path that starts at `c` in an acyclic relation uses no edge into `c`. -/
theorem reflTransGen_of_acyclic (h : Acyclic R) (hkeep : ∀ x y, R x y → y ≠ c → R₀ x y)
    {y : α} (hpath : ReflTransGen R c y) : ReflTransGen R₀ c y := by
  induction hpath with
  | refl => exact .refl
  | @tail b d hpath hstep ih =>
    -- an edge back into `c` would be a cycle
    have hne : d ≠ c := fun heq => h c (TransGen.tail' hpath (heq ▸ hstep))
    exact ih.tail (hkeep b d hstep hne)

/-- A move: some edges into `c` are taken away, and the edge from `p` to `c` is added. The
result is acyclic exactly when `c` did not reach `p`. -/
theorem acyclic_move_iff (h : Acyclic R) (hle : ∀ x y, R₀ x y → R x y)
    (hkeep : ∀ x y, R x y → y ≠ c → R₀ x y) :
    Acyclic (fun x y => R₀ x y ∨ x = p ∧ y = c) ↔ ¬ ReflTransGen R c p := by
  rw [acyclic_insert_iff (h.mono hle)]
  constructor
  · exact fun hno hpath => hno (reflTransGen_of_acyclic h hkeep hpath)
  · exact fun hno hpath => hno (ReflTransGen.mono hle _ _ hpath)

end GrafeoLoro.Lib
