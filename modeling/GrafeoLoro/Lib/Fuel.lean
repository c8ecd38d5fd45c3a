import Mathlib.Data.Nat.Init

/-!
# `GrafeoLoro.Lib.Fuel`: loops with a bound on their rounds

A loop takes `fuel`, a bound on its rounds, and gives `none` where they were not enough. `Settles`
says to which result a loop comes with fuel enough, and `Ends` that it comes to one.

* `Settles.one`, `Ends.one`: a loop that ends in its first round.
* `Settles.step`, `Ends.step`: one round more.

The module names nothing of the bridge.
-/

set_option autoImplicit false

namespace GrafeoLoro.Lib

variable {α β : Type}

/-- Enough rounds come to this result, and more do not change it. -/
def Settles (loop : Nat → Option β) (res : β) : Prop :=
  ∃ fuel, ∀ more, fuel ≤ more → loop more = some res

/-- Enough rounds come to a result, and more do not change it. -/
def Ends (loop : Nat → Option β) : Prop :=
  ∃ fuel res, ∀ more, fuel ≤ more → loop more = some res

theorem Settles.ends {loop : Nat → Option β} {res : β} (h : Settles loop res) :
    Ends loop := by
  obtain ⟨fuel, hfuel⟩ := h
  exact ⟨fuel, res, hfuel⟩

theorem Ends.settles {loop : Nat → Option β} (h : Ends loop) : ∃ res, Settles loop res := by
  obtain ⟨fuel, res, hfuel⟩ := h
  exact ⟨res, fuel, hfuel⟩

/-- A loop that ends in its first round. -/
theorem Settles.one {loop : Nat → Option β} {res : β}
    (h : ∀ fuel, loop (fuel + 1) = some res) : Settles loop res := by
  refine ⟨1, fun more hmore => ?_⟩
  obtain ⟨rest, rfl⟩ := Nat.exists_eq_add_of_le' hmore
  exact h rest

/-- One round more, which makes its result from the result of the others. -/
theorem Settles.step {loop : Nat → Option β} {rest : Nat → Option α} {res : α} (f : α → β)
    (hround : ∀ fuel, loop (fuel + 1) = (rest fuel).map f) (h : Settles rest res) :
    Settles loop (f res) := by
  obtain ⟨fuel, hfuel⟩ := h
  refine ⟨fuel + 1, fun more hmore => ?_⟩
  obtain ⟨extra, rfl⟩ := Nat.exists_eq_add_of_le' hmore
  show loop (extra + fuel + 1) = some (f res)
  rw [hround, hfuel _ (Nat.le_add_left _ _), Option.map_some]

theorem Ends.one {loop : Nat → Option β} {res : β}
    (h : ∀ fuel, loop (fuel + 1) = some res) : Ends loop :=
  (Settles.one h).ends

theorem Ends.step {loop : Nat → Option β} {rest : Nat → Option α} (f : α → β)
    (hround : ∀ fuel, loop (fuel + 1) = (rest fuel).map f) (h : Ends rest) : Ends loop := by
  obtain ⟨res, hres⟩ := h.settles
  exact (hres.step f hround).ends

end GrafeoLoro.Lib
