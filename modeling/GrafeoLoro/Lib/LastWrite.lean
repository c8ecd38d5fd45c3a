import Mathlib.Data.List.Basic

/-!
# `GrafeoLoro.Lib.LastWrite`: a cell that is written and cleared

Each effect on a cell writes a value, or it keeps the value only if that passes a test.

* `foldl_apply_eq_some_iff`: after a row of effects the cell has a value exactly when the value was
  written and every later effect keeps it.

The module names nothing of the bridge.
-/

set_option autoImplicit false

namespace GrafeoLoro.Lib

/-- What one step does to a cell. -/
inductive Effect (V : Type) where
  | write (v : V)
  | keep (test : V → Bool)

namespace Effect

variable {V : Type}

/-- The cell after the effect. -/
def apply : Effect V → Option V → Option V
  | .write v, _ => some v
  | .keep test, cell => cell.filter test

/-- A cell with the value `v` keeps it, and it is not written. -/
def Keeps (v : V) : Effect V → Prop
  | .write _ => False
  | .keep test => test v = true

/-- After one effect the cell has `v` when it is written, or when it is there and kept. -/
theorem apply_eq_some_iff (e : Effect V) (cell : Option V) (v : V) :
    e.apply cell = some v ↔ e = .write v ∨ cell = some v ∧ e.Keeps v := by
  cases e with
  | write w =>
    show some w = some v ↔ _
    simp [Keeps]
  | keep test =>
    show cell.filter test = some v ↔ _
    rw [Option.filter_eq_some_iff]
    simp [Keeps]

/-- The value of a cell after a row of effects. -/
theorem foldl_apply_from (effects : List (Effect V)) (v : V) : ∀ cell : Option V,
    effects.foldl (fun cell e => e.apply cell) cell = some v ↔
      (cell = some v ∧ ∀ e ∈ effects, e.Keeps v) ∨
        ∃ before after, effects = before ++ .write v :: after ∧ ∀ e ∈ after, e.Keeps v := by
  induction effects with
  | nil =>
    intro cell
    simp
  | cons e rest ih =>
    intro cell
    rw [List.foldl_cons, ih, apply_eq_some_iff]
    constructor
    · rintro (⟨rfl | ⟨hcell, he⟩, hrest⟩ | ⟨before, after, rfl, hafter⟩)
      · exact .inr ⟨[], rest, rfl, hrest⟩
      · refine .inl ⟨hcell, fun e' he' => ?_⟩
        rcases List.mem_cons.mp he' with rfl | he'
        · exact he
        · exact hrest e' he'
      · exact .inr ⟨e :: before, after, rfl, hafter⟩
    · rintro (⟨hcell, hkeeps⟩ | ⟨before, after, hsplit, hafter⟩)
      · exact .inl ⟨.inr ⟨hcell, hkeeps e List.mem_cons_self⟩,
          fun e' he' => hkeeps e' (List.mem_cons_of_mem e he')⟩
      · -- the write is this effect or one of the rest
        cases before with
        | nil =>
          obtain ⟨rfl, rfl⟩ := List.cons.inj hsplit
          exact .inl ⟨.inl rfl, hafter⟩
        | cons e' before =>
          obtain ⟨rfl, rfl⟩ := List.cons.inj hsplit
          exact .inr ⟨before, after, rfl, hafter⟩

/-- After a row of effects an empty cell has the value that was written last, if every later
effect keeps it. -/
theorem foldl_apply_eq_some_iff (effects : List (Effect V)) (v : V) :
    effects.foldl (fun cell e => e.apply cell) none = some v ↔
      ∃ before after, effects = before ++ .write v :: after ∧ ∀ e ∈ after, e.Keeps v := by
  rw [foldl_apply_from]
  simp

end Effect

end GrafeoLoro.Lib
