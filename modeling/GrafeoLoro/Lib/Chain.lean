import GrafeoLoro.Lib.Acyclic
import GrafeoLoro.Lib.Fuel
import Mathlib.Data.Fintype.Card
import Mathlib.Data.Set.Finite.Basic
import Mathlib.Order.WellFounded

/-!
# `GrafeoLoro.Lib.Chain`: following pointers upward

A partial function `f` gives each element the next one above it, or none. `climb` follows it from
an element until it meets a target or an element with none above. It has no memory, so on a cycle
that the target is not on it goes on for ever. `fuel` bounds its rounds.

* `climb_eq_true`, `climb_eq_false`: what the two results mean.
* `climb_true_of_above`, `climb_false_of_root`: when there is a result, with fuel enough.
* `root_or_cycle`: among finitely many pointers, an element has a root above it or a cycle.
* `climb_returns_of_acyclic`: so without a cycle there is always a result.
* `climb_runs_on`: and from a cycle there is none for a target that is not above.

`climbAll` is the walk with a memory, which lists what it meets and stops before it meets an
element again.

* `climbAll_returns`: it always comes to a result, when the pointers lead into a finite set.
* `mem_climbAll_iff`: it lists what is above an element, without the element itself.

The module names nothing of the bridge.
-/

set_option autoImplicit false

namespace GrafeoLoro.Lib

open Relation

variable {α : Type} {f : α → Option α}

/-- The element `p` is directly above `c`. -/
def Above (f : α → Option α) (p c : α) : Prop := f c = some p

/-- Above an element are itself and what is above the next: its pointer is the only one into it. -/
theorem above_iff_next {target x : α} :
    ReflTransGen (Above f) target x ↔
      target = x ∨ ∃ p, f x = some p ∧ ReflTransGen (Above f) target p := by
  constructor
  · intro hpath
    cases ReflTransGen.cases_tail hpath with
    | inl heq => exact .inl heq.symm
    | inr hlast =>
      obtain ⟨p, hp, hstep⟩ := hlast
      exact .inr ⟨p, hstep, hp⟩
  · rintro (rfl | ⟨p, hstep, hp⟩)
    · exact .refl
    · exact hp.tail hstep

/-- Follow the pointers from an element: `true` at the target, `false` where there is none. -/
def climb [DecidableEq α] (f : α → Option α) (target : α) : Nat → α → Option Bool
  | 0, _ => none
  | fuel + 1, cur =>
    if cur = target then some true
    else match f cur with
      | some p => climb f target fuel p
      | none => some false

section
variable [DecidableEq α] {target : α}

/-- A walk that ends at the target: the target is above. -/
theorem climb_eq_true {fuel : Nat} {x : α} (h : climb f target fuel x = some true) :
    ReflTransGen (Above f) target x := by
  induction fuel generalizing x with
  | zero => cases h
  | succ fuel ih =>
    rw [climb] at h
    split at h
    · rename_i heq
      rw [heq]
    · split at h
      · rename_i p hp
        exact (ih h).tail hp
      · cases h

/-- A walk that ends where there is none above: the target is not above. -/
theorem climb_eq_false {fuel : Nat} {x : α} (h : climb f target fuel x = some false) :
    ¬ ReflTransGen (Above f) target x ∧ ∃ r, ReflTransGen (Above f) r x ∧ f r = none := by
  induction fuel generalizing x with
  | zero => cases h
  | succ fuel ih =>
    rw [climb] at h
    split at h
    · cases h
    · rename_i hne
      split at h
      · rename_i p hp
        obtain ⟨hnot, r, hr, hroot⟩ := ih h
        refine ⟨fun hpath => ?_, r, hr.tail hp, hroot⟩
        rcases above_iff_next.mp hpath with heq | ⟨q, hq, hpath'⟩
        · exact hne heq.symm
        · cases hp.symm.trans hq
          exact hnot hpath'
      · rename_i hroot
        refine ⟨fun hpath => ?_, x, .refl, hroot⟩
        rcases above_iff_next.mp hpath with heq | ⟨q, hq, -⟩
        · exact hne heq.symm
        · cases hroot.symm.trans hq

/-- A target above is found. -/
theorem climb_true_of_above {x : α} (h : ReflTransGen (Above f) target x) :
    Settles (fun fuel => climb f target fuel x) true := by
  induction h with
  | refl => exact .one fun fuel => by simp [climb]
  | @tail y x _ hstep ih =>
    by_cases heq : x = target
    · exact .one fun fuel => by simp [climb, heq]
    -- One pointer more, and the walk from there finds the target.
    · refine ih.step id fun fuel => ?_
      have hx : f x = some y := hstep
      simp [climb, heq, hx]

/-- A walk that meets a root before the target ends there. -/
theorem climb_false_of_root {r x : α} (hr : ReflTransGen (Above f) r x) (hroot : f r = none)
    (hnot : ¬ ReflTransGen (Above f) target x) :
    Settles (fun fuel => climb f target fuel x) false := by
  induction hr with
  | refl =>
    have hne : r ≠ target := fun heq => hnot (heq ▸ .refl)
    exact .one fun fuel => by simp [climb, hne, hroot]
  | @tail y x _ hstep ih =>
    refine (ih fun hpath => hnot (hpath.tail hstep)).step id fun fuel => ?_
    have hx : f x = some y := hstep
    have hne : x ≠ target := fun heq => hnot (heq ▸ .refl)
    simp [climb, hne, hx]

end

/-! ### Roots and cycles -/

/-- What is above an element of a cycle is on a cycle. -/
theorem transGen_above {r y : α} (hr : ReflTransGen (Above f) r y) (hy : TransGen (Above f) y y) :
    TransGen (Above f) r r := by
  induction hr with
  | refl => exact hy
  | @tail p y _ hstep ih =>
    -- the cycle goes through the element that is directly above
    refine ih ?_
    obtain ⟨q, hyq, hqy⟩ := TransGen.tail'_iff.mp hy
    have hqp : q = p := Option.some.inj (Eq.trans (Eq.symm hqy) hstep)
    exact TransGen.head' hstep (hqp ▸ hyq)

/-- A root is not on a cycle. -/
theorem not_transGen_root {r x : α} (hroot : f r = none) : ¬ TransGen (Above f) x r := by
  intro h
  obtain ⟨q, -, hq⟩ := TransGen.tail'_iff.mp h
  have hsome : f r = some q := hq
  rw [hroot] at hsome
  cases hsome

/-- Among finitely many pointers, an element has a root above it or an element of a cycle. -/
theorem root_or_cycle (hfin : {x | f x ≠ none}.Finite) (x : α) :
    (∃ r, ReflTransGen (Above f) r x ∧ f r = none) ∨
      ∃ y, ReflTransGen (Above f) y x ∧ TransGen (Above f) y y := by
  by_contra hneither
  have hroot : ∀ y, ReflTransGen (Above f) y x → f y ≠ none :=
    fun y hy hnone => hneither (.inl ⟨y, hy, hnone⟩)
  have hcycle : ∀ y, ReflTransGen (Above f) y x → ¬ TransGen (Above f) y y :=
    fun y hy hyy => hneither (.inr ⟨y, hy, hyy⟩)
  -- what is above `x` has a pointer, so there is a topmost one
  have hfinite : Finite {y // ReflTransGen (Above f) y x} :=
    (hfin.subset hroot).to_subtype
  let higher : {y // ReflTransGen (Above f) y x} → {y // ReflTransGen (Above f) y x} → Prop :=
    fun y z => TransGen (Above f) y.1 z.1
  have htrans : IsTrans _ higher := ⟨fun _ _ _ hyz hzw => TransGen.trans hyz hzw⟩
  have hirrefl : Std.Irrefl higher := ⟨fun y hyy => hcycle y.1 y.2 hyy⟩
  have hwf : WellFounded higher := Finite.wellFounded_of_trans_of_irrefl higher
  obtain ⟨top, -, htop⟩ := hwf.has_min Set.univ ⟨⟨x, .refl⟩, trivial⟩
  -- the element above the topmost one is higher still
  cases hf : f top.1 with
  | none => exact hroot top.1 top.2 hf
  | some p => exact htop ⟨p, ReflTransGen.head hf top.2⟩ trivial (TransGen.single hf)

/-! ### When a walk comes to a result -/

section
variable [DecidableEq α] {target : α}

/-- Without a cycle, every walk over finitely many pointers comes to a result. -/
theorem climb_returns_of_acyclic (hfin : {x | f x ≠ none}.Finite) (hacyclic : Acyclic (Above f))
    (target x : α) : ∃ fuel result, (∀ more, fuel ≤ more → climb f target more x = some result) ∧
      (result = true ↔ ReflTransGen (Above f) target x) := by
  by_cases hpath : ReflTransGen (Above f) target x
  · obtain ⟨fuel, hfuel⟩ := climb_true_of_above hpath
    exact ⟨fuel, true, hfuel, by simp [hpath]⟩
  · rcases root_or_cycle hfin x with ⟨r, hr, hroot⟩ | ⟨y, -, hyy⟩
    · obtain ⟨fuel, hfuel⟩ := climb_false_of_root hr hroot hpath
      exact ⟨fuel, false, hfuel, by simp [hpath]⟩
    · exact absurd hyy (hacyclic y)

/-- A walk from an element of a cycle never ends when the target is not above. -/
theorem climb_runs_on {x : α} (hcycle : TransGen (Above f) x x)
    (hnot : ¬ ReflTransGen (Above f) target x) (fuel : Nat) : climb f target fuel x = none := by
  cases hresult : climb f target fuel x with
  | none => rfl
  | some result =>
    cases result with
    | true => exact absurd (climb_eq_true hresult) hnot
    | false =>
      -- a root above `x` would be on a cycle
      obtain ⟨-, r, hr, hroot⟩ := climb_eq_false hresult
      exact absurd (transGen_above hr hcycle) (not_transGen_root hroot)

end

/-! ### A walk with a memory -/

section
variable [DecidableEq α]

/-- Follow the pointers from an element and list what is above it, until there is none above or it
was met before. -/
def climbAll (f : α → Option α) : Nat → List α → α → Option (List α)
  | 0, _, _ => none
  | fuel + 1, visited, cur =>
    match f cur with
    | none => some []
    | some p => if p ∈ visited then some [] else (climbAll f fuel (p :: visited) p).map (p :: ·)

/-- The walk with a memory ends, when the pointers lead into a finite set. -/
theorem climbAll_returns (univ : Finset α) (hf : ∀ x p, f x = some p → p ∈ univ) :
    ∀ (visited : List α) (x : α), Ends fun fuel => climbAll f fuel visited x := by
  suffices h : ∀ n (visited : List α) (x : α), (univ \ visited.toFinset).card = n →
      Ends fun fuel => climbAll f fuel visited x by
    exact fun visited x => h _ visited x rfl
  intro n
  induction n using Nat.strong_induction_on with | _ n ih =>
  intro visited x hcard
  cases hx : f x with
  | none =>
    have hend : ∀ fuel, climbAll f (fuel + 1) visited x = some [] := by
      intro fuel
      rw [climbAll, hx]
    exact .one hend
  | some p =>
    by_cases hp : p ∈ visited
    · have hend : ∀ fuel, climbAll f (fuel + 1) visited x = some [] := by
        intro fuel
        simp [climbAll, hx, hp]
      exact .one hend
    · -- one element more is visited
      have hsub : univ \ (p :: visited).toFinset ⊂ univ \ visited.toFinset := by
        rw [List.toFinset_cons, Finset.sdiff_insert]
        exact Finset.erase_ssubset (by simp [hf x p hx, hp])
      refine .step (p :: ·) (fun fuel => ?_)
        (ih _ (hcard ▸ Finset.card_lt_card hsub) (p :: visited) p rfl)
      simp [climbAll, hx, hp]

end

/-- What the walk lists: each element is directly above the one before it, none is listed twice,
and the pointer of the last one leads to one that was met before, if anywhere. -/
structure ClimbOf (f : α → Option α) (visited : List α) (x : α) (out : List α) : Prop where
  chain : (x :: out).IsChain fun c p => f c = some p
  nodup : out.Nodup
  new : ∀ y ∈ out, y ∉ visited
  closed : ∀ y ∈ x :: out, ∀ p, f y = some p → p ∈ visited ∨ p ∈ out

theorem ClimbOf.of_result [DecidableEq α] {fuel : Nat} {visited : List α} {x : α}
    {out : List α} (h : climbAll f fuel visited x = some out) : ClimbOf f visited x out := by
  induction fuel generalizing visited x out with
  | zero => cases h
  | succ fuel ih =>
    rw [climbAll] at h
    cases hx : f x with
    | none =>
      rw [hx] at h
      obtain rfl : [] = out := Option.some.inj h
      refine ⟨.singleton _, by simp, by simp, fun y hy p hp => ?_⟩
      rw [List.mem_singleton.mp hy, hx] at hp
      cases hp
    | some p =>
      simp only [hx] at h
      split at h
      · rename_i hp
        obtain rfl : [] = out := Option.some.inj h
        refine ⟨.singleton _, by simp, by simp, fun y hy q hq => ?_⟩
        rw [List.mem_singleton.mp hy, hx] at hq
        obtain rfl := Option.some.inj hq
        exact .inl hp
      · rename_i hp
        obtain ⟨rest, hrest, rfl⟩ := Option.map_eq_some_iff.mp h
        have hclimb := ih hrest
        refine ⟨hclimb.chain.cons_cons hx, List.nodup_cons.mpr
          ⟨fun hmem => hclimb.new p hmem List.mem_cons_self, hclimb.nodup⟩, ?_, ?_⟩
        · intro y hy
          rcases List.mem_cons.mp hy with rfl | hy
          · exact hp
          · exact fun hv => hclimb.new y hy (List.mem_cons_of_mem _ hv)
        · intro y hy q hq
          rcases List.mem_cons.mp hy with rfl | hy
          · rw [hx] at hq
            obtain rfl := Option.some.inj hq
            exact .inr List.mem_cons_self
          · rcases hclimb.closed y hy q hq with hv | ho
            · rcases List.mem_cons.mp hv with rfl | hv
              · exact .inr List.mem_cons_self
              · exact .inl hv
            · exact .inr (List.mem_cons_of_mem _ ho)

/-- What a chain of pointers comes to is above its start. -/
theorem transGen_of_chain {x y : α} {out : List α}
    (h : (x :: out).IsChain fun c p => f c = some p) (hy : y ∈ out) :
    TransGen (Above f) y x := by
  induction out generalizing x with
  | nil => simp at hy
  | cons p rest ih =>
    obtain ⟨hstep, hrest⟩ := List.isChain_cons_cons.mp h
    have hx : Above f p x := hstep
    rcases List.mem_cons.mp hy with rfl | hy
    · exact .single hx
    · exact (ih hrest hy).tail hx

/-- The walk from an element lists what is above it, without the element itself. -/
theorem mem_climbAll_iff {x : α} {out : List α} (h : ClimbOf f [x] x out) (y : α) :
    y ∈ out ↔ y ≠ x ∧ TransGen (Above f) y x := by
  constructor
  · intro hy
    exact ⟨fun heq => h.new y hy (List.mem_singleton.mpr heq), transGen_of_chain h.chain hy⟩
  · rintro ⟨hne, hpath⟩
    -- everything above is the element itself or in the list
    have hall : ∀ z, ReflTransGen (Above f) z x → z = x ∨ z ∈ out := by
      intro z hz
      induction hz using ReflTransGen.head_induction_on with
      | refl => exact .inl rfl
      | @head p c hstep _ ih =>
        have hmem : c ∈ x :: out := List.mem_cons.mpr ih
        exact (h.closed c hmem p hstep).imp_left List.mem_singleton.mp
    exact (hall y hpath.to_reflTransGen).resolve_left hne

end GrafeoLoro.Lib
