import GrafeoLoro.Lib.Fuel
import Mathlib.Data.Finset.Card
import Mathlib.Logic.Relation

/-!
# `GrafeoLoro.Lib.Preorder`: depth-first search with a stack

`preorder succ fuel stack visited` is the loop of a depth-first search with a stack and a set of
visited elements. One round takes an element from the stack. If it is new, it goes to the output
and its successors go on the stack. `fuel` bounds the rounds, and `none` says that they were not
enough.

* `preorder_returns`: when the successors lie in a finite set, enough rounds come to a result.
* `PreorderOf.of_result`: what a result contains, and in which order.
* `mem_preorder_iff`: the output of a search from the successors of one element is what is
  reachable from it in one or more steps, without the element itself.

The module names nothing of the bridge.
-/

set_option autoImplicit false

namespace GrafeoLoro.Lib

open Relation

variable {α : Type}

/-- The loop of the search: the output from here on. -/
def preorder [DecidableEq α] (succ : α → List α) : Nat → List α → List α → Option (List α)
  | 0, _, _ => none
  | _ + 1, [], _ => some []
  | fuel + 1, x :: stack, visited =>
    if x ∈ visited then preorder succ fuel stack visited
    else (preorder succ fuel (succ x ++ stack) (x :: visited)).map (x :: ·)

variable {succ : α → List α}

/-! ### Termination -/

section
variable [DecidableEq α]

/-- Enough rounds come to a result, and more do not change it. -/
def PreorderReturns (succ : α → List α) (stack visited : List α) : Prop :=
  ∃ fuel out, ∀ more, fuel ≤ more → preorder succ more stack visited = some out

/-- A search among finitely many elements comes to a result. -/
theorem preorder_returns (univ : Finset α) (hsucc : ∀ x y, y ∈ succ x → y ∈ univ) :
    ∀ (stack visited : List α), (∀ x ∈ stack, x ∈ univ) → PreorderReturns succ stack visited := by
  -- the elements not yet visited get fewer, or they stay and the stack gets shorter
  suffices h : ∀ n m (stack visited : List α), (univ \ visited.toFinset).card = n →
      stack.length = m → (∀ x ∈ stack, x ∈ univ) → PreorderReturns succ stack visited by
    exact fun stack visited => h _ _ stack visited rfl rfl
  intro n
  induction n using Nat.strong_induction_on with | _ n ihn =>
  intro m
  induction m with
  | zero =>
    intro stack visited _ hlen _
    obtain rfl := List.length_eq_zero_iff.mp hlen
    exact Ends.one fun fuel => rfl
  | succ m ihm =>
    intro stack visited hcard hlen hstack
    cases stack with
    | nil => cases hlen
    | cons x stack =>
      by_cases hx : x ∈ visited
      · refine Ends.step id (fun fuel => ?_) (ihm stack visited hcard
          (Nat.succ.inj hlen) fun y hy => hstack y (List.mem_cons_of_mem _ hy))
        rw [preorder, if_pos hx, Option.map_id]
        rfl
      · have hsub : univ \ (x :: visited).toFinset ⊂ univ \ visited.toFinset := by
          rw [List.toFinset_cons, Finset.sdiff_insert]
          exact Finset.erase_ssubset (by simp [hstack x List.mem_cons_self, hx])
        have hrest : ∀ y ∈ succ x ++ stack, y ∈ univ := by
          intro y hy
          rcases List.mem_append.mp hy with hy | hy
          · exact hsucc x y hy
          · exact hstack y (List.mem_cons_of_mem _ hy)
        refine Ends.step (x :: ·) (fun fuel => ?_)
          (ihn _ (hcard ▸ Finset.card_lt_card hsub) _ _ _ rfl rfl hrest)
        rw [preorder, if_neg hx]

end

/-! ### The result -/

/-- What a search from a stack puts out: new elements, without repetition, reachable from the
stack, closed under successors, and each after the element it was found from. -/
structure PreorderOf (succ : α → List α) (stack visited out : List α) : Prop where
  nodup : out.Nodup
  new : ∀ x ∈ out, x ∉ visited
  reached : ∀ x ∈ out, ∃ s ∈ stack, ReflTransGen (fun a b => b ∈ succ a) s x
  covers : ∀ x ∈ stack, x ∈ visited ∨ x ∈ out
  closed : ∀ x ∈ out, ∀ y ∈ succ x, y ∈ visited ∨ y ∈ out
  order : ∀ before x after, out = before ++ x :: after → x ∈ stack ∨ ∃ y ∈ before, x ∈ succ y

/-- An element that was visited is left out. -/
theorem PreorderOf.skip {x : α} {stack visited out : List α} (hx : x ∈ visited)
    (h : PreorderOf succ stack visited out) : PreorderOf succ (x :: stack) visited out where
  nodup := h.nodup
  new := h.new
  reached := fun y hy => by
    obtain ⟨s, hs, hpath⟩ := h.reached y hy
    exact ⟨s, List.mem_cons_of_mem _ hs, hpath⟩
  covers := fun y hy => by
    rcases List.mem_cons.mp hy with rfl | hy
    · exact .inl hx
    · exact h.covers y hy
  closed := h.closed
  order := fun before y after hout =>
    (h.order before y after hout).imp_left (List.mem_cons_of_mem _)

/-- A new element comes first, and what is found after it was on the stack or is its
successor. -/
theorem PreorderOf.visit {x : α} {stack visited out : List α} (hx : x ∉ visited)
    (h : PreorderOf succ (succ x ++ stack) (x :: visited) out) :
    PreorderOf succ (x :: stack) visited (x :: out) where
  nodup := List.nodup_cons.mpr ⟨fun hmem => h.new x hmem List.mem_cons_self, h.nodup⟩
  new := fun y hy => by
    rcases List.mem_cons.mp hy with rfl | hy
    · exact hx
    · exact fun hv => h.new y hy (List.mem_cons_of_mem _ hv)
  reached := fun y hy => by
    rcases List.mem_cons.mp hy with rfl | hy
    · exact ⟨y, List.mem_cons_self, .refl⟩
    · obtain ⟨s, hs, hpath⟩ := h.reached y hy
      rcases List.mem_append.mp hs with hs | hs
      · exact ⟨x, List.mem_cons_self, .head hs hpath⟩
      · exact ⟨s, List.mem_cons_of_mem _ hs, hpath⟩
  covers := fun y hy => by
    rcases List.mem_cons.mp hy with rfl | hy
    · exact .inr List.mem_cons_self
    · rcases h.covers y (List.mem_append_right _ hy) with hv | ho
      · rcases List.mem_cons.mp hv with rfl | hv
        · exact .inr List.mem_cons_self
        · exact .inl hv
      · exact .inr (List.mem_cons_of_mem _ ho)
  closed := fun y hy z hz => by
    have hfound : z ∈ x :: visited ∨ z ∈ out := by
      rcases List.mem_cons.mp hy with rfl | hy
      · exact h.covers z (List.mem_append_left _ hz)
      · exact h.closed y hy z hz
    rcases hfound with hv | ho
    · rcases List.mem_cons.mp hv with rfl | hv
      · exact .inr List.mem_cons_self
      · exact .inl hv
    · exact .inr (List.mem_cons_of_mem _ ho)
  order := fun before y after hout => by
    cases before with
    | nil =>
      obtain ⟨rfl, -⟩ := List.cons.inj hout
      exact .inl List.mem_cons_self
    | cons first before =>
      obtain ⟨rfl, hrest⟩ := List.cons.inj hout
      rcases h.order before y after hrest with hs | ⟨z, hz, hy⟩
      · rcases List.mem_append.mp hs with hs | hs
        · exact .inr ⟨x, List.mem_cons_self, hs⟩
        · exact .inl (List.mem_cons_of_mem _ hs)
      · exact .inr ⟨z, List.mem_cons_of_mem _ hz, hy⟩

/-- The result of a search is such an output. -/
theorem PreorderOf.of_result [DecidableEq α] {fuel : Nat} {stack visited out : List α}
    (h : preorder succ fuel stack visited = some out) : PreorderOf succ stack visited out := by
  induction fuel generalizing stack visited out with
  | zero => cases h
  | succ fuel ih =>
    cases stack with
    | nil =>
      obtain rfl : [] = out := Option.some.inj h
      exact ⟨by simp, by simp, by simp, by simp, by simp, by simp⟩
    | cons x stack =>
      rw [preorder] at h
      split at h
      · rename_i hx
        exact (ih h).skip hx
      · rename_i hx
        obtain ⟨rest, hrest, rfl⟩ := Option.map_eq_some_iff.mp h
        exact (ih hrest).visit hx

/-- A search from the successors of one element puts out what is reachable from it in one or more
steps, without the element itself. -/
theorem mem_preorder_iff {x : α} {out : List α} (h : PreorderOf succ (succ x) [x] out) (y : α) :
    y ∈ out ↔ y ≠ x ∧ TransGen (fun a b => b ∈ succ a) x y := by
  constructor
  · intro hy
    obtain ⟨s, hs, hpath⟩ := h.reached y hy
    exact ⟨fun heq => h.new y hy (List.mem_singleton.mpr heq), TransGen.head' hs hpath⟩
  · rintro ⟨hne, hpath⟩
    -- everything reachable is the element itself or in the output
    have hall : ∀ z, ReflTransGen (fun a b => b ∈ succ a) x z → z = x ∨ z ∈ out := by
      intro z hz
      induction hz with
      | refl => exact .inl rfl
      | @tail b c _ hstep ih =>
        have hfound : c ∈ [x] ∨ c ∈ out := by
          rcases ih with rfl | hb
          · exact h.covers c hstep
          · exact h.closed b hb c hstep
        exact hfound.imp_left List.mem_singleton.mp
    exact (hall y hpath.to_reflTransGen).resolve_left hne

end GrafeoLoro.Lib
