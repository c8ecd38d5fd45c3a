import Mathlib.Data.Finset.Card
import Mathlib.Logic.Relation

/-!
# `GrafeoLoro.Lib.Search`: breadth-first search for one element

`search succ target fuel queue visited` is the loop of a breadth-first search with a queue
and a set of visited elements. It stops with `true` as soon as a successor of the element at
the head of the queue is the target, and with `false` when the queue is empty. One round takes
one element from the queue, and `fuel` bounds the rounds.

`search_eq_true_iff` says that the search from one element decides reachability in one or more
steps, when the successors all lie in a finite set of fewer elements than the fuel.

The module names nothing of the bridge.
-/

set_option autoImplicit false

namespace GrafeoLoro.Lib

open Relation

variable {α : Type} [DecidableEq α]

/-- The loop over the successors of one element: `none` when the target is among them, else
the queue and the visited elements after it. -/
def scan (target : α) : List α → List α → List α → Option (List α × List α)
  | [], queue, visited => some (queue, visited)
  | x :: xs, queue, visited =>
    if x = target then none
    else if x ∈ visited then scan target xs queue visited
    else scan target xs (queue ++ [x]) (x :: visited)

/-- The loop over the queue. -/
def search (succ : α → List α) (target : α) : Nat → List α → List α → Bool
  | 0, _, _ => false
  | _ + 1, [], _ => false
  | fuel + 1, cur :: queue, visited =>
    match scan target (succ cur) queue visited with
    | none => true
    | some (queue', visited') => search succ target fuel queue' visited'

/-- The loop over the successors stops early exactly when the target is among them. -/
theorem scan_eq_none_iff {target : α} (xs : List α) :
    ∀ queue visited, scan target xs queue visited = none ↔ target ∈ xs := by
  induction xs with
  | nil => simp [scan]
  | cons x xs ih =>
    intro queue visited
    rw [scan, List.mem_cons]
    split
    · rename_i hx
      simp [hx]
    · rename_i hx
      split
      · rw [ih]
        simp [Ne.symm hx]
      · rw [ih]
        simp [Ne.symm hx]

/-- What the loop over the successors leaves: the new elements are in the queue and visited,
and nothing else is new. -/
structure Scanned (xs queue visited queue' visited' : List α) : Prop where
  memVisited : ∀ y, y ∈ visited' ↔ y ∈ visited ∨ y ∈ xs
  memQueue : ∀ y, y ∈ queue' ↔ y ∈ queue ∨ (y ∈ visited' ∧ y ∉ visited)
  nodup : visited.Nodup → visited'.Nodup
  length : queue'.length + visited.length = queue.length + visited'.length

theorem scan_eq_some {target : α} (xs : List α) :
    ∀ queue visited queue' visited', scan target xs queue visited = some (queue', visited') →
      Scanned xs queue visited queue' visited' := by
  induction xs with
  | nil =>
    intro queue visited queue' visited' h
    simp only [scan, Option.some.injEq, Prod.mk.injEq] at h
    obtain ⟨rfl, rfl⟩ := h
    exact ⟨by simp, by simp, fun h => h, rfl⟩
  | cons x xs ih =>
    intro queue visited queue' visited' h
    rw [scan] at h
    split at h
    · cases h
    · split at h
      · -- `x` was visited: the rest of the list does all the work
        rename_i hmem
        have hrest := ih _ _ _ _ h
        refine ⟨fun y => ?_, hrest.memQueue, hrest.nodup, hrest.length⟩
        rw [hrest.memVisited, List.mem_cons]
        constructor
        · rintro (hy | hy)
          · exact .inl hy
          · exact .inr (.inr hy)
        · rintro (hy | rfl | hy)
          · exact .inl hy
          · exact .inl hmem
          · exact .inr hy
      · -- `x` is new: it goes into the queue and among the visited
        rename_i hmem
        have hrest := ih _ _ _ _ h
        refine ⟨fun y => ?_, fun y => ?_, fun hnodup => ?_, ?_⟩
        · rw [hrest.memVisited, List.mem_cons, List.mem_cons]
          tauto
        · rw [hrest.memQueue, List.mem_append, List.mem_singleton, List.mem_cons]
          have hx : x ∈ visited' := (hrest.memVisited x).mpr (.inl List.mem_cons_self)
          constructor
          · rintro ((hy | rfl) | ⟨hy, hnew⟩)
            · exact .inl hy
            · exact .inr ⟨hx, hmem⟩
            · exact .inr ⟨hy, fun hv => hnew (.inr hv)⟩
          · rintro (hy | ⟨hy, hnew⟩)
            · exact .inl (.inl hy)
            · by_cases hyx : y = x
              · exact .inl (.inr hyx)
              · exact .inr ⟨hy, fun hv => hv.elim hyx hnew⟩
        · exact hrest.nodup (List.nodup_cons.mpr ⟨hmem, hnodup⟩)
        · have hlen := hrest.length
          rw [List.length_append, List.length_singleton, List.length_cons] at hlen
          omega

variable {succ : α → List α} {target start : α}

/-- The search finds only targets that are reachable from the start. -/
theorem search_sound (fuel : Nat) :
    ∀ queue visited, (∀ x ∈ queue, ReflTransGen (fun a b => b ∈ succ a) start x) →
      (∀ x ∈ visited, ReflTransGen (fun a b => b ∈ succ a) start x) →
      search succ target fuel queue visited = true →
      TransGen (fun a b => b ∈ succ a) start target := by
  induction fuel with
  | zero => exact fun _ _ _ _ h => absurd h Bool.false_ne_true
  | succ fuel ih =>
    intro queue visited hqueue hvisited h
    cases queue with
    | nil => exact absurd h Bool.false_ne_true
    | cons cur queue =>
      have hcur := hqueue cur List.mem_cons_self
      rw [search] at h
      split at h
      · -- the target is a successor of an element that is reachable
        rename_i hscan
        exact TransGen.tail' hcur ((scan_eq_none_iff _ _ _).mp hscan)
      · rename_i queue' visited' hscan
        have hs := scan_eq_some _ _ _ _ _ hscan
        have hvisited' : ∀ x ∈ visited', ReflTransGen (fun a b => b ∈ succ a) start x := by
          intro x hx
          rcases (hs.memVisited x).mp hx with hx | hx
          · exact hvisited x hx
          · exact hcur.tail hx
        refine ih queue' visited' (fun x hx => ?_) hvisited' h
        rcases (hs.memQueue x).mp hx with hx | ⟨hx, -⟩
        · exact hqueue x (List.mem_cons_of_mem _ hx)
        · exact hvisited' x hx

/-- Elements that move from the unvisited to the visited ones are counted once. -/
theorem card_unvisited (univ : Finset α) {visited visited' : List α} (hnodup' : visited'.Nodup)
    (hnodup : visited.Nodup) (hold : ∀ y ∈ visited, y ∈ visited')
    (hnew : ∀ y ∈ visited', y ∉ visited → y ∈ univ) :
    (univ \ visited'.toFinset).card + visited'.length
      ≤ (univ \ visited.toFinset).card + visited.length := by
  have hsub : visited.toFinset ⊆ visited'.toFinset := fun y hy =>
    List.mem_toFinset.mpr (hold y (List.mem_toFinset.mp hy))
  have hadded : (visited'.toFinset \ visited.toFinset).card + visited.length = visited'.length := by
    rw [← List.toFinset_card_of_nodup hnodup, ← List.toFinset_card_of_nodup hnodup']
    exact Finset.card_sdiff_add_card_eq_card hsub
  have hdisjoint : Disjoint (univ \ visited'.toFinset) (visited'.toFinset \ visited.toFinset) :=
    Finset.disjoint_left.mpr fun y hy hy' =>
      (Finset.mem_sdiff.mp hy).2 (Finset.mem_sdiff.mp hy').1
  -- what was unvisited is still unvisited or was added, and not both
  have hle : (univ \ visited'.toFinset).card + (visited'.toFinset \ visited.toFinset).card
      ≤ (univ \ visited.toFinset).card := by
    rw [← Finset.card_union_of_disjoint hdisjoint]
    refine Finset.card_le_card fun y hy => ?_
    rcases Finset.mem_union.mp hy with hy | hy
    · obtain ⟨hu, hv⟩ := Finset.mem_sdiff.mp hy
      exact Finset.mem_sdiff.mpr ⟨hu, fun hmem => hv (hsub hmem)⟩
    · obtain ⟨hv', hv⟩ := Finset.mem_sdiff.mp hy
      exact Finset.mem_sdiff.mpr ⟨hnew y (List.mem_toFinset.mp hv')
        (fun hmem => hv (List.mem_toFinset.mpr hmem)), hv⟩
  omega

/-- With enough fuel, a search that ends with `false` has visited everything reachable, and
the target is not reachable from a visited element. -/
theorem search_complete (univ : Finset α) (hsucc : ∀ x y, y ∈ succ x → y ∈ univ) (fuel : Nat) :
    ∀ queue visited, visited.Nodup → (∀ x ∈ queue, x ∈ visited) →
      (∀ x ∈ visited, x ∉ queue → ∀ y ∈ succ x, y ∈ visited ∧ y ≠ target) →
      queue.length + (univ \ visited.toFinset).card < fuel →
      search succ target fuel queue visited = false →
      ∀ x ∈ visited, ¬ TransGen (fun a b => b ∈ succ a) x target := by
  induction fuel with
  | zero => exact fun _ _ _ _ _ hfuel _ => absurd hfuel (Nat.not_lt_zero _)
  | succ fuel ih =>
    intro queue visited hnodup hqueue hclosed hfuel h
    cases queue with
    | nil =>
      -- the visited elements are closed under successors, and none of these is the target
      intro x hx hpath
      have hstay : ∀ z, ReflTransGen (fun a b => b ∈ succ a) x z → z ∈ visited := by
        intro z hz
        induction hz with
        | refl => exact hx
        | tail _ hstep ih => exact (hclosed _ ih List.not_mem_nil _ hstep).1
      obtain ⟨z, hz, hstep⟩ := TransGen.tail'_iff.mp hpath
      exact (hclosed z (hstay z hz) List.not_mem_nil target hstep).2 rfl
    | cons cur queue =>
      rw [search] at h
      split at h
      · cases h
      · rename_i queue' visited' hscan
        have hs := scan_eq_some _ _ _ _ _ hscan
        have htarget : target ∉ succ cur := by
          intro hmem
          rw [(scan_eq_none_iff _ _ _).mpr hmem] at hscan
          cases hscan
        have hold : ∀ x ∈ visited, x ∈ visited' := fun x hx => (hs.memVisited x).mpr (.inl hx)
        intro x hx
        refine ih queue' visited' (hs.nodup hnodup) ?_ ?_ ?_ h x (hold x hx)
        · intro y hy
          rcases (hs.memQueue y).mp hy with hy | ⟨hy, -⟩
          · exact hold y (hqueue y (List.mem_cons_of_mem _ hy))
          · exact hy
        · intro y hy hnot z hz
          have hnew : y ∈ visited := by
            by_contra hno
            exact hnot ((hs.memQueue y).mpr (.inr ⟨hy, hno⟩))
          -- `cur` has just been expanded, and the others were closed before
          by_cases hyc : y = cur
          · rw [hyc] at hz
            exact ⟨(hs.memVisited z).mpr (.inr hz), fun heq => htarget (heq ▸ hz)⟩
          · have hyq : y ∉ cur :: queue := by
              intro hmem
              rcases List.mem_cons.mp hmem with hmem | hmem
              · exact hyc hmem
              · exact hnot ((hs.memQueue y).mpr (.inl hmem))
            obtain ⟨hzv, hzt⟩ := hclosed y hnew hyq z hz
            exact ⟨hold z hzv, hzt⟩
        · -- an element that is new in the queue is new among the visited ones
          have hcount := card_unvisited univ (hs.nodup hnodup) hnodup hold fun y hy hnew =>
            (((hs.memVisited y).mp hy).elim (fun h => absurd h hnew) (hsucc cur y))
          have hlen := hs.length
          rw [List.length_cons] at hfuel
          omega

/-- The search from one element decides reachability in one or more steps. -/
theorem search_eq_true_iff (univ : Finset α) (hsucc : ∀ x y, y ∈ succ x → y ∈ univ) {fuel : Nat}
    (hfuel : univ.card + 1 < fuel) :
    search succ target fuel [start] [start] = true ↔
      TransGen (fun a b => b ∈ succ a) start target := by
  constructor
  · refine search_sound fuel [start] [start] (fun x hx => ?_) fun x hx => ?_
    · rw [List.mem_singleton.mp hx]
    · rw [List.mem_singleton.mp hx]
  · intro hpath
    by_contra hno
    have hfalse := Bool.eq_false_iff.mpr hno
    have hcard : (univ \ [start].toFinset).card ≤ univ.card := Finset.card_le_card Finset.sdiff_subset
    refine search_complete univ hsucc fuel [start] [start] (List.nodup_singleton _)
      (fun x hx => hx) (fun x hx hnot => absurd hx hnot) ?_ hfalse start
      (List.mem_singleton.mpr rfl) hpath
    rw [List.length_singleton]
    omega

end GrafeoLoro.Lib
