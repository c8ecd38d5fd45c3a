import GrafeoLoro.Lib.Chain
import Mathlib.Data.Finset.Card
import Mathlib.Data.List.Nodup

/-!
# `GrafeoLoro.Lib.LinkedStack`: stacks of linked records

A table `get` holds records under keys, and a record has the key of the one below it, or none.
`Stacked get key up l` says that `l` is a stack in the table, the top first: each record is under
its own key and names the next. Stacks may share records.

* `walk_stacked`: following the links from the top lists the stack.
* `Stacked.mono`: a table that keeps the records of a stack keeps the stack.
* `not_mem_of_up_head`: a record on top of a stack is not in it.
* `above_iff_mem`: what the links lead to is in the stack.
* `mem_walk_iff`: without a cycle, a walk as long as the table lists every record that the links
  lead to.

The module names nothing of the bridge.
-/

set_option autoImplicit false

namespace GrafeoLoro.Lib

open Relation

variable {κ α : Type} {get get' : κ → Option α} {key : α → κ} {up : α → Option κ}

/-- The records are a stack in the table, the top first. -/
def Stacked (get : κ → Option α) (key : α → κ) (up : α → Option κ) : List α → Prop
  | [] => True
  | a :: rest => get (key a) = some a ∧ up a = rest.head?.map key ∧ Stacked get key up rest

/-- At most `limit` records, from the key `cursor` downward. -/
def walk (get : κ → Option α) (up : α → Option κ) : Nat → κ → List α
  | 0, _ => []
  | limit + 1, cursor =>
    match get cursor with
    | some a =>
      a :: match up a with
        | some below => walk get up limit below
        | none => []
    | none => []

/-- The records of a stack are in the table. -/
theorem Stacked.get_eq {l : List α} (h : Stacked get key up l) {a : α} (ha : a ∈ l) :
    get (key a) = some a := by
  induction l with
  | nil => cases ha
  | cons first rest ih =>
    rcases List.mem_cons.mp ha with rfl | hrest
    · exact h.1
    · exact ih h.2.2 hrest

/-- A table that has the records of a stack has the stack. -/
theorem Stacked.mono {l : List α} (h : Stacked get key up l)
    (hget : ∀ a ∈ l, get (key a) = some a → get' (key a) = some a) : Stacked get' key up l := by
  induction l with
  | nil => trivial
  | cons first rest ih =>
    refine ⟨hget first List.mem_cons_self h.1, h.2.1, ih h.2.2 fun a ha => ?_⟩
    exact hget a (List.mem_cons_of_mem _ ha)

/-- What is below a part of a stack is a stack. -/
theorem Stacked.below {above l : List α} (h : Stacked get key up (above ++ l)) :
    Stacked get key up l := by
  induction above with
  | nil => exact h
  | cons first rest ih => exact ih h.2.2

/-- A record in a stack names the one below it. -/
theorem Stacked.up_eq {above l : List α} {a : α} (h : Stacked get key up (above ++ a :: l)) :
    up a = l.head?.map key :=
  h.below.2.1

/-- The walk from the top of a stack lists it. -/
theorem walk_stacked {l : List α} {top : κ} (h : Stacked get key up l)
    (htop : l.head?.map key = some top) (limit : Nat) : walk get up limit top = l.take limit := by
  induction limit generalizing l top with
  | zero => rfl
  | succ limit ih =>
    cases l with
    | nil => cases htop
    | cons a rest =>
      obtain ⟨hget, hup, hrest⟩ := h
      have hkey : key a = top := Option.some.inj htop
      rw [← hkey, walk, hget, List.take_succ_cons]
      dsimp only
      cases hbelow : rest.head?.map key with
      | none =>
        have hnil : rest = [] := by simpa using hbelow
        simp [hup, hnil]
      | some below =>
        rw [hup, hbelow]
        dsimp only
        rw [ih hrest hbelow]

/-- A record that names the top of a stack is not in the stack. -/
theorem not_mem_of_up_head {l : List α} (h : Stacked get key up l) (hnodup : (l.map key).Nodup)
    {a : α} (hup : up a = l.head?.map key) : a ∉ l := by
  intro ha
  obtain ⟨above, below, rfl⟩ := List.append_of_mem ha
  rw [h.up_eq] at hup
  -- the record below `a` would have the key of the top
  obtain ⟨first, hfirst, hmem⟩ : ∃ first, (above ++ a :: below).head? = some first ∧
      first ∈ above ++ [a] := by
    cases above with
    | nil => exact ⟨a, rfl, by simp⟩
    | cons first rest => exact ⟨first, rfl, by simp⟩
  rw [hfirst] at hup
  cases below with
  | nil => cases hup
  | cons second rest =>
    have hkey : key second = key first := Option.some.inj hup
    have hsplit : above ++ a :: second :: rest = (above ++ [a]) ++ second :: rest := by simp
    rw [hsplit, List.map_append, List.nodup_append] at hnodup
    exact hnodup.2.2 (key first) (List.mem_map_of_mem hmem) (key second) (by simp) hkey.symm

/-- The link from a key to the key below. -/
def link (get : κ → Option α) (up : α → Option κ) (k : κ) : Option κ := (get k).bind up

/-- A record links its key to the one that it names. -/
theorem link_of_get {k : κ} {a : α} (h : get k = some a) : link get up k = up a := by
  rw [link, h]
  rfl

/-- From the top of a stack, the links lead to the keys of the stack and to no others. -/
theorem above_iff_mem {l : List α} {top target : κ} (h : Stacked get key up l)
    (htop : l.head?.map key = some top) :
    ReflTransGen (Above (link get up)) target top ↔ target ∈ l.map key := by
  induction l generalizing top with
  | nil => cases htop
  | cons a rest ih =>
    obtain ⟨hget, hup, hrest⟩ := h
    have hkey : key a = top := Option.some.inj htop
    have hlink : link get up top = rest.head?.map key := by
      rw [← hkey, link_of_get hget]
      exact hup
    rw [above_iff_next, List.map_cons, List.mem_cons, hkey, hlink]
    cases hbelow : rest.head?.map key with
    | none =>
      have hnil : rest = [] := by simpa using hbelow
      simp [hnil]
    | some below => simp [ih hrest hbelow]

/-! ### Walks over a table -/

section
variable {limit : Nat} {start target : κ}

/-- A walk lists records that the links lead to. -/
theorem above_of_mem_walk (hkeys : ∀ k a, get k = some a → key a = k) {a : α}
    (ha : a ∈ walk get up limit start) :
    get (key a) = some a ∧ ReflTransGen (Above (link get up)) (key a) start := by
  induction limit generalizing start with
  | zero => cases ha
  | succ limit ih =>
    cases hget : get start with
    | none =>
      rw [walk, hget] at ha
      cases ha
    | some first =>
      have hkey : key first = start := hkeys start first hget
      rw [walk, hget] at ha
      rcases List.mem_cons.mp ha with rfl | hrest
      · rw [hkey]
        exact ⟨hget, .refl⟩
      · cases hup : up first with
        | none =>
          rw [hup] at hrest
          cases hrest
        | some below =>
          rw [hup] at hrest
          obtain ⟨hin, hpath⟩ := ih hrest
          have hlink : Above (link get up) below start := (link_of_get hget).trans hup
          exact ⟨hin, hpath.tail hlink⟩

/-- Without a cycle, a walk lists no record twice. -/
theorem walk_nodup (hkeys : ∀ k a, get k = some a → key a = k)
    (hacyclic : Acyclic (Above (link get up))) :
    ((walk get up limit start).map key).Nodup := by
  induction limit generalizing start with
  | zero => exact List.nodup_nil
  | succ limit ih =>
    rw [walk]
    cases hget : get start with
    | none => exact List.nodup_nil
    | some first =>
      dsimp only
      cases hup : up first with
      | none => exact List.nodup_singleton _
      | some below =>
        have hlink : Above (link get up) below start := (link_of_get hget).trans hup
        refine List.nodup_cons.mpr ⟨fun hmem => ?_, ih⟩
        -- the first record again, further down, would close a cycle
        obtain ⟨a, ha, hsame⟩ := List.mem_map.mp hmem
        have hpath := (above_of_mem_walk hkeys ha).2
        rw [hsame, hkeys start first hget] at hpath
        exact hacyclic start (TransGen.tail' hpath hlink)

/-- A walk that stops before its limit lists every record that the links lead to. -/
theorem mem_walk_of_above (hkeys : ∀ k a, get k = some a → key a = k)
    (hshort : (walk get up limit start).length < limit)
    (hpath : ReflTransGen (Above (link get up)) target start) (htarget : get target ≠ none) :
    target ∈ (walk get up limit start).map key := by
  induction limit generalizing start with
  | zero => exact absurd hshort (Nat.not_lt_zero _)
  | succ limit ih =>
    rw [above_iff_next] at hpath
    rw [walk] at hshort ⊢
    cases hget : get start with
    | none =>
      -- the walk has ended, and so have the links
      have hnone : link get up start = none := by
        rw [link, hget]
        rfl
      rcases hpath with rfl | ⟨below, hbelow, -⟩
      · exact absurd hget htarget
      · cases hnone.symm.trans hbelow
    | some first =>
      have hkey : key first = start := hkeys start first hget
      rw [hget] at hshort
      dsimp only at hshort
      rw [List.map_cons, List.mem_cons, hkey]
      rcases hpath with rfl | ⟨below, hbelow, hrest⟩
      · exact .inl rfl
      · rw [link_of_get hget] at hbelow
        rw [hbelow] at hshort ⊢
        dsimp only at hshort ⊢
        rw [List.length_cons] at hshort
        exact .inr (ih (Nat.lt_of_succ_lt_succ hshort) hrest)

/-- Without a cycle, a walk as long as the table lists the records that the links lead to. -/
theorem mem_walk_iff [DecidableEq κ] (hkeys : ∀ k a, get k = some a → key a = k)
    (hacyclic : Acyclic (Above (link get up))) {domain : Finset κ}
    (hdomain : ∀ k, get k ≠ none → k ∈ domain) (hlimit : domain.card ≤ limit) :
    target ∈ (walk get up limit start).map key ↔
      get target ≠ none ∧ ReflTransGen (Above (link get up)) target start := by
  constructor
  · intro hmem
    obtain ⟨a, ha, rfl⟩ := List.mem_map.mp hmem
    obtain ⟨hget, hpath⟩ := above_of_mem_walk hkeys ha
    exact ⟨by simp [hget], hpath⟩
  · rintro ⟨htarget, hpath⟩
    by_cases hshort : (walk get up limit start).length < limit
    · exact mem_walk_of_above hkeys hshort hpath htarget
    · -- the walk has as many keys as the table, so it has all of them
      have hsub : ((walk get up limit start).map key).toFinset ⊆ domain := by
        intro k hk
        obtain ⟨a, ha, rfl⟩ := List.mem_map.mp (List.mem_toFinset.mp hk)
        exact hdomain _ (by simp [(above_of_mem_walk hkeys ha).1])
      have hcard : domain.card ≤ ((walk get up limit start).map key).toFinset.card := by
        rw [List.toFinset_card_of_nodup (walk_nodup hkeys hacyclic), List.length_map]
        exact hlimit.trans (Nat.le_of_not_lt hshort)
      rw [← List.mem_toFinset, Finset.eq_of_subset_of_card_le hsub hcard]
      exact hdomain target htarget

end

end GrafeoLoro.Lib
