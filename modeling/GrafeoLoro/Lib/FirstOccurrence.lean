import Mathlib.Data.Finset.Card
import Mathlib.Data.Finset.Dedup
import Mathlib.Data.List.Nodup

/-!
# `GrafeoLoro.Lib.FirstOccurrence`: the elements of a list in order of first occurrence

`List.eraseDups` keeps the first occurrence of each element. So the position of an element counts
the different elements before its first occurrence, and a longer list moves no position.

* `eraseDups_concat`: one more element goes to the end when it is new.
* `nodup_eraseDups`, `length_eraseDups`: no element twice, and how many there are.
* `getElem?_eraseDups_iff`: which element has which position.

The module names nothing of the bridge.
-/

set_option autoImplicit false

namespace GrafeoLoro.Lib

variable {α : Type} [DecidableEq α]

/-- One more element goes to the end when it is new. -/
theorem eraseDups_concat (l : List α) (x : α) :
    (l ++ [x]).eraseDups = if x ∈ l then l.eraseDups else l.eraseDups ++ [x] := by
  rw [List.eraseDups_append]
  split
  · rename_i hmem
    have hrest : [x].removeAll l = [] := by simp [List.removeAll, hmem]
    rw [hrest, List.eraseDups_nil, List.append_nil]
  · rename_i hmem
    have hrest : [x].removeAll l = [x] := by simp [List.removeAll, hmem]
    rw [hrest, List.eraseDups_cons]
    rfl

/-- A longer list moves no position. -/
theorem eraseDups_prefix (l more : List α) : l.eraseDups <+: (l ++ more).eraseDups := by
  rw [List.eraseDups_append]
  exact List.prefix_append _ _

/-- No element stays twice. -/
theorem nodup_eraseDups (l : List α) : l.eraseDups.Nodup := by
  induction l using List.reverseRecOn with
  | nil => exact List.nodup_nil
  | append_singleton l x ih =>
    rw [eraseDups_concat]
    split
    · exact ih
    · rename_i hmem
      rw [← List.concat_eq_append]
      apply List.Nodup.concat _ ih
      rw [List.mem_eraseDups]
      exact hmem

/-- As many elements stay as there are different ones. -/
theorem length_eraseDups (l : List α) : l.eraseDups.length = l.toFinset.card := by
  have hsame : l.eraseDups.toFinset = l.toFinset := by
    ext x
    rw [List.mem_toFinset, List.mem_toFinset, List.mem_eraseDups]
  rw [← hsame, List.toFinset_card_of_nodup (nodup_eraseDups l)]

/-- An element that is new at some place has the number of the different elements before it. -/
theorem getElem?_eraseDups_of_notMem {before : List α} {x : α} (h : x ∉ before) (after : List α) :
    (before ++ x :: after).eraseDups[before.toFinset.card]? = some x := by
  have hconcat : (before ++ [x]).eraseDups = before.eraseDups ++ [x] := by
    rw [eraseDups_concat, if_neg h]
  have hprefix := eraseDups_prefix (before ++ [x]) after
  rw [List.append_assoc, List.singleton_append, hconcat] at hprefix
  obtain ⟨more, hmore⟩ := hprefix
  rw [← hmore, ← length_eraseDups, List.append_assoc]
  simp

/-- The element at a position is the one whose first occurrence has so many different elements
before it. -/
theorem getElem?_eraseDups_iff (l : List α) (i : Nat) (x : α) :
    l.eraseDups[i]? = some x ↔
      ∃ before after, l = before ++ x :: after ∧ x ∉ before ∧ i = before.toFinset.card := by
  constructor
  · intro hi
    have hmem : x ∈ l := List.mem_eraseDups.mp (List.mem_of_getElem? hi)
    obtain ⟨before, after, hl, hnew⟩ := List.eq_append_cons_of_mem hmem
    refine ⟨before, after, hl, hnew, ?_⟩
    -- no element stays twice, so the two positions are one
    have hfirst := getElem?_eraseDups_of_notMem hnew after
    rw [← hl] at hfirst
    have hlt := (List.getElem?_eq_some_iff.mp hi).1
    exact (List.getElem?_inj hlt (nodup_eraseDups l)).mp (hi.trans hfirst.symm)
  · rintro ⟨before, after, hl, hnew, hi⟩
    rw [hi, hl]
    exact getElem?_eraseDups_of_notMem hnew after

end GrafeoLoro.Lib
