import Mathlib.Data.List.Basic

/-!
# `GrafeoLoro.Lib.Words`: the words of a text

A predicate says which elements separate. `words` splits a text at each separator and keeps the
parts that are not empty.

* `ne_nil_of_mem_words`, `notSep_of_mem_words`: what a word looks like.
* `words_intercalate`: words that are joined by a separator are found again.
* `words_map`: a map that keeps the separators apart commutes with the split.

The module names nothing of the bridge.
-/

set_option autoImplicit false

namespace GrafeoLoro.Lib

variable {α : Type} {sep : α → Bool}

/-- The parts between the separators that are not empty. -/
def words (sep : α → Bool) (text : List α) : List (List α) :=
  (text.splitOnP sep).filter fun part => !part.isEmpty

/-! ### What a word looks like -/

/-- A part of a split holds no separator. -/
theorem notSep_of_mem_splitOnP {text part : List α} (h : part ∈ text.splitOnP sep) :
    ∀ x ∈ part, sep x = false := by
  induction text generalizing part with
  | nil =>
    rw [List.splitOnP_nil, List.mem_singleton] at h
    rw [h]
    intro x hx
    cases hx
  | cons x rest ih =>
    rw [List.splitOnP_cons_eq_if_modifyHead] at h
    split at h
    · -- a separator starts a new part, which is empty so far
      cases List.mem_cons.mp h with
      | inl hempty =>
        rw [hempty]
        intro y hy
        cases hy
      | inr hrest => exact ih hrest
    · rename_i hx
      -- any other element goes in front of the first part
      obtain ⟨first, others, hsplit⟩ :=
        List.exists_cons_of_ne_nil (List.splitOnP_ne_nil sep rest)
      rw [hsplit] at ih
      rw [hsplit, List.modifyHead_cons] at h
      cases List.mem_cons.mp h with
      | inl hfirst =>
        rw [hfirst]
        intro y hy
        cases List.mem_cons.mp hy with
        | inl heq => simpa [heq] using hx
        | inr hin => exact ih List.mem_cons_self y hin
      | inr hothers => exact ih (List.mem_cons_of_mem first hothers)

/-- A word is not empty. -/
theorem ne_nil_of_mem_words {text word : List α} (h : word ∈ words sep text) : word ≠ [] := by
  have hkept := (List.mem_filter.mp h).2
  intro hempty
  rw [hempty] at hkept
  cases hkept

/-- A word holds no separator. -/
theorem notSep_of_mem_words {text word : List α} (h : word ∈ words sep text) :
    ∀ x ∈ word, sep x = false :=
  notSep_of_mem_splitOnP (List.mem_filter.mp h).1

/-! ### Words that are joined -/

/-- A word, a separator and a rest. -/
theorem words_append_cons {word : List α} (hne : word ≠ []) (hword : ∀ x ∈ word, sep x = false)
    {s : α} (hs : sep s = true) (rest : List α) :
    words sep (word ++ s :: rest) = word :: words sep rest := by
  unfold words
  rw [List.splitOnP_append_cons_of_forall_mem hword s hs rest]
  simp [hne]

/-- A text that is one word. -/
theorem words_singleton {word : List α} (hne : word ≠ []) (hword : ∀ x ∈ word, sep x = false) :
    words sep word = [word] := by
  unfold words
  rw [List.splitOnP_eq_singleton hword]
  simp [hne]

/-- Words that are joined by a separator are found again. -/
theorem words_intercalate {s : α} (hs : sep s = true) (ws : List (List α))
    (h : ∀ word ∈ ws, word ≠ [] ∧ ∀ x ∈ word, sep x = false) :
    words sep ([s].intercalate ws) = ws := by
  induction ws with
  | nil => rfl
  | cons word rest ih =>
    obtain ⟨hne, hword⟩ := h word List.mem_cons_self
    have hrest := ih fun w hw => h w (List.mem_cons_of_mem word hw)
    -- the separator follows every word but the last
    cases rest with
    | nil => rw [List.intercalate_singleton, words_singleton hne hword]
    | cons next more =>
      rw [List.intercalate_cons_cons, List.append_assoc, List.singleton_append,
        words_append_cons hne hword hs, hrest]

/-! ### Words under a map -/

/-- A map that makes no separator and hides none commutes with the split. -/
theorem splitOnP_map {f : α → α} (hf : ∀ x, sep (f x) = sep x) (text : List α) :
    (text.map f).splitOnP sep = (text.splitOnP sep).map (List.map f) := by
  induction text with
  | nil => rfl
  | cons x rest ih =>
    rw [List.map_cons, List.splitOnP_cons_eq_if_modifyHead, List.splitOnP_cons_eq_if_modifyHead,
      hf, ih]
    split
    · rfl
    · obtain ⟨first, others, hsplit⟩ :=
        List.exists_cons_of_ne_nil (List.splitOnP_ne_nil sep rest)
      rw [hsplit]
      rfl

/-- A map that makes no separator and hides none maps each word. -/
theorem words_map {f : α → α} (hf : ∀ x, sep (f x) = sep x) (text : List α) :
    words sep (text.map f) = (words sep text).map (List.map f) := by
  unfold words
  rw [splitOnP_map hf, List.filter_map]
  -- a mapped part is empty when the part is
  congr 1
  apply List.filter_congr
  intro part _
  cases part with
  | nil => rfl
  | cons x more => rfl

end GrafeoLoro.Lib
