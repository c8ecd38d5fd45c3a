import Mathlib.Data.Finmap

/-!
# `GrafeoLoro.Lib.Maps`: lookups in updated finite maps

Mathlib states the lookups of `Finmap` and `AList` after an update in two lemmas each, one
for the key that was written and one for the others. Here each update has one lookup lemma
with an `if`, tagged for `simp`. `filterEntries` keeps the entries of an `AList` that pass a
test, `mapValues` applies a function to every value, and `insertAll` and `insertEach` write a
list of entries into a `Finmap` and into an `AList`.

The module names nothing of the bridge.
-/

set_option autoImplicit false

namespace GrafeoLoro.Lib

section Finmap
variable {K V : Type} [DecidableEq K]

/-- Lookup after an insert. -/
@[simp] theorem finmap_lookup_insert (m : Finmap fun _ : K => V) (k k' : K) (v : V) :
    (m.insert k v).lookup k' = if k' = k then some v else m.lookup k' := by
  by_cases h : k' = k
  · subst h
    rw [if_pos rfl, Finmap.lookup_insert]
  · rw [if_neg h, Finmap.lookup_insert_of_ne m h]

/-- An insert of a key without an entry keeps the entries that are there. -/
theorem finmap_lookup_insert_of_none {m : Finmap fun _ : K => V} {k k' : K} {v v' : V}
    (hk : m.lookup k = none) (hk' : m.lookup k' = some v') :
    (m.insert k v).lookup k' = some v' := by
  have hne : k' ≠ k := fun heq => by
    rw [heq, hk] at hk'
    cases hk'
  rw [finmap_lookup_insert, if_neg hne, hk']

/-- Lookup after an erase. -/
@[simp] theorem finmap_lookup_erase (m : Finmap fun _ : K => V) (k k' : K) :
    (m.erase k).lookup k' = if k' = k then none else m.lookup k' := by
  by_cases h : k' = k
  · subst h
    rw [if_pos rfl, Finmap.lookup_erase]
  · rw [if_neg h, Finmap.lookup_erase_ne h]

/-- An erase of a key without an entry changes nothing. -/
theorem finmap_erase_of_none {m : Finmap fun _ : K => V} {k : K} (hk : m.lookup k = none) :
    m.erase k = m := by
  refine Finmap.ext_lookup fun k' => ?_
  rw [finmap_lookup_erase]
  split
  · rename_i heq
    rw [heq, hk]
  · rfl

/-- An insert makes an erase of its key before it superfluous. -/
theorem finmap_insert_erase (m : Finmap fun _ : K => V) (k : K) (v : V) :
    (m.erase k).insert k v = m.insert k v := by
  refine Finmap.ext_lookup fun k' => ?_
  rw [finmap_lookup_insert, finmap_lookup_insert, finmap_lookup_erase]
  split <;> rfl

/-- The keys after an insert. -/
theorem finmap_keys_insert (m : Finmap fun _ : K => V) (k : K) (v : V) :
    (m.insert k v).keys = insert k m.keys := by
  ext k'
  rw [Finmap.mem_keys, Finmap.mem_insert, Finset.mem_insert, Finmap.mem_keys]

/-- The keys after a write to an entry that is there. -/
theorem finmap_keys_insert_of_some {m : Finmap fun _ : K => V} {k : K} {v : V}
    (hk : m.lookup k = some v) (v' : V) : (m.insert k v').keys = m.keys := by
  rw [finmap_keys_insert, Finset.insert_eq_of_mem]
  exact Finmap.mem_keys.mpr (Finmap.mem_iff.mpr ⟨v, hk⟩)

/-- A loop that writes an entry under each key of a list adds these keys. -/
theorem mem_foldl_insert (f : (Finmap fun _ : K => V) → K → V) (l : List K)
    (m : Finmap fun _ : K => V) (k : K) :
    k ∈ l.foldl (fun m k' => m.insert k' (f m k')) m ↔ k ∈ m ∨ k ∈ l := by
  induction l generalizing m with
  | nil => simp
  | cons k' rest ih =>
    rw [List.foldl_cons, ih, Finmap.mem_insert, List.mem_cons]
    tauto

/-- The first entry of a list with distinct keys, looked up in the list and written before the
others. -/
theorem dlookup_cons_or {e : Σ _ : K, V} {rest : List (Σ _ : K, V)} (hnew : e.1 ∉ rest.keys)
    (k : K) (old : Option V) :
    (rest.dlookup k).or (if k = e.1 then some e.2 else old) = ((e :: rest).dlookup k).or old := by
  by_cases hk : k = e.1
  · subst hk
    rw [List.dlookup_eq_none.mpr hnew, List.dlookup_cons_eq, if_pos rfl]
    rfl
  · rw [List.dlookup_cons_ne _ _ hk, if_neg hk]

/-- Write the entries of a list into a map, in order. -/
def insertAll (m : Finmap fun _ : K => V) : List (Σ _ : K, V) → Finmap fun _ : K => V
  | [] => m
  | e :: rest => insertAll (m.insert e.1 e.2) rest

/-- A list with distinct keys, written into a map: its own entries win over the map. -/
theorem lookup_insertAll (l : List (Σ _ : K, V)) (hl : l.NodupKeys) :
    ∀ (m : Finmap fun _ : K => V) (k : K),
      (insertAll m l).lookup k = (l.dlookup k).or (m.lookup k) := by
  induction l with
  | nil => intro m k; rfl
  | cons e rest ih =>
    intro m k
    obtain ⟨hnew, hrest⟩ := List.nodupKeys_cons.mp hl
    rw [insertAll, ih hrest, finmap_lookup_insert, dlookup_cons_or hnew]

/-- A list written into a map: of two entries with one key the later one wins. -/
theorem lookup_insertAll_last (l : List (Σ _ : K, V)) :
    ∀ (m : Finmap fun _ : K => V) (k : K),
      (insertAll m l).lookup k = (l.reverse.dlookup k).or (m.lookup k) := by
  induction l with
  | nil => intro m k; rfl
  | cons e rest ih =>
    intro m k
    rw [insertAll, ih, List.reverse_cons, List.dlookup_append, Option.or_assoc,
      finmap_lookup_insert]
    by_cases hk : k = e.1
    · subst hk
      rw [if_pos rfl, List.dlookup_cons_eq]
      rfl
    · rw [if_neg hk, List.dlookup_cons_ne _ _ hk]
      rfl

end Finmap

section AList
variable {K V : Type} [DecidableEq K]

/-- Lookup after an insert. -/
@[simp] theorem alist_lookup_insert (m : AList fun _ : K => V) (k k' : K) (v : V) :
    (m.insert k v).lookup k' = if k' = k then some v else m.lookup k' := by
  by_cases h : k' = k
  · subst h
    rw [if_pos rfl, AList.lookup_insert]
  · rw [if_neg h, AList.lookup_insert_ne h]

/-- An insert of a key without an entry keeps the entries that are there. -/
theorem alist_lookup_insert_of_none {m : AList fun _ : K => V} {k k' : K} {v v' : V}
    (hk : m.lookup k = none) (hk' : m.lookup k' = some v') :
    (m.insert k v).lookup k' = some v' := by
  have hne : k' ≠ k := fun heq => by
    rw [heq, hk] at hk'
    cases hk'
  rw [alist_lookup_insert, if_neg hne, hk']

/-- Lookup after an erase. -/
@[simp] theorem alist_lookup_erase (m : AList fun _ : K => V) (k k' : K) :
    (m.erase k).lookup k' = if k' = k then none else m.lookup k' := by
  by_cases h : k' = k
  · subst h
    rw [if_pos rfl, AList.lookup_erase]
  · rw [if_neg h, AList.lookup_erase_ne h]

/-- The entries that pass the test `p`, in their order. -/
def filterEntries (p : (Σ _ : K, V) → Bool) (m : AList fun _ : K => V) :
    AList fun _ : K => V :=
  ⟨m.entries.filter p, m.nodupKeys.sublist List.filter_sublist⟩

/-- Lookup after a filter: the entry must be there and pass the test. -/
@[simp] theorem lookup_filterEntries (p : (Σ _ : K, V) → Bool) (m : AList fun _ : K => V)
    (k : K) :
    (filterEntries p m).lookup k = (m.lookup k).filter fun v => p ⟨k, v⟩ := by
  ext v
  rw [← Option.mem_def, ← Option.mem_def, AList.mem_lookup_iff, Option.mem_def,
    Option.filter_eq_some_iff, ← Option.mem_def, AList.mem_lookup_iff]
  exact List.mem_filter

/-- The map with `f` applied to every value. -/
def mapValues {W : Type} (f : V → W) (m : AList fun _ : K => V) : AList fun _ : K => W :=
  ⟨m.entries.map fun e => ⟨e.1, f e.2⟩, by
    have hkeys : (m.entries.map fun e => (⟨e.1, f e.2⟩ : Σ _ : K, W)).keys = m.entries.keys := by
      simp [List.keys, Function.comp_def]
    show List.Nodup _
    rw [hkeys]
    exact m.nodupKeys⟩

/-- Lookup after `mapValues`. -/
@[simp] theorem lookup_mapValues {W : Type} (f : V → W) (m : AList fun _ : K => V) (k : K) :
    (mapValues f m).lookup k = (m.lookup k).map f :=
  List.dlookup_map₂ (f := fun _ => f) k

/-- Write the entries of a list into an `AList`, in order. -/
def insertEach (m : AList fun _ : K => V) : List (Σ _ : K, V) → AList fun _ : K => V
  | [] => m
  | e :: rest => insertEach (m.insert e.1 e.2) rest

/-- A list with distinct keys, written into an `AList`: its own entries win over the map. -/
theorem lookup_insertEach (l : List (Σ _ : K, V)) (hl : l.NodupKeys) :
    ∀ (m : AList fun _ : K => V) (k : K),
      (insertEach m l).lookup k = (l.dlookup k).or (m.lookup k) := by
  induction l with
  | nil => intro m k; rfl
  | cons e rest ih =>
    intro m k
    obtain ⟨hnew, hrest⟩ := List.nodupKeys_cons.mp hl
    rw [insertEach, ih hrest, alist_lookup_insert, dlookup_cons_or hnew]

/-- Every entry of a finite map comes first in some order of iteration. -/
theorem exists_order_head {m : Finmap fun _ : K => V} {k : K} {v : V} (h : m.lookup k = some v) :
    ∃ (l : AList fun _ : K => V) (rest : List (Σ _ : K, V)),
      l.toFinmap = m ∧ l.entries = ⟨k, v⟩ :: rest := by
  induction m using Finmap.induction_on with | _ l =>
  refine ⟨l.insert k v, _, Finmap.ext_lookup fun k' => ?_, AList.entries_insert⟩
  rw [Finmap.lookup_toFinmap, alist_lookup_insert, Finmap.lookup_toFinmap]
  split
  · rename_i heq
    rw [heq, ← Finmap.lookup_toFinmap, h]
  · rfl

end AList

end GrafeoLoro.Lib
