import GrafeoLoro.Proofs.ColdBoot
import Mathlib.Data.List.Infix

/-!
# `GrafeoLoro.Proofs.GraphIsolation`: when two graphs share a storage

A graph owns its base key and its delta keys. `checkpoint` and `hydrate` take every key that
starts with the delta prefix of their graph for a delta of it, and the suffix of the key is not
looked at. A graph id can be any string.

* `isDeltaKey_of_belongs`: a key of another graph is taken for a delta exactly when the id of
  that graph starts with the delta prefix.
* `graphIsolation_iff`: so two graphs are isolated exactly when this is not so.
* `checkpoint_deletes_base`: a checkpoint of the graph `a` deletes the base snapshot of the graph
  `a/delta-x`.
-/

set_option autoImplicit false

namespace GrafeoLoro.Proofs

open GrafeoLoro GrafeoLoro.Lib

variable {Op : Type}

/-- The delta key of a graph for an epoch in digits. -/
def deltaKey (graphId epoch : String) : String :=
  deltaPrefix graphId ++ epoch ++ storageKeyDeltaSuffix

/-- The key belongs to the graph: it is its base key, or its delta key for some epoch. This is the
format that `src/constants.rs` documents. `IsDeltaKey` of `Proofs/ColdBoot.lean` is the prefix that
the code lists by, and a key of another graph can have it. -/
def BelongsTo (graphId key : String) : Prop :=
  key = baseKey graphId ∨
    ∃ epoch : String, epoch.toList.all Char.isDigit = true ∧ key = deltaKey graphId epoch

/-- The id of the second graph starts with the delta prefix of the first. -/
def IdUnderDeltas (g1 g2 : String) : Prop := (deltaPrefix g1).toList <+: g2.toList

/-- A checkpoint of the first graph leaves the keys of the second as they are. -/
def CheckpointIsolated (Op : Type) [DecidableEq Op] (g1 g2 : String) : Prop :=
  ∀ (faults : CheckpointFaults) (app : GrafeoLoroApp Op) (s s' : Storage Op),
    app.storage = some s → (app.checkpoint faults g1).2.storage = some s' →
    ∀ key, BelongsTo g2 key → s'.lookup key = s.lookup key

/-- What is under the keys of the second graph does not enter a `hydrate` of the first: not its
result, and not the document. -/
def HydrateIsolated (Op : Type) [DecidableEq Op] (g1 g2 : String) : Prop :=
  ∀ (faults : HydrateFaults) (app : GrafeoLoroApp Op) (s s' : Storage Op),
    (∀ key, ¬ BelongsTo g2 key → s.lookup key = s'.lookup key) →
    ({ app with storage := some s }.hydrate faults g1).1
        = ({ app with storage := some s' }.hydrate faults g1).1 ∧
      ({ app with storage := some s }.hydrate faults g1).2.loroDoc
        = ({ app with storage := some s' }.hydrate faults g1).2.loroDoc

/-! ### Keys -/

/-- A start that ends with a separator, where the separator is not in the second part. -/
theorem concat_prefix_of_notMem {α : Type} {x y z : List α} {c : α} (hc : c ∉ z)
    (h : x ++ [c] <+: y ++ z) : x ++ [c] <+: y := by
  induction z using List.reverseRecOn with
  | nil => simpa using h
  | append_singleton rest d ih =>
    simp only [List.mem_append, List.mem_singleton, not_or] at hc
    rw [← List.append_assoc, List.prefix_concat_iff] at h
    cases h with
    | inl heq => exact absurd (List.append_inj_right' heq rfl) (by simp [hc.2])
    | inr hrest => exact ih hc.1 hrest

/-- The delta prefix ends with its only hyphen. -/
theorem deltaPrefix_toList (g : String) :
    (deltaPrefix g).toList = (g.toList ++ "/delta".toList) ++ ['-'] := by
  simp [deltaPrefix, storageKeyDeltaPrefix]

/-- A key of another graph is taken for a delta exactly when the id starts with the delta
prefix. -/
theorem isDeltaKey_of_belongs {g1 g2 key : String} (hne : g1 ≠ g2) (hkey : BelongsTo g2 key) :
    IsDeltaKey g1 key ↔ IdUnderDeltas g1 g2 := by
  unfold IsDeltaKey IdUnderDeltas
  rw [List.isPrefixOf_iff_prefix]
  cases hkey with
  | inl hbase =>
    have htail : '-' ∉ "/base.loro".toList := by decide
    have hlist : key.toList = g2.toList ++ "/base.loro".toList := by
      simp [hbase, baseKey, storageKeyBaseLoro]
    rw [hlist, deltaPrefix_toList]
    exact ⟨concat_prefix_of_notMem htail, fun h => h.trans (List.prefix_append _ _)⟩
  | inr hdelta =>
    obtain ⟨epoch, hdigits, rfl⟩ := hdelta
    -- no hyphen in the epoch and the suffix, and the one of the prefix is at another place
    have hepoch : '-' ∉ epoch.toList := fun hmem => by
      have hdigit := List.all_eq_true.mp hdigits _ hmem
      revert hdigit
      decide
    have htail : '-' ∉ epoch.toList ++ ".loro".toList := by
      have hsuffix : '-' ∉ ".loro".toList := by decide
      simp only [List.mem_append, not_or]
      exact ⟨hepoch, hsuffix⟩
    have hmid : '-' ∉ "/delta".toList := by decide
    have hlist : (deltaKey g2 epoch).toList
        = (deltaPrefix g2).toList ++ (epoch.toList ++ ".loro".toList) := by
      simp [deltaKey, storageKeyDeltaSuffix]
    rw [hlist]
    constructor
    · intro h
      rw [deltaPrefix_toList] at h ⊢
      have hshort := concat_prefix_of_notMem htail h
      rw [deltaPrefix_toList, List.prefix_concat_iff] at hshort
      cases hshort with
      | inl heq =>
        have hids : g1.toList = g2.toList := by simpa using heq
        exact absurd (String.toList_inj.mp hids) hne
      | inr hrest => exact concat_prefix_of_notMem hmid hrest
    · intro h
      have hkey : g2.toList <+: (deltaPrefix g2).toList := by
        rw [deltaPrefix_toList, List.append_assoc]
        exact List.prefix_append _ _
      exact (h.trans hkey).trans (List.prefix_append _ _)

/-- The base key of a graph is no key of another one. -/
theorem baseKey_not_belongs {g1 g2 : String} (hne : g1 ≠ g2) : ¬ BelongsTo g2 (baseKey g1) := by
  intro hkey
  cases hkey with
  | inl hbase => exact hne (by simpa [baseKey] using hbase)
  | inr hdelta =>
    obtain ⟨epoch, hdigits, heq⟩ := hdelta
    have hlist : g1.toList ++ "/base".toList = (deltaPrefix g2).toList ++ epoch.toList := by
      have hfull := congrArg String.toList heq
      have hbase : (baseKey g1).toList = g1.toList ++ "/base".toList ++ ".loro".toList := by
        simp [baseKey, storageKeyBaseLoro]
      rw [hbase, deltaKey, String.toList_append, String.toList_append] at hfull
      exact List.append_cancel_right hfull
    -- the delta prefix ends within the id, so the last slash is in the epoch
    have hstart : (deltaPrefix g2).toList <+: g1.toList := by
      have htail : '-' ∉ "/base".toList := by decide
      rw [deltaPrefix_toList] at hlist ⊢
      exact concat_prefix_of_notMem htail (hlist ▸ List.prefix_append _ _)
    obtain ⟨rest, hrest⟩ := hstart
    rw [← hrest, List.append_assoc, List.append_cancel_left_eq] at hlist
    have hslash : '/' ∈ epoch.toList := by
      rw [← hlist]
      simp
    have hdigit := List.all_eq_true.mp hdigits _ hslash
    revert hdigit
    decide

/-! ### Checkpoint -/

/-- The storage steps of a checkpoint touch the base key and the keys that are taken for
deltas. -/
theorem lookup_saveSnapshot (faults : CheckpointFaults) (g key : String) (doc : Finset Op)
    (s : Storage Op) (hbase : key ≠ baseKey g) (hdelta : ¬ IsDeltaKey g key) :
    (saveSnapshot faults g doc s).2.lookup key = s.lookup key := by
  unfold saveSnapshot
  split
  · rfl
  · cases hsave : faults.save with
    | true => simp [Storage.save]
    | false =>
      cases hlist : faults.list with
      | true => simp [Storage.save, Storage.list, hbase]
      | false =>
        have hnot : key ∉ (s.insert (baseKey g) (.wire doc)).keys.filter
            fun key => (deltaPrefix g).toList.isPrefixOf key.toList :=
          fun hmem => hdelta (List.mem_filter.mp hmem).2
        simp only [Storage.save, Storage.list, Bool.false_eq_true, if_false]
        rw [lookup_deleteDeltas, if_neg (fun h => hnot h.1), alist_lookup_insert, if_neg hbase]

/-- The storage steps of a checkpoint without faults delete every key that is taken for a
delta. -/
theorem lookup_saveSnapshot_delta {g key : String} (doc : Finset Op) (s : Storage Op)
    (hdelta : IsDeltaKey g key) :
    (saveSnapshot noCheckpointFaults g doc s).2.lookup key = none := by
  have hmem : ∀ {t : Storage Op}, key ∉ t.keys.filter
      (fun key => (deltaPrefix g).toList.isPrefixOf key.toList) → key ∉ t.keys :=
    fun hnot hkey => hnot (List.mem_filter.mpr ⟨hkey, hdelta⟩)
  simp only [saveSnapshot, noCheckpointFaults, Storage.save, Storage.list, Bool.false_eq_true,
    if_false, lookup_deleteDeltas]
  split
  · rfl
  · rename_i hnot
    exact AList.lookup_eq_none.mpr (hmem fun hkey => hnot ⟨hkey, trivial⟩)

/-- The storage after a checkpoint in Loro mode. -/
theorem checkpoint_loro (faults : CheckpointFaults) (g : String) (s : Storage Op)
    (doc : Finset Op) :
    (GrafeoLoroApp.checkpoint faults g ⟨.loro, some s, doc⟩).2.storage
      = some (saveSnapshot faults g doc s).2 := rfl

/-- A checkpoint leaves the keys of another graph alone exactly when its id does not start with
the delta prefix. -/
theorem checkpointIsolated_iff [DecidableEq Op] {g1 g2 : String} (hne : g1 ≠ g2) :
    CheckpointIsolated Op g1 g2 ↔ ¬ IdUnderDeltas g1 g2 := by
  constructor
  · intro hiso hunder
    -- the base of the second graph is gone
    have hbelongs : BelongsTo g2 (baseKey g2) := .inl rfl
    have hdelta := (isDeltaKey_of_belongs hne hbelongs).mpr hunder
    let s : Storage Op := AList.insert (baseKey g2) .empty ∅
    have hkept := hiso noCheckpointFaults ⟨.loro, some s, ∅⟩ s _ rfl (checkpoint_loro _ _ s ∅)
      (baseKey g2) hbelongs
    rw [lookup_saveSnapshot_delta ∅ s hdelta, AList.lookup_insert] at hkept
    cases hkept
  · intro hunder faults app s s' hs hs' key hkey
    have hbase : key ≠ baseKey g1 := fun heq => baseKey_not_belongs hne (heq ▸ hkey)
    have hdelta : ¬ IsDeltaKey g1 key := fun h =>
      hunder ((isDeltaKey_of_belongs hne hkey).mp h)
    obtain ⟨mode, storage, doc⟩ := app
    obtain rfl : storage = some s := hs
    cases mode with
    | grafeo =>
      obtain rfl := Option.some.inj hs'
      rfl
    | loro =>
      obtain rfl := Option.some.inj hs'
      exact lookup_saveSnapshot faults g1 key doc s hbase hdelta

/-! ### Hydrate -/

/-- The loop over the delta keys reads the storage at these keys. -/
theorem importDeltas_congr [DecidableEq Op] (fails : String → Bool) {s s' : Storage Op} (keys : List String)
    (h : ∀ key ∈ keys, s.lookup key = s'.lookup key) (doc : Finset Op) :
    importDeltas fails s keys doc = importDeltas fails s' keys doc := by
  induction keys generalizing doc with
  | nil => rfl
  | cons key rest ih =>
    have hload : s.load (fails key) key = s'.load (fails key) key := by
      simp [Storage.load, h key List.mem_cons_self]
    have hrest := ih fun k hk => h k (List.mem_cons_of_mem _ hk)
    simp only [importDeltas, hload, hrest]

/-- The sorted keys that a listing returns depend on which of the listed keys there are. -/
theorem sorted_list_congr {s s' : Storage Op} {g : String}
    (h : ∀ key, IsDeltaKey g key → s.lookup key = s'.lookup key) :
    (s.keys.filter fun key => (deltaPrefix g).toList.isPrefixOf key.toList).mergeSort (· ≤ ·)
      = (s'.keys.filter fun key => (deltaPrefix g).toList.isPrefixOf key.toList).mergeSort
          (· ≤ ·) := by
  have hpart : ∀ key, key ∈ s.keys.filter (fun key => (deltaPrefix g).toList.isPrefixOf key.toList)
      ↔ key ∈ s'.keys.filter (fun key => (deltaPrefix g).toList.isPrefixOf key.toList) := by
    intro key
    simp only [List.mem_filter]
    refine and_congr_left fun hkey => ?_
    rw [← not_iff_not, ← AList.mem_keys, ← AList.mem_keys, ← AList.lookup_eq_none,
      ← AList.lookup_eq_none, h key hkey]
  have hperm := (List.perm_ext_iff_of_nodup (s.keys_nodup.filter _) (s'.keys_nodup.filter _)).mpr
    hpart
  have hsorts := ((List.mergeSort_perm _ (· ≤ ·)).trans hperm).trans
    (List.mergeSort_perm _ (· ≤ ·)).symm
  have hsorted (l : List String) : (l.mergeSort (· ≤ ·)).Pairwise (· ≤ ·) := by
    have htrans : ∀ a b c : String, decide (a ≤ b) → decide (b ≤ c) → decide (a ≤ c) := by
      simp only [decide_eq_true_eq]
      exact fun a b c => String.le_trans
    have htotal : ∀ a b : String, (decide (a ≤ b) || decide (b ≤ a)) = true := by
      simpa using String.le_total
    exact (List.pairwise_mergeSort htrans htotal l).imp of_decide_eq_true
  exact hsorts.eq_of_pairwise (fun _ _ _ _ => String.le_antisymm) (hsorted _) (hsorted _)

/-- The import steps of `hydrate` read the storage at the base key and at the keys that are taken
for deltas. -/
theorem importStored_congr [DecidableEq Op] (faults : HydrateFaults) {g : String}
    {s s' : Storage Op}
    (hbase : s.lookup (baseKey g) = s'.lookup (baseKey g))
    (hdelta : ∀ key, IsDeltaKey g key → s.lookup key = s'.lookup key) (doc : Finset Op) :
    importStored faults g s doc = importStored faults g s' doc := by
  have hload : s.load faults.loadBase (baseKey g) = s'.load faults.loadBase (baseKey g) := by
    simp [Storage.load, hbase]
  have hdeltas : ∀ doc, importDeltas faults.loadDelta s
        ((s.keys.filter fun key => (deltaPrefix g).toList.isPrefixOf key.toList).mergeSort
          (· ≤ ·)) doc
      = importDeltas faults.loadDelta s'
        ((s'.keys.filter fun key => (deltaPrefix g).toList.isPrefixOf key.toList).mergeSort
          (· ≤ ·)) doc := by
    intro doc
    rw [← sorted_list_congr hdelta]
    refine importDeltas_congr _ _ (fun key hkey => hdelta key ?_) doc
    exact (List.mem_filter.mp (List.mem_mergeSort.mp hkey)).2
  cases hlist : faults.list with
  | true => simp [importStored, hload, hlist, Storage.list]
  | false => simp [importStored, hload, hlist, Storage.list, hdeltas]

/-- Without faults, the ops under a key that is taken for a delta come into the document. -/
theorem importStored_delta [DecidableEq Op] {g key : String} (hdelta : IsDeltaKey g key)
    (ops : Finset Op) :
    importStored (deltaFaults false) g
      (AList.insert (baseKey g) (.wire ∅) (AList.insert key (.wire ops) ∅)) ∅ = (.ok (), ops) := by
  have hkey : key ≠ baseKey g := fun heq => not_isDeltaKey_baseKey g (heq ▸ hdelta)
  have hbase : (deltaPrefix g).toList.isPrefixOf (baseKey g).toList = false := by
    exact Bool.eq_false_of_not_eq_true (not_isDeltaKey_baseKey g)
  have hlist : (deltaPrefix g).toList.isPrefixOf key.toList = true := hdelta
  simp [importStored, deltaFaults, Storage.load, Storage.list, Blob.isEmpty, decompressFromWire,
    importDeltas, AList.keys_insert, -AList.insert_empty, hkey, hbase, hlist]

/-- The keys of another graph do not enter a hydrate exactly when its id does not start with the
delta prefix. -/
theorem hydrateIsolated_iff [DecidableEq Op] [Nonempty Op] {g1 g2 : String} (hne : g1 ≠ g2) :
    HydrateIsolated Op g1 g2 ↔ ¬ IdUnderDeltas g1 g2 := by
  constructor
  · intro hiso hunder
    -- the base of the second graph comes into the document of the first
    have hbelongs : BelongsTo g2 (baseKey g2) := .inl rfl
    have hdelta := (isDeltaKey_of_belongs hne hbelongs).mpr hunder
    obtain ⟨op⟩ := ‹Nonempty Op›
    let s (ops : Finset Op) : Storage Op :=
      AList.insert (baseKey g1) (.wire ∅) (AList.insert (baseKey g2) (.wire ops) ∅)
    have hsame : ∀ key, ¬ BelongsTo g2 key → (s {op}).lookup key = (s ∅).lookup key := by
      intro key hnot
      have hkey : key ≠ baseKey g2 := fun heq => hnot (.inl heq)
      simp [s, -AList.insert_empty, hkey]
    have hdocs := (hiso (deltaFaults false) ⟨.loro, none, ∅⟩ (s {op}) (s ∅) hsame).2
    simp only [GrafeoLoroApp.hydrate, s, importStored_delta hdelta] at hdocs
    exact Finset.singleton_ne_empty op hdocs
  · intro hunder faults app s s' hsame
    have hbase := hsame (baseKey g1) (baseKey_not_belongs hne)
    have hdelta : ∀ key, IsDeltaKey g1 key → s.lookup key = s'.lookup key :=
      fun key hkey => hsame key fun hbelongs =>
        hunder ((isDeltaKey_of_belongs hne hbelongs).mp hkey)
    have hstored := importStored_congr faults hbase hdelta app.loroDoc
    cases hmode : app.ssotMode with
    | grafeo => simp [GrafeoLoroApp.hydrate]
    | loro =>
      simp only [GrafeoLoroApp.hydrate, hstored]
      cases importStored faults g1 s' app.loroDoc with
      | mk result doc =>
        cases result with
        | error e => exact ⟨rfl, rfl⟩
        | ok u => exact ⟨rfl, rfl⟩

/-! ### Two graphs -/

/-- Two different graphs are isolated, in a checkpoint and in a hydrate of the first, exactly when
the id of the second does not start with the delta prefix of the first. -/
theorem graphIsolation_iff [DecidableEq Op] [Nonempty Op] (g1 g2 : String) (hne : g1 ≠ g2) :
    CheckpointIsolated Op g1 g2 ∧ HydrateIsolated Op g1 g2 ↔ ¬ IdUnderDeltas g1 g2 := by
  rw [checkpointIsolated_iff hne, hydrateIsolated_iff hne, and_self]

/-- Ids that are names without a slash. -/
theorem graphIsolation_iff_names :
    CheckpointIsolated Nat "graph_1" "graph_2" ∧ HydrateIsolated Nat "graph_1" "graph_2" := by
  refine (graphIsolation_iff "graph_1" "graph_2" (by decide)).mpr ?_
  unfold IdUnderDeltas
  decide

/-- A checkpoint of the graph `a` deletes the base snapshot of the graph `a/delta-x`, and a
hydrate of the graph `a` imports it. -/
theorem checkpoint_deletes_base :
    ¬ CheckpointIsolated Nat "a" "a/delta-x" ∧ ¬ HydrateIsolated Nat "a" "a/delta-x" := by
  have hne : "a" ≠ "a/delta-x" := by decide
  have hunder : IdUnderDeltas "a" "a/delta-x" := by
    unfold IdUnderDeltas
    decide
  exact ⟨fun h => (checkpointIsolated_iff hne).mp h hunder,
    fun h => (hydrateIsolated_iff hne).mp h hunder⟩

end GrafeoLoro.Proofs
