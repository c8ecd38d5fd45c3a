import GrafeoLoro.App
import GrafeoLoro.Lib.Maps

/-!
# `GrafeoLoro.Proofs.ColdBoot`: which stored ops survive `hydrate` and `checkpoint`

`Stored g s op` says that the op is in the base snapshot or in a delta of the graph `g`. A
successful `hydrate` imports the base and the deltas that it could load, and it skips all
deltas when there is no base (`mem_importStored`). A `checkpoint` that gets to its last step
saves the document as the base and deletes every delta it can delete, a skipped one too
(`stored_saveSnapshot`).

* `retains_iff`: so an op is lost exactly when the last step is reached and the op is in a
  skipped delta and nowhere else.
* `skipped_delta_is_deleted`: a delta whose load failed once is lost.
-/

set_option autoImplicit false

namespace GrafeoLoro.Proofs

open GrafeoLoro GrafeoLoro.Lib

variable {Op : Type}

/-- The key starts with the delta prefix of the graph. These are the keys that `hydrate` and
`checkpoint` list and take for its deltas, whatever follows the prefix. `BelongsTo` of
`Proofs/GraphIsolation.lean` is the documented format instead, which the code never checks. -/
def IsDeltaKey (graphId key : String) : Prop :=
  (deltaPrefix graphId).toList.isPrefixOf key.toList = true

/-- The ops under a key. -/
def opsAt (s : Storage Op) (key : String) : Finset Op :=
  match s.lookup key with
  | some blob => blob.ops
  | none => ∅

/-- The op is in the base snapshot or in a delta of the graph. -/
def Stored (graphId : String) (s : Storage Op) (op : Op) : Prop :=
  op ∈ opsAt s (baseKey graphId) ∨ ∃ key, IsDeltaKey graphId key ∧ op ∈ opsAt s key

/-- The base snapshot of the graph is absent or has no bytes. -/
def BaseMissing (graphId : String) (s : Storage Op) : Prop :=
  ∀ blob, s.lookup (baseKey graphId) = some blob → blob.isEmpty

/-- `hydrate` does not import this delta. -/
def Skipped (faults : HydrateFaults) (graphId : String) (s : Storage Op) (key : String) : Prop :=
  IsDeltaKey graphId key ∧ (BaseMissing graphId s ∨ faults.loadDelta key = true)

/-! ### Keys -/

/-- The base key is not a delta key. -/
theorem not_isDeltaKey_baseKey (graphId : String) : ¬ IsDeltaKey graphId (baseKey graphId) := by
  unfold IsDeltaKey deltaPrefix baseKey
  rw [List.isPrefixOf_iff_prefix]
  simp only [String.toList_append]
  rw [List.prefix_append_right_inj]
  decide

/-- A key without a blob has no ops. -/
theorem opsAt_of_notMem {s : Storage Op} {key : String} (h : key ∉ s.keys) :
    opsAt s key = ∅ := by
  unfold opsAt
  rw [AList.lookup_eq_none.mpr h]

/-- The keys that `list` returns. -/
theorem mem_list {s : Storage Op} {graphId : String} {keys : List String}
    (h : s.list false (deltaPrefix graphId) = .ok keys) (key : String) :
    key ∈ keys ↔ key ∈ s.keys ∧ IsDeltaKey graphId key := by
  obtain rfl : _ = keys := Except.ok.inj h
  exact List.mem_filter

/-! ### Hydrate -/

section
variable [DecidableEq Op]

/-- A successful loop over delta keys imports the ops of those that it could load. -/
theorem mem_importDeltas {fails : String → Bool} {s : Storage Op} (keys : List String) :
    ∀ doc doc' : Finset Op, importDeltas fails s keys doc = (.ok (), doc') →
      ∀ op, op ∈ doc' ↔ op ∈ doc ∨ ∃ key ∈ keys, fails key = false ∧ op ∈ opsAt s key := by
  induction keys with
  | nil =>
    intro doc doc' h op
    obtain rfl := (Prod.mk.inj h).2
    simp
  | cons key rest ih =>
    intro doc doc' h op
    rw [importDeltas] at h
    by_cases hf : fails key = true
    · have hload : s.load (fails key) key = .error .other := by
        rw [hf]
        rfl
      rw [hload] at h
      rw [ih doc doc' h op]
      simp [hf]
    · have hf' : fails key = false := by simpa using hf
      cases hblob : s.lookup key with
      | none =>
        have hload : s.load (fails key) key = .error .notFound := by
          simp [Storage.load, hf', hblob]
        rw [hload] at h
        rw [ih doc doc' h op]
        simp [opsAt, hblob]
      | some blob =>
        have hload : s.load (fails key) key = .ok blob := by
          simp [Storage.load, hf', hblob]
        rw [hload] at h
        cases blob with
        | empty => cases (Prod.mk.inj h).1
        | rejected e => cases (Prod.mk.inj h).1
        | wire ops =>
          have hrest : importDeltas fails s rest (doc ∪ ops) = (.ok (), doc') := h
          have hops : opsAt s key = ops := by simp [opsAt, hblob, Blob.ops]
          rw [ih (doc ∪ ops) doc' hrest op, Finset.mem_union]
          simp [hf', hops, or_assoc]

/-- The import steps succeed in two ways: there is no base, and the document stays, or the base
is imported and then the listed deltas. -/
theorem importStored_ok_cases {faults : HydrateFaults} {graphId : String} {s : Storage Op}
    {doc doc' : Finset Op} (h : importStored faults graphId s doc = (.ok (), doc')) :
    (BaseMissing graphId s ∧ opsAt s (baseKey graphId) = ∅ ∧ doc' = doc) ∨
      ∃ ops keys, s.lookup (baseKey graphId) = some (.wire ops) ∧
        s.list false (deltaPrefix graphId) = .ok keys ∧
        importDeltas faults.loadDelta s (keys.mergeSort (· ≤ ·)) (doc ∪ ops)
          = (.ok (), doc') := by
  unfold importStored at h
  cases hbase : faults.loadBase with
  | true =>
    rw [hbase] at h
    cases (Prod.mk.inj h).1
  | false =>
    rw [hbase] at h
    unfold BaseMissing opsAt
    cases hlook : s.lookup (baseKey graphId) with
    | none =>
      have hload : s.load false (baseKey graphId) = .error .notFound := by
        simp [Storage.load, hlook]
      rw [hload] at h
      exact .inl ⟨nofun, rfl, (Prod.mk.inj h).2.symm⟩
    | some blob =>
      have hload : s.load false (baseKey graphId) = .ok blob := by
        simp [Storage.load, hlook]
      rw [hload] at h
      cases blob with
      | rejected e => cases (Prod.mk.inj h).1
      | empty =>
        have hempty : ∀ blob : Blob Op, some .empty = some blob → blob.isEmpty := by
          rintro blob ⟨⟩
          rfl
        exact .inl ⟨hempty, rfl, (Prod.mk.inj h).2.symm⟩
      | wire ops =>
        cases hlist : faults.list with
        | true =>
          rw [hlist] at h
          cases (Prod.mk.inj h).1
        | false =>
          rw [hlist] at h
          exact .inr ⟨ops, _, rfl, rfl, h⟩

/-- After the import steps succeeded, the document has its own ops, those of the base, and
those of the deltas that were not skipped. -/
theorem mem_importStored {faults : HydrateFaults} {graphId : String} {s : Storage Op}
    {doc doc' : Finset Op} (h : importStored faults graphId s doc = (.ok (), doc')) (op : Op) :
    op ∈ doc' ↔ op ∈ doc ∨ op ∈ opsAt s (baseKey graphId) ∨
      ∃ key, IsDeltaKey graphId key ∧ ¬ Skipped faults graphId s key ∧ op ∈ opsAt s key := by
  obtain ⟨hmissing, hops, rfl⟩ | ⟨ops, keys, hlook, hlist, himport⟩ := importStored_ok_cases h
  · -- without a base nothing is imported, and every delta is skipped
    rw [hops]
    constructor
    · exact fun hop => .inl hop
    · rintro (hop | hop | ⟨key, hkey, hnot, -⟩)
      · exact hop
      · exact absurd hop (Finset.notMem_empty op)
      · exact absurd ⟨hkey, .inl hmissing⟩ hnot
  · have hops : opsAt s (baseKey graphId) = ops := by simp [opsAt, hlook, Blob.ops]
    have hpresent : ¬ BaseMissing graphId s := fun hm => by
      have hempty := hm (.wire ops) hlook
      cases hempty
    have hskip : ∀ key, IsDeltaKey graphId key →
        (¬ Skipped faults graphId s key ↔ faults.loadDelta key = false) := by
      intro key hkey
      simp [Skipped, hkey, hpresent]
    rw [mem_importDeltas _ _ _ himport op, Finset.mem_union, hops, or_assoc]
    refine or_congr_right (or_congr_right (exists_congr fun key => ?_))
    rw [List.mem_mergeSort, mem_list hlist]
    constructor
    · rintro ⟨⟨-, hkey⟩, hload, hop⟩
      exact ⟨hkey, (hskip key hkey).mpr hload, hop⟩
    · rintro ⟨hkey, hnot, hop⟩
      refine ⟨⟨?_, hkey⟩, (hskip key hkey).mp hnot, hop⟩
      -- a key that is not listed has no ops
      by_contra hmem
      rw [opsAt_of_notMem hmem] at hop
      exact absurd hop (Finset.notMem_empty op)

end

/-! ### Checkpoint -/

/-- The deletion loop leaves a key alone unless it is one of the keys and can be deleted. -/
theorem lookup_deleteDeltas (fails : String → Bool) (keys : List String) :
    ∀ (s : Storage Op) (key : String), (deleteDeltas fails keys s).lookup key
      = if key ∈ keys ∧ fails key = false then none else s.lookup key := by
  induction keys with
  | nil =>
    intro s key
    simp [deleteDeltas]
  | cons k rest ih =>
    intro s key
    rw [deleteDeltas, ih]
    cases hf : fails k with
    | true =>
      -- a failed deletion changes nothing
      show (if _ then none else s.lookup key) = _
      by_cases hk : key = k
      · subst hk
        simp [hf]
      · simp [hk]
    | false =>
      show (if _ then none else (s.erase k).lookup key) = _
      rw [alist_lookup_erase]
      by_cases hk : key = k
      · subst hk
        simp [hf]
      · simp [hk]

/-- The deletions of a checkpoint are reached: the export, the save and the listing succeed. -/
def ReachesDeletions (faults : CheckpointFaults) : Prop :=
  faults.snapshot = false ∧ faults.save = false ∧ faults.list = false

/-- After the deletions, the graph has the ops of the document and of the deltas that could not
be deleted. -/
theorem stored_saveSnapshot {faults : CheckpointFaults} (hreach : ReachesDeletions faults)
    (graphId : String) (doc : Finset Op) (s : Storage Op) (op : Op) :
    Stored graphId (saveSnapshot faults graphId doc s).2 op ↔
      op ∈ doc ∨ ∃ key, IsDeltaKey graphId key ∧ faults.delete key = true ∧ op ∈ opsAt s key := by
  obtain ⟨hsnapshot, hsave, hlist⟩ := hreach
  let saved : Storage Op := s.insert (baseKey graphId) (.wire doc)
  let keys := saved.keys.filter fun key => (deltaPrefix graphId).toList.isPrefixOf key.toList
  have hres : (saveSnapshot faults graphId doc s).2 = deleteDeltas faults.delete keys saved := by
    unfold saveSnapshot Storage.save
    rw [hsnapshot, hsave, hlist]
    rfl
  have hkeys : ∀ key, key ∈ keys ↔ key ∈ saved.keys ∧ IsDeltaKey graphId key :=
    fun key => List.mem_filter
  have hlook := lookup_deleteDeltas faults.delete keys saved
  rw [hres]
  unfold Stored
  -- the base is not a delta, so the deletions leave it alone
  have hbase : opsAt (deleteDeltas faults.delete keys saved) (baseKey graphId) = doc := by
    have hnot : baseKey graphId ∉ keys :=
      fun hmem => not_isDeltaKey_baseKey graphId ((hkeys _).mp hmem).2
    unfold opsAt
    rw [hlook, if_neg fun hand => hnot hand.1, AList.lookup_insert]
    rfl
  have hdelta : ∀ key, IsDeltaKey graphId key →
      (op ∈ opsAt (deleteDeltas faults.delete keys saved) key ↔
        faults.delete key = true ∧ op ∈ opsAt s key) := by
    intro key hkey
    have hne : key ≠ baseKey graphId := fun h => not_isDeltaKey_baseKey graphId (h ▸ hkey)
    have hsaved : saved.lookup key = s.lookup key := AList.lookup_insert_ne hne
    unfold opsAt
    rw [hlook, hsaved]
    cases hdel : faults.delete key with
    | true => simp
    | false =>
      by_cases hmem : key ∈ keys
      · simp [hmem]
      · -- a delta key that is not listed has no blob
        have habsent : key ∉ saved.keys := fun h => hmem ((hkeys key).mpr ⟨h, hkey⟩)
        have hnone : s.lookup key = none := by
          rw [← hsaved]
          exact AList.lookup_eq_none.mpr habsent
        simp [hnone]
  rw [hbase]
  constructor
  · rintro (hop | ⟨key, hkey, hop⟩)
    · exact .inl hop
    · exact .inr ⟨key, hkey, (hdelta key hkey).mp hop⟩
  · rintro (hop | ⟨key, hkey, hop⟩)
    · exact .inl hop
    · exact .inr ⟨key, hkey, (hdelta key hkey).mpr hop⟩

/-- A checkpoint that ends before the deletions loses no op that the document or a delta has:
the storage is as before, or only the base is new. -/
theorem stored_saveSnapshot_early {faults : CheckpointFaults} (hearly : ¬ ReachesDeletions faults)
    (graphId : String) {doc : Finset Op} {s : Storage Op}
    (hbase : ∀ op ∈ opsAt s (baseKey graphId), op ∈ doc) {op : Op} (hop : Stored graphId s op) :
    Stored graphId (saveSnapshot faults graphId doc s).2 op := by
  unfold saveSnapshot Storage.save
  cases hsnapshot : faults.snapshot with
  | true => exact hop
  | false =>
    cases hsave : faults.save with
    | true => exact hop
    | false =>
      cases hlist : faults.list with
      | false => exact absurd ⟨hsnapshot, hsave, hlist⟩ hearly
      | true =>
        show Stored graphId (s.insert (baseKey graphId) (.wire doc)) op
        have hnew : opsAt (s.insert (baseKey graphId) (.wire doc)) (baseKey graphId) = doc := by
          unfold opsAt
          rw [AList.lookup_insert]
          rfl
        cases hop with
        | inl hop =>
          refine .inl ?_
          rw [hnew]
          exact hbase op hop
        | inr hop =>
          obtain ⟨key, hkey, hop⟩ := hop
          have hne : key ≠ baseKey graphId := fun h => not_isDeltaKey_baseKey graphId (h ▸ hkey)
          refine .inr ⟨key, hkey, ?_⟩
          unfold opsAt
          rw [AList.lookup_insert_ne hne]
          exact hop

/-! ### Hydrate, edit, checkpoint -/

variable [DecidableEq Op]

/-- What a successful `hydrate` did: the mode is Loro, and the import steps succeeded. -/
theorem hydrate_ok {faults : HydrateFaults} {graphId : String} {app app' : GrafeoLoroApp Op}
    {s : Storage Op} (hs : app.storage = some s)
    (h : app.hydrate faults graphId = (.ok (), app')) :
    ∃ doc', importStored faults graphId s app.loroDoc = (.ok (), doc') ∧
      app' = ⟨.loro, some s, doc'⟩ := by
  obtain ⟨mode, storage, doc⟩ := app
  obtain rfl : storage = some s := hs
  unfold GrafeoLoroApp.hydrate at h
  cases mode with
  | grafeo => cases (Prod.mk.inj h).1
  | loro =>
    cases himport : importStored faults graphId s doc with
    | mk res doc' =>
      simp only [himport] at h
      cases res with
      | error e => cases (Prod.mk.inj h).1
      | ok u => exact ⟨doc', rfl, (Prod.mk.inj h).2.symm⟩

/-- The op is in the base snapshot or in a delta of the graph, in the storage of the app. -/
def AppStores (graphId : String) (app : GrafeoLoroApp Op) (op : Op) : Prop :=
  ∃ s, app.storage = some s ∧ Stored graphId s op

/-- Every op that the storage of `before` has for the graph is one that the storage of `after`
has. -/
def Retains (graphId : String) (before after : GrafeoLoroApp Op) : Prop :=
  ∀ op, AppStores graphId before op → AppStores graphId after op

/-- The op is somewhere where a checkpoint does not lose it: in the document before, in the
base, in a delta that is imported, in the local edits, or in a delta that cannot be deleted. -/
def Safe (hf : HydrateFaults) (cf : CheckpointFaults) (graphId : String)
    (doc edits : Finset Op) (s : Storage Op) (op : Op) : Prop :=
  op ∈ doc ∨ op ∈ opsAt s (baseKey graphId) ∨
    (∃ key, IsDeltaKey graphId key ∧ ¬ Skipped hf graphId s key ∧ op ∈ opsAt s key) ∨
    op ∈ edits ∨ ∃ key, IsDeltaKey graphId key ∧ cf.delete key = true ∧ op ∈ opsAt s key

/-- When the deletions are reached, the graph has the safe ops afterwards and no others. -/
theorem stored_iff_safe {hf : HydrateFaults} {cf : CheckpointFaults}
    (hreach : ReachesDeletions cf) {graphId : String} {s : Storage Op} {doc doc' : Finset Op}
    (edits : Finset Op) (himport : importStored hf graphId s doc = (.ok (), doc')) (op : Op) :
    Stored graphId (saveSnapshot cf graphId (doc' ∪ edits) s).2 op ↔
      Safe hf cf graphId doc edits s op := by
  rw [stored_saveSnapshot hreach, Finset.mem_union, mem_importStored himport]
  unfold Safe
  simp only [or_assoc]

omit [DecidableEq Op] in
/-- A stored op that is not safe is in a skipped delta. -/
theorem safe_of_stored {hf : HydrateFaults} {cf : CheckpointFaults} {graphId : String}
    {doc edits : Finset Op} {s : Storage Op}
    (hskipped : ∀ key, Skipped hf graphId s key → ∀ op ∈ opsAt s key,
      Safe hf cf graphId doc edits s op) {op : Op} (hop : Stored graphId s op) :
    Safe hf cf graphId doc edits s op := by
  cases hop with
  | inl hbase => exact .inr (.inl hbase)
  | inr hdelta =>
    obtain ⟨key, hkey, hop⟩ := hdelta
    by_cases hskip : Skipped hf graphId s key
    · exact hskipped key hskip op hop
    · exact .inr (.inr (.inl ⟨key, hkey, hskip, hop⟩))

/-- A successful `hydrate`, local edits and a `checkpoint` lose no stored op of the graph
exactly when the checkpoint ends before its deletions or every op of a skipped delta is safe. -/
theorem retains_iff (hf : HydrateFaults) (cf : CheckpointFaults) (graphId : String)
    (app app' : GrafeoLoroApp Op) (edits : Finset Op) (s : Storage Op)
    (hs : app.storage = some s) (hok : app.hydrate hf graphId = (.ok (), app')) :
    Retains graphId app ((app'.edit edits).checkpoint cf graphId).2 ↔
    ¬ ReachesDeletions cf ∨
      ∀ key, Skipped hf graphId s key → ∀ op ∈ opsAt s key,
        Safe hf cf graphId app.loroDoc edits s op := by
  obtain ⟨doc', himport, rfl⟩ := hydrate_ok hs hok
  have hbefore : ∀ op, AppStores graphId app op ↔ Stored graphId s op := by
    intro op
    simp [AppStores, hs]
  have hafter : ∀ op, AppStores graphId (((⟨.loro, some s, doc'⟩ : GrafeoLoroApp Op).edit
      edits).checkpoint cf graphId).2 op ↔
        Stored graphId (saveSnapshot cf graphId (doc' ∪ edits) s).2 op := by
    intro op
    simp [AppStores, GrafeoLoroApp.checkpoint, GrafeoLoroApp.edit]
  simp only [Retains, hbefore, hafter]
  by_cases hreach : ReachesDeletions cf
  · simp only [stored_iff_safe hreach edits himport]
    constructor
    · intro hall
      exact .inr fun key hskip op hop => hall op (.inr ⟨key, hskip.1, hop⟩)
    · rintro (hnot | hskipped) op hop
      · exact absurd hreach hnot
      · exact safe_of_stored hskipped hop
  · have hbase : ∀ op ∈ opsAt s (baseKey graphId), op ∈ doc' ∪ edits := fun op hop =>
      Finset.mem_union_left _ ((mem_importStored himport op).mpr (.inr (.inl hop)))
    constructor
    · exact fun _ => .inl hreach
    · exact fun _ op hop => stored_saveSnapshot_early hreach graphId hbase hop

/-- A graph `g` with the op 1 in its base and the op 2 in a delta. -/
def baseAndDelta : Storage Nat :=
  (AList.singleton "g/delta-1" (.wire {2})).insert "g/base.loro" (.wire {1})

/-- The load of every delta fails or none does, and no other call fails. -/
def deltaFaults (fails : Bool) : HydrateFaults := ⟨false, false, fun _ => fails, .ok ()⟩

/-- No call of the `checkpoint` fails. -/
def noCheckpointFaults : CheckpointFaults := ⟨false, false, false, fun _ => false⟩

/-- `hydrate` succeeds on `baseAndDelta` with and without the delta. -/
theorem hydrate_baseAndDelta (fails : Bool) :
    (⟨.loro, some baseAndDelta, ∅⟩ : GrafeoLoroApp Nat).hydrate (deltaFaults fails) "g"
      = (.ok (), ⟨.loro, some baseAndDelta, if fails then {1} else {1, 2}⟩) := by
  have hlist : importStored (deltaFaults fails) "g" baseAndDelta ∅
      = importDeltas (fun _ => fails) baseAndDelta (["g/delta-1"].mergeSort (· ≤ ·))
          (∅ ∪ {1}) := rfl
  have himport : importStored (deltaFaults fails) "g" baseAndDelta ∅
      = (.ok (), if fails then {1} else {1, 2}) := by
    rw [hlist, List.mergeSort_singleton]
    cases fails <;> rfl
  simp only [GrafeoLoroApp.hydrate]
  rw [himport]
  rfl

/-- Without failures, `hydrate` and `checkpoint` keep the ops of `baseAndDelta`. -/
theorem retains_baseAndDelta :
    Retains "g" ⟨.loro, some baseAndDelta, ∅⟩
      (((⟨.loro, some baseAndDelta, {1, 2}⟩ : GrafeoLoroApp Nat).edit
        ∅).checkpoint noCheckpointFaults "g").2 := by
  refine (retains_iff (deltaFaults false) noCheckpointFaults "g" _ _ ∅ baseAndDelta rfl
    (hydrate_baseAndDelta false)).mpr (.inr ?_)
  -- no delta is skipped
  rintro key ⟨-, hmissing | hload⟩
  · cases hmissing (.wire {1}) rfl
  · cases hload

/-- The load of the delta fails in `hydrate`, which succeeds. The `checkpoint` succeeds too and
deletes the delta, and the op 2 is gone. -/
theorem skipped_delta_is_deleted :
    let hydrated :=
      (⟨.loro, some baseAndDelta, ∅⟩ : GrafeoLoroApp Nat).hydrate (deltaFaults true) "g"
    let saved := (hydrated.2.edit ∅).checkpoint noCheckpointFaults "g"
    hydrated.1 = .ok () ∧ saved.1 = .ok () ∧
      ¬ Retains "g" ⟨.loro, some baseAndDelta, ∅⟩ saved.2 := by
  intro hydrated saved
  have hhydrated : hydrated = (.ok (), ⟨.loro, some baseAndDelta, {1}⟩) :=
    hydrate_baseAndDelta true
  have hsaved : saved = ((⟨.loro, some baseAndDelta, {1}⟩ : GrafeoLoroApp Nat).edit
      ∅).checkpoint noCheckpointFaults "g" := by
    show (hydrated.2.edit ∅).checkpoint noCheckpointFaults "g" = _
    rw [hhydrated]
  rw [hhydrated, hsaved]
  have hbefore : Stored "g" baseAndDelta 2 := .inr ⟨"g/delta-1", rfl, by decide⟩
  have hafter : ¬ Stored "g" (saveSnapshot noCheckpointFaults "g" ({1} ∪ ∅) baseAndDelta).2 2 := by
    rw [stored_saveSnapshot ⟨rfl, rfl, rfl⟩]
    simp [noCheckpointFaults]
  refine ⟨rfl, rfl, fun hretains => ?_⟩
  obtain ⟨s, hs, hstored⟩ := hretains 2 ⟨baseAndDelta, rfl, hbefore⟩
  obtain rfl := Option.some.inj hs
  exact hafter hstored

end GrafeoLoro.Proofs
