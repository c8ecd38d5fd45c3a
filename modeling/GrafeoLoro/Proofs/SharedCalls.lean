import GrafeoLoro.Proofs.ColdBoot
import GrafeoLoro.Storage.Shared

/-!
# `GrafeoLoro.Proofs.SharedCalls`: the calls of instances that share a storage

* `hydrate_steps` and `checkpoint_steps`: a call that nothing comes in between is `importStored`
  or `saveSnapshot`.
* `next_storage`: only a save of a checkpoint changes the base, and nothing adds to the deltas.
* `last_save_wins`: so until the next save, the graph has the ops of the last snapshot and of the
  deltas. What another instance saved between the export and the save is gone.
-/

set_option autoImplicit false

namespace GrafeoLoro.Proofs

open GrafeoLoro GrafeoLoro.Lib

variable {Op I : Type} [DecidableEq Op] [DecidableEq I]

/-! ### The calls without interruption -/

section
variable {graphId : String} {s : SharedStorage Op I} {i : I}

/-- The list of a `hydrate` succeeds. -/
theorem advance_hydrateList {fails : Bool} {keys : List String}
    (hphase : (s.instances i).phase = .hydrateList)
    (hlist : s.storage.list fails (deltaPrefix graphId) = .ok keys) :
    s.next graphId (.advance i fails) = some (s.put i
      ⟨(s.instances i).loroDoc, .hydrateLoad (keys.mergeSort (· ≤ ·))⟩) := by
  simp only [SharedStorage.next, SharedStorage.advance, hphase, hlist]

/-- The loads of a `hydrate` are `importDeltas`. -/
theorem importDeltas_steps (graphId : String) (fails : String → Bool) (keys : List String) :
    ∀ (s : SharedStorage Op I) (i : I) (doc : Finset Op),
      s.instances i = ⟨doc, .hydrateLoad keys⟩ →
      ∃ acts, (∀ a ∈ acts, ∃ f, a = .advance i f) ∧
        runActions (SharedStorage.next graphId) s acts
          = some (s.put i ⟨(importDeltas fails s.storage keys doc).2, .idle⟩) := by
  induction keys with
  | nil =>
    intro s i doc hinst
    refine ⟨[.advance i false], by simp, ?_⟩
    simp [runActions, SharedStorage.next, SharedStorage.advance, hinst, importDeltas]
  | cons key rest ih =>
    intro s i doc hinst
    rw [importDeltas]
    -- the step loads the first key
    have hstep : ∀ inst, s.next graphId (.advance i (fails key)) = some (s.put i inst) →
        ∀ doc', inst = ⟨doc', .hydrateLoad rest⟩ →
        ∃ acts, (∀ a ∈ acts, ∃ f, a = .advance i f) ∧
          runActions (SharedStorage.next graphId) s acts
            = some (s.put i ⟨(importDeltas fails s.storage rest doc').2, .idle⟩) := by
      rintro _ hnext doc' rfl
      obtain ⟨acts, hacts, hrun⟩ := ih (s.put i ⟨doc', .hydrateLoad rest⟩) i doc' (by simp)
      refine ⟨.advance i (fails key) :: acts, by simpa using hacts, ?_⟩
      simpa [runActions, hnext] using hrun
    cases hload : s.storage.load (fails key) key with
    | error kind =>
      refine hstep _ ?_ doc rfl
      simp only [SharedStorage.next, SharedStorage.advance, hinst, hload]
    | ok blob =>
      simp only
      cases hdecode : decompressFromWire blob with
      | error e =>
        refine ⟨[.advance i (fails key)], by simp, ?_⟩
        simp [runActions, SharedStorage.next, SharedStorage.advance, hinst, hload, hdecode]
      | ok ops =>
        refine hstep _ ?_ (doc ∪ ops) rfl
        simp only [SharedStorage.next, SharedStorage.advance, hinst, hload, hdecode]

/-- A `hydrate` that nothing comes in between is `importStored`. -/
theorem hydrate_steps (faults : HydrateFaults) (graphId : String) (s : SharedStorage Op I) (i : I)
    (hphase : (s.instances i).phase = .idle) :
    ∃ acts, (∀ a ∈ acts, ∃ f, a = .hydrate i f ∨ a = .advance i f) ∧
      runActions (SharedStorage.next graphId) s acts = some (s.put i
        ⟨(importStored faults graphId s.storage (s.instances i).loroDoc).2, .idle⟩) := by
  unfold importStored
  have hnext : s.next graphId (.hydrate i faults.loadBase)
      = some (s.loadBase graphId i faults.loadBase) := by
    simp only [SharedStorage.next, hphase]
  -- the call may end with the first step
  have hend : ∀ doc, s.loadBase graphId i faults.loadBase = s.put i ⟨doc, .idle⟩ →
      ∃ acts, (∀ a ∈ acts, ∃ f, a = .hydrate i f ∨ a = .advance i f) ∧
        runActions (SharedStorage.next graphId) s acts = some (s.put i ⟨doc, .idle⟩) := by
    intro doc hbase
    exact ⟨[.hydrate i faults.loadBase], by simp, by simp [runActions, hnext, hbase]⟩
  cases hload : s.storage.load faults.loadBase (baseKey graphId) with
  | error kind =>
    cases kind with
    | notFound => exact hend _ (by simp only [SharedStorage.loadBase, hload])
    | other => exact hend _ (by simp only [SharedStorage.loadBase, hload])
  | ok base =>
    simp only
    cases hempty : base.isEmpty with
    | true => exact hend _ (by simp [SharedStorage.loadBase, hload, hempty])
    | false =>
      rw [if_neg Bool.false_ne_true]
      cases hdecode : decompressFromWire base with
      | error e => exact hend _ (by simp [SharedStorage.loadBase, hload, hempty, hdecode])
      | ok ops =>
        have hbase : s.loadBase graphId i faults.loadBase
            = s.put i ⟨(s.instances i).loroDoc ∪ ops, .hydrateList⟩ := by
          simp [SharedStorage.loadBase, hload, hempty, hdecode]
        simp only
        cases hlist : s.storage.list faults.list (deltaPrefix graphId) with
        | error kind =>
          refine ⟨[.hydrate i faults.loadBase, .advance i faults.list], by simp, ?_⟩
          rw [hbase] at hnext
          rw [runActions, hnext]
          simp [runActions, SharedStorage.next, SharedStorage.advance, hlist]
        | ok keys =>
          let listed := s.put i
            ⟨(s.instances i).loroDoc ∪ ops, .hydrateLoad (keys.mergeSort (· ≤ ·))⟩
          obtain ⟨acts, hacts, hrun⟩ := importDeltas_steps graphId faults.loadDelta
            (keys.mergeSort (· ≤ ·)) listed i ((s.instances i).loroDoc ∪ ops) (by simp [listed])
          refine ⟨.hydrate i faults.loadBase :: .advance i faults.list :: acts, ?_, ?_⟩
          · intro a ha
            rcases List.mem_cons.mp ha with rfl | ha
            · exact ⟨_, .inl rfl⟩
            · rcases List.mem_cons.mp ha with rfl | ha
              · exact ⟨_, .inr rfl⟩
              · obtain ⟨f, rfl⟩ := hacts a ha
                exact ⟨f, .inr rfl⟩
          · have hlisted := advance_hydrateList (s := s.put i
              ⟨(s.instances i).loroDoc ∪ ops, .hydrateList⟩) (i := i) (by simp) hlist
            simpa [runActions, hnext, hbase, hlisted, listed] using hrun

/-- The deletions of a `checkpoint` are `deleteDeltas`. -/
theorem deleteDeltas_steps (graphId : String) (fails : String → Bool) (keys : List String) :
    ∀ (s : SharedStorage Op I) (i : I) (doc : Finset Op),
      s.instances i = ⟨doc, .checkpointDelete keys⟩ →
      ∃ acts, (∀ a ∈ acts, ∃ f, a = .advance i f) ∧
        runActions (SharedStorage.next graphId) s acts = some
          ({ s with storage := deleteDeltas fails keys s.storage }.put i ⟨doc, .idle⟩) := by
  induction keys with
  | nil =>
    intro s i doc hinst
    refine ⟨[.advance i false], by simp, ?_⟩
    simp [runActions, SharedStorage.next, SharedStorage.advance, hinst, deleteDeltas]
  | cons key rest ih =>
    intro s i doc hinst
    let deleted := { s with storage := (s.storage.delete (fails key) key).2 }.put i
      ⟨doc, .checkpointDelete rest⟩
    have hnext : s.next graphId (.advance i (fails key)) = some deleted := by
      simp [SharedStorage.next, SharedStorage.advance, hinst, deleted]
    obtain ⟨acts, hacts, hrun⟩ := ih deleted i doc (SharedStorage.put_instances ..)
    refine ⟨.advance i (fails key) :: acts, by simpa using hacts, ?_⟩
    rw [runActions, hnext, Option.bind_some, hrun, deleteDeltas]
    simp [deleted, SharedStorage.put]

/-- A `checkpoint` that nothing comes in between is `saveSnapshot`. -/
theorem checkpoint_steps (faults : CheckpointFaults) (graphId : String) (s : SharedStorage Op I)
    (i : I) (hphase : (s.instances i).phase = .idle) :
    ∃ acts, (∀ a ∈ acts, a = .checkpoint i ∨ ∃ f, a = .advance i f) ∧
      runActions (SharedStorage.next graphId) s acts = some ⟨(saveSnapshot faults graphId
        (s.instances i).loroDoc s.storage).2, s.instances⟩ := by
  have hself : ∀ storage, SharedStorage.put ⟨storage, s.instances⟩ i
      ⟨(s.instances i).loroDoc, .idle⟩ = ⟨storage, s.instances⟩ := by
    intro storage
    rw [← hphase]
    exact SharedStorage.put_eq_self ⟨storage, s.instances⟩ i
  have hnext : s.next graphId (.checkpoint i) = some (s.put i
      ⟨(s.instances i).loroDoc, .checkpointSave (s.instances i).loroDoc⟩) := by
    simp only [SharedStorage.next, hphase]
  unfold saveSnapshot Storage.save
  cases faults.snapshot with
  | true => exact ⟨[], by simp, rfl⟩
  | false =>
    cases hsave : faults.save with
    | true =>
      refine ⟨[.checkpoint i, .advance i true], by simp, ?_⟩
      rw [runActions, hnext]
      simpa [runActions, SharedStorage.next, SharedStorage.advance, Storage.save]
        using hself s.storage
    | false =>
      let saved : SharedStorage Op I :=
        { s with storage := s.storage.insert (baseKey graphId) (.wire (s.instances i).loroDoc) }
      simp only [Bool.false_eq_true, if_false]
      cases hlist : Storage.list faults.list saved.storage (deltaPrefix graphId) with
      | error kind =>
        refine ⟨[.checkpoint i, .advance i false, .advance i faults.list], by simp, ?_⟩
        rw [runActions, hnext]
        simpa [runActions, SharedStorage.next, SharedStorage.advance, Storage.save, hlist, saved]
          using hself saved.storage
      | ok keys =>
        obtain ⟨acts, hacts, hrun⟩ := deleteDeltas_steps graphId faults.delete keys
          (saved.put i ⟨(s.instances i).loroDoc, .checkpointDelete keys⟩) i
          (s.instances i).loroDoc (SharedStorage.put_instances ..)
        refine ⟨.checkpoint i :: .advance i false :: .advance i faults.list :: acts, ?_, ?_⟩
        · intro a ha
          simp only [List.mem_cons] at ha
          rcases ha with rfl | rfl | rfl | ha
          · exact .inl rfl
          · exact .inr ⟨_, rfl⟩
          · exact .inr ⟨_, rfl⟩
          · exact .inr (hacts a ha)
        · rw [SharedStorage.put_mk_put, SharedStorage.put_storage] at hrun
          rw [runActions, hnext]
          simpa [runActions, SharedStorage.next, SharedStorage.advance, Storage.save, hlist, saved]
            using hrun.trans (congrArg some (hself _))

end

/-! ### What is stored -/

section
omit [DecidableEq Op]
/-- The base and the deltas of the graph have no more ops than before. -/
structure Shrinks (graphId : String) (s s' : Storage Op) : Prop where
  base : opsAt s' (baseKey graphId) ⊆ opsAt s (baseKey graphId)
  delta : ∀ key, IsDeltaKey graphId key → opsAt s' key ⊆ opsAt s key

variable {graphId : String} {s s' : Storage Op}

theorem Shrinks.refl (graphId : String) (s : Storage Op) : Shrinks graphId s s :=
  ⟨fun _ h => h, fun _ _ _ h => h⟩

theorem Shrinks.trans {s'' : Storage Op} (h : Shrinks graphId s s') (h' : Shrinks graphId s' s'') :
    Shrinks graphId s s'' :=
  ⟨fun _ hop => h.base (h'.base hop),
    fun key hkey _ hop => h.delta key hkey (h'.delta key hkey hop)⟩

theorem Shrinks.stored (h : Shrinks graphId s s') {op : Op} (hop : Stored graphId s' op) :
    Stored graphId s op := by
  cases hop with
  | inl hbase => exact .inl (h.base hbase)
  | inr hdelta =>
    obtain ⟨key, hkey, hop⟩ := hdelta
    exact .inr ⟨key, hkey, h.delta key hkey hop⟩

/-- The ops under a key after a deletion. -/
theorem opsAt_delete (s : Storage Op) (fails : Bool) (k key : String) :
    opsAt (s.delete fails k).2 key = if fails = false ∧ key = k then ∅ else opsAt s key := by
  cases fails with
  | true => rfl
  | false =>
    show opsAt (s.erase k) key = _
    unfold opsAt
    rw [alist_lookup_erase]
    by_cases hk : key = k
    · simp [hk]
    · simp [hk]

/-- The deletion of a delta leaves the base alone. -/
theorem opsAt_delete_base {graphId : String} (s : Storage Op) (fails : Bool) {key : String}
    (hkey : IsDeltaKey graphId key) :
    opsAt (s.delete fails key).2 (baseKey graphId) = opsAt s (baseKey graphId) := by
  rw [opsAt_delete, if_neg fun hand : fails = false ∧ baseKey graphId = key =>
    not_isDeltaKey_baseKey graphId (hand.2 ▸ hkey)]

theorem shrinks_delete (graphId : String) (s : Storage Op) (fails : Bool) (key : String) :
    Shrinks graphId s (s.delete fails key).2 := by
  have hless : ∀ k, opsAt (s.delete fails key).2 k ⊆ opsAt s k := by
    intro k
    rw [opsAt_delete]
    split
    · exact Finset.empty_subset _
    · exact fun _ hop => hop
  exact ⟨hless _, fun k _ => hless k⟩

/-- After the save of a checkpoint, the base is the snapshot, and the deltas are as before. -/
theorem stored_save (s : Storage Op) (snapshot : Finset Op) (graphId : String) :
    opsAt (s.insert (baseKey graphId) (.wire snapshot)) (baseKey graphId) = snapshot ∧
      ∀ key, IsDeltaKey graphId key →
        opsAt (s.insert (baseKey graphId) (.wire snapshot)) key = opsAt s key := by
  unfold opsAt
  constructor
  · rw [AList.lookup_insert]
    rfl
  · intro key hkey
    have hne : key ≠ baseKey graphId := fun h => not_isDeltaKey_baseKey graphId (h ▸ hkey)
    rw [AList.lookup_insert_ne hne]

end

/-! ### The storage calls of the steps -/

section
variable {graphId : String} {s t : SharedStorage Op I}

omit [DecidableEq Op] [DecidableEq I] in
/-- Every key that a checkpoint is about to delete is a delta key. -/
def DeletesDeltas (graphId : String) (s : SharedStorage Op I) : Prop :=
  ∀ i keys, (s.instances i).phase = .checkpointDelete keys → ∀ key ∈ keys, IsDeltaKey graphId key

omit [DecidableEq Op] [DecidableEq I] in
/-- The step is not a save that succeeds. -/
def NoSave (s : SharedStorage Op I) (a : SharedAction Op I) : Prop :=
  ∀ i snapshot, a = .advance i false → (s.instances i).phase ≠ .checkpointSave snapshot

omit [DecidableEq Op] in
theorem DeletesDeltas.put (hdel : DeletesDeltas graphId s) {i : I} {inst : Instance Op}
    {storage : Storage Op}
    (hinst : ∀ keys, inst.phase = .checkpointDelete keys → ∀ key ∈ keys, IsDeltaKey graphId key) :
    DeletesDeltas graphId (SharedStorage.put ⟨storage, s.instances⟩ i inst) := by
  intro j keys hphase
  by_cases hj : j = i
  · subst hj
    exact hinst keys (by simpa using hphase)
  · exact hdel j keys (by simpa [SharedStorage.put, Function.update_of_ne hj] using hphase)

/-- A storage call keeps to delta keys, and unless it is a save, the base stays and the deltas do
not grow. -/
theorem advance_storage (hdel : DeletesDeltas graphId s) {i : I} {fails : Bool}
    (h : s.advance graphId i fails = some t) :
    DeletesDeltas graphId t ∧ (NoSave s (.advance i fails) →
      opsAt t.storage (baseKey graphId) = opsAt s.storage (baseKey graphId) ∧
        Shrinks graphId s.storage t.storage) := by
  have hsame : ∀ inst : Instance Op, s.put i inst = t →
      (∀ keys, inst.phase = .checkpointDelete keys → ∀ key ∈ keys, IsDeltaKey graphId key) →
      DeletesDeltas graphId t ∧ (NoSave s (.advance i fails) →
        opsAt t.storage (baseKey graphId) = opsAt s.storage (baseKey graphId) ∧
          Shrinks graphId s.storage t.storage) := by
    rintro inst rfl hinst
    exact ⟨hdel.put hinst, fun _ => ⟨rfl, .refl graphId s.storage⟩⟩
  unfold SharedStorage.advance at h
  cases hphase : (s.instances i).phase with
  | idle => simp [hphase] at h
  | hydrateList =>
    simp only [hphase] at h
    cases hlist : s.storage.list fails (deltaPrefix graphId) with
    | error kind =>
      simp only [hlist] at h
      exact hsame _ (Option.some.inj h) nofun
    | ok keys =>
      simp only [hlist] at h
      exact hsame _ (Option.some.inj h) nofun
  | hydrateLoad keys =>
    cases keys with
    | nil =>
      simp only [hphase] at h
      exact hsame _ (Option.some.inj h) nofun
    | cons key rest =>
      simp only [hphase] at h
      cases hload : s.storage.load fails key with
      | error kind =>
        simp only [hload] at h
        exact hsame _ (Option.some.inj h) nofun
      | ok blob =>
        simp only [hload] at h
        cases hdecode : decompressFromWire blob with
        | error e =>
          simp only [hdecode] at h
          exact hsame _ (Option.some.inj h) nofun
        | ok ops =>
          simp only [hdecode] at h
          exact hsame _ (Option.some.inj h) nofun
  | checkpointSave snapshot =>
    simp only [hphase] at h
    cases fails with
    | true => exact hsame _ (Option.some.inj h) nofun
    | false =>
      obtain rfl := Option.some.inj h
      exact ⟨hdel.put nofun, fun hno => absurd hphase (hno i snapshot rfl)⟩
  | checkpointList =>
    simp only [hphase] at h
    cases hlist : s.storage.list fails (deltaPrefix graphId) with
    | error kind =>
      simp only [hlist] at h
      exact hsame _ (Option.some.inj h) nofun
    | ok keys =>
      simp only [hlist] at h
      refine hsame _ (Option.some.inj h) ?_
      rintro _ ⟨⟩ key hkey
      cases fails with
      | true => cases hlist
      | false => exact ((mem_list hlist key).mp hkey).2
  | checkpointDelete keys =>
    cases keys with
    | nil =>
      simp only [hphase] at h
      exact hsame _ (Option.some.inj h) nofun
    | cons key rest =>
      simp only [hphase] at h
      obtain rfl := Option.some.inj h
      have hkeys := hdel i _ hphase
      refine ⟨hdel.put ?_, fun _ =>
        ⟨opsAt_delete_base _ fails (hkeys key List.mem_cons_self), shrinks_delete ..⟩⟩
      rintro _ ⟨⟩ k hk
      exact hkeys k (List.mem_cons_of_mem key hk)

/-- The first step of a `hydrate` replaces the instance. -/
theorem loadBase_put (graphId : String) (s : SharedStorage Op I) (i : I) (fails : Bool) :
    ∃ inst, s.loadBase graphId i fails = s.put i inst ∧
      ∀ keys, inst.phase ≠ .checkpointDelete keys := by
  unfold SharedStorage.loadBase
  cases s.storage.load fails (baseKey graphId) with
  | error kind => exact ⟨_, rfl, nofun⟩
  | ok blob =>
    cases blob with
    | empty => exact ⟨_, rfl, nofun⟩
    | rejected e => exact ⟨_, rfl, nofun⟩
    | wire ops => exact ⟨_, rfl, nofun⟩

/-- A `hydrate` begins with the load of the base. -/
theorem next_hydrate {i : I} {fails : Bool} (h : s.next graphId (.hydrate i fails) = some t) :
    (s.instances i).phase = .idle ∧ t = s.loadBase graphId i fails := by
  simp only [SharedStorage.next] at h
  cases hphase : (s.instances i).phase with
  | idle =>
    simp only [hphase] at h
    exact ⟨rfl, (Option.some.inj h).symm⟩
  | _ => simp [hphase] at h

/-- A `checkpoint` begins with the export. -/
theorem next_checkpoint {i : I} (h : s.next graphId (.checkpoint i) = some t) :
    (s.instances i).phase = .idle ∧
      t = s.put i ⟨(s.instances i).loroDoc, .checkpointSave (s.instances i).loroDoc⟩ := by
  simp only [SharedStorage.next] at h
  cases hphase : (s.instances i).phase with
  | idle =>
    simp only [hphase] at h
    exact ⟨rfl, (Option.some.inj h).symm⟩
  | _ => simp [hphase] at h

/-- What every step keeps, and what a step that is no save keeps. -/
theorem next_storage (hdel : DeletesDeltas graphId s) {a : SharedAction Op I}
    (h : s.next graphId a = some t) :
    DeletesDeltas graphId t ∧ (NoSave s a →
      opsAt t.storage (baseKey graphId) = opsAt s.storage (baseKey graphId) ∧
        Shrinks graphId s.storage t.storage) := by
  cases a with
  | edit i ops =>
    obtain rfl := Option.some.inj h
    exact ⟨hdel.put (hdel i), fun _ => ⟨rfl, .refl graphId s.storage⟩⟩
  | restart i =>
    obtain rfl := Option.some.inj h
    exact ⟨hdel.put nofun, fun _ => ⟨rfl, .refl graphId s.storage⟩⟩
  | hydrate i fails =>
    obtain ⟨-, rfl⟩ := next_hydrate h
    obtain ⟨inst, heq, hnot⟩ := loadBase_put graphId s i fails
    rw [heq]
    exact ⟨hdel.put fun keys hkeys => absurd hkeys (hnot keys),
      fun _ => ⟨rfl, .refl graphId s.storage⟩⟩
  | checkpoint i =>
    obtain ⟨-, rfl⟩ := next_checkpoint h
    exact ⟨hdel.put nofun, fun _ => ⟨rfl, .refl graphId s.storage⟩⟩
  | advance i fails => exact advance_storage hdel h

end

/-! ### The last save -/

section
variable {graphId : String} {s t u : SharedStorage Op I}
  {h h' : List (SharedStorage Op I × SharedAction Op I)}

omit [DecidableEq Op] [DecidableEq I] in
theorem deletesDeltas_idle (graphId : String) (hidle : ∀ i, (s.instances i).phase = .idle) :
    DeletesDeltas graphId s := by
  intro i keys hphase
  rw [hidle i] at hphase
  cases hphase

/-- A run without saves keeps the base and adds to no delta. -/
theorem noSave_run (hdel : DeletesDeltas graphId s)
    (hrun : Exec (SharedStorage.next graphId) s h t) (hno : Steps NoSave h) :
    opsAt t.storage (baseKey graphId) = opsAt s.storage (baseKey graphId) ∧
      Shrinks graphId s.storage t.storage := by
  let Inv : SharedStorage Op I → Prop := fun u => DeletesDeltas graphId u ∧
    opsAt u.storage (baseKey graphId) = opsAt s.storage (baseKey graphId) ∧
      Shrinks graphId s.storage u.storage
  have hinv : Always Inv h t := by
    refine hrun.invariant_of_steps ?_ ⟨hdel, rfl, .refl graphId s.storage⟩ hno
    rintro u a v hstep hnosave ⟨hu, hbase, hshrink⟩
    obtain ⟨hv, hkeeps⟩ := next_storage hu hstep
    obtain ⟨hbase', hshrink'⟩ := hkeeps hnosave
    exact ⟨hv, hbase'.trans hbase, hshrink.trans hshrink'⟩
  exact hinv.2.2

/-- After a save and until the next one, whatever the instances do, the graph has every op of the
saved snapshot, and no op that is neither in it nor in a delta. -/
theorem last_save_wins {i : I} {snapshot : Finset Op} (hidle : ∀ j, (s.instances j).phase = .idle)
    (hrun : Exec (SharedStorage.next graphId) s (h ++ (t, .advance i false) :: h') u)
    (hphase : (t.instances i).phase = .checkpointSave snapshot) (hno : Steps NoSave h') :
    (∀ op ∈ snapshot, Stored graphId u.storage op) ∧
      ∀ op, Stored graphId u.storage op →
        op ∈ snapshot ∨ ∃ key, IsDeltaKey graphId key ∧ op ∈ opsAt t.storage key := by
  obtain ⟨v, hbefore, hstep, hafter⟩ := hrun.cut
  have hdel : DeletesDeltas graphId t := hbefore.invariant
    (fun _ _ _ hstep hdel => (next_storage hdel hstep).1) (deletesDeltas_idle graphId hidle)
  have hdel' : DeletesDeltas graphId v := (next_storage hdel hstep).1
  obtain ⟨hbase, hshrink⟩ := noSave_run hdel' hafter hno
  have hsaved : v.storage = t.storage.insert (baseKey graphId) (.wire snapshot) := by
    simp only [SharedStorage.next, SharedStorage.advance, hphase] at hstep
    obtain rfl := Option.some.inj hstep
    rfl
  obtain ⟨hnew, hdeltas⟩ := stored_save t.storage snapshot graphId
  rw [← hsaved] at hnew hdeltas
  constructor
  · intro op hop
    refine .inl ?_
    rw [hbase, hnew]
    exact hop
  · rintro op (hop | ⟨key, hkey, hop⟩)
    · rw [hbase, hnew] at hop
      exact .inl hop
    · refine .inr ⟨key, hkey, ?_⟩
      rw [← hdeltas key hkey]
      exact hshrink.delta key hkey hop

end

/-- Two instances on one storage. -/
def both (storage : Storage Nat) (a b : Instance Nat) : SharedStorage Nat Bool :=
  ⟨storage, fun i => if i then a else b⟩

/-- A graph `g` with a base and no deltas. -/
def onlyBase (ops : Finset Nat) : Storage Nat := AList.singleton "g/base.loro" (.wire ops)

theorem both_put_true (storage : Storage Nat) (a b inst : Instance Nat) :
    (both storage a b).put true inst = both storage inst b := by
  unfold SharedStorage.put both
  congr 1
  funext i
  cases i <;> rfl

theorem both_put_false (storage : Storage Nat) (a b inst : Instance Nat) :
    (both storage a b).put false inst = both storage a inst := by
  unfold SharedStorage.put both
  congr 1
  funext i
  cases i <;> rfl

/-- A graph `g` with only a base has no deltas. -/
theorem list_onlyBase (ops : Finset Nat) :
    (onlyBase ops).list false (deltaPrefix "g") = .ok [] := by
  have hkeys : (onlyBase ops).keys = ["g/base.loro"] := rfl
  unfold Storage.list
  rw [hkeys]
  rfl

/-- A graph `g` with only a base has no ops in deltas. -/
theorem opsAt_onlyBase {ops : Finset Nat} {key : String} (hkey : IsDeltaKey "g" key) :
    opsAt (onlyBase ops) key = ∅ := by
  refine opsAt_of_notMem fun hmem => not_isDeltaKey_baseKey "g" ?_
  obtain rfl : key = baseKey "g" := List.mem_singleton.mp hmem
  exact hkey

/-- Both instances export before one of them saves. The op 2 is stored by the first save, and the
second one loses it. -/
theorem last_save_wins_lost :
    ∃ h u, Exec (SharedStorage.next "g")
        (both (onlyBase {1}) ⟨{1, 2}, .idle⟩ ⟨{1, 3}, .idle⟩) h u ∧
      (∃ p ∈ h, Stored "g" p.1.storage 2) ∧ ¬ Stored "g" u.storage 2 := by
  let a := both (onlyBase {1}) ⟨{1, 2}, .idle⟩ ⟨{1, 3}, .idle⟩
  let b := both (onlyBase {1}) ⟨{1, 2}, .checkpointSave {1, 2}⟩ ⟨{1, 3}, .idle⟩
  let c := both (onlyBase {1}) ⟨{1, 2}, .checkpointSave {1, 2}⟩ ⟨{1, 3}, .checkpointSave {1, 3}⟩
  let d := both (onlyBase {1, 2}) ⟨{1, 2}, .checkpointList⟩ ⟨{1, 3}, .checkpointSave {1, 3}⟩
  let e := both (onlyBase {1, 3}) ⟨{1, 2}, .checkpointList⟩ ⟨{1, 3}, .checkpointList⟩
  have hb : SharedStorage.next "g" a (.checkpoint true) = some b :=
    congrArg some (both_put_true ..)
  have hc : SharedStorage.next "g" b (.checkpoint false) = some c :=
    congrArg some (both_put_false ..)
  have hd : SharedStorage.next "g" c (.advance true false) = some d :=
    congrArg some (both_put_true (onlyBase {1, 2}) ..)
  have he : SharedStorage.next "g" d (.advance false false) = some e :=
    congrArg some (both_put_false (onlyBase {1, 3}) ..)
  have hrun := (((Exec.nil.snoc hb).snoc hc).snoc hd).snoc he
  have hidle : ∀ j, (a.instances j).phase = .idle := by
    intro j
    cases j <;> rfl
  refine ⟨_, e, hrun, ⟨(d, .advance false false), by simp, .inl (by decide)⟩, fun hstored => ?_⟩
  rcases (last_save_wins hidle hrun rfl steps_nil).2 2 hstored with hop | ⟨key, hkey, hop⟩
  · exact absurd hop (by decide)
  · have hnone : opsAt d.storage key = ∅ := opsAt_onlyBase hkey
    rw [hnone] at hop
    exact absurd hop (Finset.notMem_empty 2)

end GrafeoLoro.Proofs
