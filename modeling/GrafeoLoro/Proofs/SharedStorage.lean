import GrafeoLoro.Proofs.SharedCalls

/-!
# `GrafeoLoro.Proofs.SharedStorage`: instances that save over each other

A `checkpoint` replaces the base by what its own instance has, and it deletes the deltas. It does
not look at what is stored. So an instance that has not read the latest base saves over it.

A `Lease` follows one instance. It is `held` from the end of a `hydrate` that could load the base
and every delta it had listed, until another instance saves, until a load of a later `hydrate`
fails, or until a restart. The code has no leases: a lease is what a reader of the history knows.

* `leased_saves_keep`: when every save is made under a held lease, no op is ever lost from the
  storage, in any interleaving of the calls of any number of instances, whatever calls fail.

`last_save_wins` (`Proofs/SharedCalls.lean`) is what happens without leases.
-/

set_option autoImplicit false

namespace GrafeoLoro.Proofs

open GrafeoLoro GrafeoLoro.Lib

variable {Op I : Type} [DecidableEq Op] [DecidableEq I]

/-! ### Leases -/

/-- What is known of an instance: nothing, that it reads the storage, or that it has all of it. -/
inductive Lease where
  | none
  | reading
  | held
  deriving DecidableEq

omit [DecidableEq Op] in
/-- The load gives ops. -/
def loadsOps (s : Storage Op) (fails : Bool) (key : String) : Bool :=
  match s.load fails key with
  | .ok (.wire _) => true
  | _ => false

omit [DecidableEq Op] in
/-- The lease after the load of the base. Without a base, `hydrate` does not look at the deltas. -/
def baseLease (graphId : String) (s : Storage Op) (fails : Bool) : Lease :=
  match s.load fails (baseKey graphId) with
  | .ok (.wire _) => .reading
  | .ok .empty | .error .notFound =>
    if s.keys.any fun key => (deltaPrefix graphId).toList.isPrefixOf key.toList then .none
    else .held
  | _ => .none

omit [DecidableEq Op] in
/-- The lease of the instance `i` after a step. -/
def leaseStep (graphId : String) (i : I) (lease : Lease) (s : SharedStorage Op I) :
    SharedAction Op I → Lease
  | .edit _ _ | .checkpoint _ => lease
  | .restart j => if j = i then .none else lease
  | .hydrate j fails => if j = i then baseLease graphId s.storage fails else lease
  | .advance j fails =>
    match (s.instances j).phase with
    | .checkpointSave _ => if j ≠ i ∧ fails = false then .none else lease
    | .hydrateList => if j = i ∧ fails = true then .none else lease
    | .hydrateLoad [] => if j = i ∧ lease = .reading then .held else lease
    | .hydrateLoad (key :: _) =>
      if j = i ∧ loadsOps s.storage fails key = false then .none else lease
    | _ => lease

omit [DecidableEq Op] in
/-- The lease of the instance `i` after the steps. -/
def leaseAfter (graphId : String) (h : List (SharedStorage Op I × SharedAction Op I)) (i : I) :
    Lease :=
  h.foldl (fun lease p => leaseStep graphId i lease p.1 p.2) .none

omit [DecidableEq Op] in
/-- The step, when it is a save that does not fail, is made under a held lease. -/
def LeasedSave (graphId : String) (h : List (SharedStorage Op I × SharedAction Op I))
    (s : SharedStorage Op I) : SharedAction Op I → Prop
  | .advance i false =>
    ∀ snapshot, (s.instances i).phase = .checkpointSave snapshot → leaseAfter graphId h i = .held
  | _ => True

/-! ### The invariant -/

omit [DecidableEq Op] in
/-- Every op of a delta is in the base. -/
def DeltasInBase (graphId : String) (s : Storage Op) : Prop :=
  ∀ key, IsDeltaKey graphId key → opsAt s key ⊆ opsAt s (baseKey graphId)

omit [DecidableEq Op] in
/-- What an instance that reads the storage has of it. -/
def ReadSoFar (graphId : String) (s : Storage Op) (inst : Instance Op) : Prop :=
  match inst.phase with
  | .hydrateList => opsAt s (baseKey graphId) ⊆ inst.loroDoc
  | .hydrateLoad keys => opsAt s (baseKey graphId) ⊆ inst.loroDoc ∧
      ∀ key, IsDeltaKey graphId key → key ∉ keys → opsAt s key ⊆ inst.loroDoc
  | _ => False

omit [DecidableEq Op] in
/-- The phase is one after the save of a checkpoint. -/
def AfterSave : Phase Op → Prop
  | .checkpointList | .checkpointDelete _ => True
  | _ => False

omit [DecidableEq Op] in
/-- What a lease says about its instance. -/
structure InstOk (graphId : String) (s : Storage Op) (inst : Instance Op) (lease : Lease) :
    Prop where
  held : lease = .held → ∀ op, Stored graphId s op → op ∈ inst.loroDoc
  reading : lease = .reading → ReadSoFar graphId s inst
  saving : ∀ snapshot, inst.phase = .checkpointSave snapshot → snapshot ⊆ inst.loroDoc ∧
    (lease = .held → ∀ op, Stored graphId s op → op ∈ snapshot)

omit [DecidableEq Op] [DecidableEq I] in
/-- The leases are right, and once an instance has saved, the deltas are in the base. -/
structure SharedOk (graphId : String) (s : SharedStorage Op I) (lease : I → Lease) : Prop where
  inst : ∀ i, InstOk graphId s.storage (s.instances i) (lease i)
  covered : ∀ i, AfterSave (s.instances i).phase → DeltasInBase graphId s.storage

section
omit [DecidableEq Op]
variable {graphId : String} {s s' : Storage Op} {inst : Instance Op} {lease : Lease}

theorem ReadSoFar.shrink (h : ReadSoFar graphId s inst) (hshrink : Shrinks graphId s s') :
    ReadSoFar graphId s' inst := by
  unfold ReadSoFar at h ⊢
  cases hphase : inst.phase with
  | hydrateList =>
    rw [hphase] at h
    exact fun op hop => h (hshrink.base hop)
  | hydrateLoad keys =>
    rw [hphase] at h
    exact ⟨fun op hop => h.1 (hshrink.base hop),
      fun key hkey hnot op hop => h.2 key hkey hnot (hshrink.delta key hkey hop)⟩
  | _ =>
    rw [hphase] at h
    exact h

/-- What a lease says stays true when the storage gets smaller. -/
theorem InstOk.shrink (h : InstOk graphId s inst lease) (hshrink : Shrinks graphId s s') :
    InstOk graphId s' inst lease where
  held hl op hop := h.held hl op (hshrink.stored hop)
  reading hl := (h.reading hl).shrink hshrink
  saving snapshot hphase := ⟨(h.saving snapshot hphase).1,
    fun hl op hop => (h.saving snapshot hphase).2 hl op (hshrink.stored hop)⟩

/-- Without a lease, only the phase says something, whatever the storage is. -/
theorem InstOk.drop (h : InstOk graphId s inst lease) : InstOk graphId s' inst .none where
  held := nofun
  reading := nofun
  saving snapshot hphase := ⟨(h.saving snapshot hphase).1, nofun⟩

/-- An instance that is not about to save. -/
theorem instOk_notSaving (hphase : ∀ snapshot, inst.phase ≠ .checkpointSave snapshot)
    (hheld : lease = .held → ∀ op, Stored graphId s op → op ∈ inst.loroDoc)
    (hread : lease = .reading → ReadSoFar graphId s inst) : InstOk graphId s inst lease where
  held := hheld
  reading := hread
  saving snapshot h := absurd h (hphase snapshot)

theorem instOk_none (hphase : ∀ snapshot, inst.phase ≠ .checkpointSave snapshot) :
    InstOk graphId s inst .none := instOk_notSaving hphase nofun nofun

theorem instOk_held (hphase : ∀ snapshot, inst.phase ≠ .checkpointSave snapshot)
    (hall : ∀ op, Stored graphId s op → op ∈ inst.loroDoc) : InstOk graphId s inst .held :=
  instOk_notSaving hphase (fun _ => hall) nofun

/-- An instance that is in no call and has no lease. -/
theorem instOk_unleased (doc : Finset Op) : InstOk graphId s ⟨doc, .idle⟩ .none :=
  instOk_none nofun

/-- An instance that is in no call. -/
theorem instOk_idle {doc : Finset Op} (hread : lease ≠ .reading)
    (hheld : lease = .held → ∀ op, Stored graphId s op → op ∈ doc) :
    InstOk graphId s ⟨doc, .idle⟩ lease where
  held := hheld
  reading hl := absurd hl hread
  saving := nofun

/-- An instance outside of a `hydrate` is not reading. -/
theorem InstOk.not_reading (h : InstOk graphId s inst lease)
    (hphase : ¬ ReadSoFar graphId s inst) : lease ≠ .reading :=
  fun hl => hphase (h.reading hl)

end

/-! ### The steps -/

section
omit [DecidableEq Op]
variable {graphId : String} {s : SharedStorage Op I} {lease lease' : I → Lease}

/-- A step that replaces one instance and does not let the storage grow. -/
theorem SharedOk.put (hok : SharedOk graphId s lease) {i : I} {inst : Instance Op}
    {storage : Storage Op} (hshrink : Shrinks graphId s.storage storage)
    (hdeltas : DeltasInBase graphId s.storage → DeltasInBase graphId storage)
    (hothers : ∀ j, j ≠ i → lease' j = lease j)
    (hinst : InstOk graphId storage inst (lease' i))
    (hsaved : AfterSave inst.phase → DeltasInBase graphId storage) :
    SharedOk graphId ({ s with storage }.put i inst) lease' where
  inst j := by
    by_cases hj : j = i
    · subst hj
      simpa [SharedStorage.put] using hinst
    · have hother := (hok.inst j).shrink hshrink
      rw [hothers j hj]
      simpa [SharedStorage.put, Function.update_of_ne hj] using hother
  covered j hj := by
    by_cases hji : j = i
    · subst hji
      exact hsaved (by simpa [SharedStorage.put] using hj)
    · exact hdeltas (hok.covered j (by
        simpa [SharedStorage.put, Function.update_of_ne hji] using hj))

/-- A step that only replaces one instance. -/
theorem SharedOk.putInst (hok : SharedOk graphId s lease) {i : I} {inst : Instance Op}
    (hothers : ∀ j, j ≠ i → lease' j = lease j)
    (hinst : InstOk graphId s.storage inst (lease' i))
    (hsaved : AfterSave inst.phase → DeltasInBase graphId s.storage) :
    SharedOk graphId (s.put i inst) lease' :=
  hok.put (.refl graphId s.storage) id hothers hinst hsaved

/-- A load that succeeds gives the ops under the key. -/
theorem opsAt_of_load {s : Storage Op} {fails : Bool} {key : String} {blob : Blob Op}
    (h : s.load fails key = .ok blob) : opsAt s key = blob.ops := by
  unfold Storage.load at h
  cases fails with
  | true => cases h
  | false =>
    unfold opsAt
    cases hlook : s.lookup key with
    | none => simp [hlook] at h
    | some found =>
      simp only [hlook, Bool.false_eq_true, if_false, Except.ok.injEq] at h
      rw [h]

/-- A key that is not found has no ops. -/
theorem opsAt_of_notFound {s : Storage Op} {fails : Bool} {key : String}
    (h : s.load fails key = .error .notFound) : opsAt s key = ∅ := by
  unfold Storage.load at h
  cases fails with
  | true => cases h
  | false =>
    unfold opsAt
    cases hlook : s.lookup key with
    | none => rfl
    | some found => simp [hlook] at h

/-- Nothing is stored for a graph that has no ops in its base and no delta. -/
theorem not_stored {s : Storage Op} (hbase : opsAt s (baseKey graphId) = ∅)
    (hnone : (s.keys.any fun key => (deltaPrefix graphId).toList.isPrefixOf key.toList) = false)
    (op : Op) : ¬ Stored graphId s op := by
  rintro (hop | ⟨key, hkey, hop⟩)
  · rw [hbase] at hop
    exact absurd hop (Finset.notMem_empty op)
  · by_cases hmem : key ∈ s.keys
    · have hfalse := List.any_eq_false.mp hnone key hmem
      exact hfalse hkey
    · rw [opsAt_of_notMem hmem] at hop
      exact absurd hop (Finset.notMem_empty op)

/-- When `hydrate` takes the graph for a fresh one, a held lease is right. -/
theorem baseLease_fresh {s : Storage Op} {fails : Bool} {doc : Finset Op}
    (hbase : opsAt s (baseKey graphId) = ∅)
    (hlease : baseLease graphId s fails =
      if s.keys.any fun key => (deltaPrefix graphId).toList.isPrefixOf key.toList then .none
      else .held) : InstOk graphId s ⟨doc, .idle⟩ (baseLease graphId s fails) := by
  rw [hlease]
  cases hany : s.keys.any fun key => (deltaPrefix graphId).toList.isPrefixOf key.toList with
  | true => exact instOk_unleased _
  | false => exact instOk_held (by simp) fun op hop => absurd hop (not_stored hbase hany op)

end

/-- The first step of a `hydrate`. -/
theorem instOk_loadBase (graphId : String) (s : SharedStorage Op I) (i : I) (fails : Bool) :
    ∃ inst, s.loadBase graphId i fails = s.put i inst ∧ ¬ AfterSave inst.phase ∧
      InstOk graphId s.storage inst (baseLease graphId s.storage fails) := by
  unfold SharedStorage.loadBase
  cases hload : s.storage.load fails (baseKey graphId) with
  | error kind =>
    refine ⟨_, rfl, id, ?_⟩
    cases kind with
    | notFound =>
      exact baseLease_fresh (opsAt_of_notFound hload) (by unfold baseLease; rw [hload])
    | other =>
      have hlease : baseLease graphId s.storage fails = .none := by
        unfold baseLease
        rw [hload]
      rw [hlease]
      exact instOk_unleased _
  | ok blob =>
    have hops := opsAt_of_load hload
    cases blob with
    | empty =>
      exact ⟨_, rfl, id, baseLease_fresh hops (by unfold baseLease; rw [hload])⟩
    | rejected e =>
      have hlease : baseLease graphId s.storage fails = .none := by
        unfold baseLease
        rw [hload]
      refine ⟨_, rfl, id, ?_⟩
      rw [hlease]
      exact instOk_unleased _
    | wire ops =>
      have hlease : baseLease graphId s.storage fails = .reading := by
        unfold baseLease
        rw [hload]
      refine ⟨⟨(s.instances i).loroDoc ∪ ops, .hydrateList⟩, rfl, id, ?_⟩
      rw [hlease]
      have hread : opsAt s.storage (baseKey graphId) ⊆ (s.instances i).loroDoc ∪ ops := by
        rw [hops]
        exact Finset.subset_union_right
      exact instOk_notSaving (by simp) (by simp) fun _ => hread

/-- Every op that the graph has in `s`, it has in `s'`. -/
def Kept (graphId : String) (s s' : Storage Op) : Prop :=
  ∀ op, Stored graphId s op → Stored graphId s' op

/-- What is shown of every step: the leases are right after it, and nothing is lost. -/
def GoodStep (graphId : String) (s t : SharedStorage Op I) (lease : I → Lease)
    (a : SharedAction Op I) : Prop :=
  SharedOk graphId t (fun j => leaseStep graphId j (lease j) s a) ∧
    Kept graphId s.storage t.storage

section
variable {graphId : String} {s t : SharedStorage Op I} {lease : I → Lease} {i : I}

/-- A larger document has what the smaller one has. -/
theorem InstOk.grow {s : Storage Op} {inst : Instance Op} {lease : Lease}
    (h : InstOk graphId s inst lease) (ops : Finset Op) :
    InstOk graphId s ⟨inst.loroDoc ∪ ops, inst.phase⟩ lease where
  held hl op hop := Finset.mem_union_left _ (h.held hl op hop)
  reading hl := by
    have hread := h.reading hl
    unfold ReadSoFar at hread ⊢
    cases hphase : inst.phase with
    | hydrateList =>
      rw [hphase] at hread
      exact hread.trans Finset.subset_union_left
    | hydrateLoad keys =>
      rw [hphase] at hread
      exact ⟨hread.1.trans Finset.subset_union_left,
        fun key hkey hnot => (hread.2 key hkey hnot).trans Finset.subset_union_left⟩
    | _ =>
      rw [hphase] at hread
      exact hread
  saving snapshot hphase := ⟨(h.saving snapshot hphase).1.trans Finset.subset_union_left,
    (h.saving snapshot hphase).2⟩

theorem goodStep_edit (hok : SharedOk graphId s lease) (ops : Finset Op) :
    GoodStep graphId s
      (s.put i ⟨(s.instances i).loroDoc ∪ ops, (s.instances i).phase⟩) lease (.edit i ops) :=
  ⟨hok.putInst (fun _ _ => rfl) ((hok.inst i).grow ops) (hok.covered i), fun _ hop => hop⟩

omit [DecidableEq Op] in
theorem goodStep_restart (hok : SharedOk graphId s lease) :
    GoodStep graphId s (s.put i ⟨∅, .idle⟩) lease (.restart i) := by
  refine ⟨hok.putInst (fun j hj => if_neg (Ne.symm hj)) ?_ False.elim, fun _ hop => hop⟩
  have hlease : leaseStep graphId i (lease i) s (.restart i) = .none := if_pos rfl
  rw [hlease]
  exact instOk_unleased _

theorem goodStep_hydrate (hok : SharedOk graphId s lease) (fails : Bool) :
    GoodStep graphId s (s.loadBase graphId i fails) lease (.hydrate i fails) := by
  obtain ⟨inst, heq, hafter, hinst⟩ := instOk_loadBase graphId s i fails
  rw [heq]
  refine ⟨hok.putInst (fun j hj => if_neg (Ne.symm hj)) ?_ (fun h => absurd h hafter),
    fun _ hop => hop⟩
  have hlease : leaseStep graphId i (lease i) s (.hydrate i fails)
      = baseLease graphId s.storage fails := if_pos rfl
  rw [hlease]
  exact hinst

omit [DecidableEq Op] in
theorem goodStep_checkpoint (hok : SharedOk graphId s lease)
    (hphase : (s.instances i).phase = .idle) :
    GoodStep graphId s
      (s.put i ⟨(s.instances i).loroDoc, .checkpointSave (s.instances i).loroDoc⟩) lease
      (.checkpoint i) := by
  refine ⟨hok.putInst (fun _ _ => rfl) ?_ False.elim, fun _ hop => hop⟩
  have hold := hok.inst i
  refine ⟨hold.held, fun hl => ?_, ?_⟩
  · have hread := hold.reading hl
    unfold ReadSoFar at hread
    rw [hphase] at hread
    exact hread.elim
  · rintro snapshot ⟨⟩
    exact ⟨fun _ hop => hop, hold.held⟩

/-! ### The storage calls -/

omit [DecidableEq Op] in
/-- A call that ends without a word about the storage. -/
theorem goodStep_end (hok : SharedOk graphId s lease) {a : SharedAction Op I}
    (hothers : ∀ j, j ≠ i → leaseStep graphId j (lease j) s a = lease j)
    (hlease : leaseStep graphId i (lease i) s a = .none ∨
      leaseStep graphId i (lease i) s a = lease i ∧ lease i ≠ .reading) :
    GoodStep graphId s (s.put i ⟨(s.instances i).loroDoc, .idle⟩) lease a := by
  refine ⟨hok.putInst hothers ?_ False.elim, fun _ hop => hop⟩
  rcases hlease with hnone | ⟨hsame, hread⟩
  · rw [hnone]
    exact instOk_unleased _
  · rw [hsame]
    exact instOk_idle hread (hok.inst i).held

theorem goodStep_hydrateList (hok : SharedOk graphId s lease)
    (hphase : (s.instances i).phase = .hydrateList) {fails : Bool}
    (h : s.advance graphId i fails = some t) :
    GoodStep graphId s t lease (.advance i fails) := by
  simp only [SharedStorage.advance, hphase] at h
  have hothers : ∀ j, j ≠ i → leaseStep graphId j (lease j) s (.advance i fails) = lease j := by
    intro j hj
    simp [leaseStep, hphase, hj.symm]
  cases fails with
  | true =>
    obtain rfl := Option.some.inj h
    exact goodStep_end hok hothers (.inl (by simp [leaseStep, hphase]))
  | false =>
    obtain rfl := Option.some.inj h
    have hlist : s.storage.list false (deltaPrefix graphId) = .ok _ := rfl
    have hold := hok.inst i
    refine ⟨hok.putInst hothers ?_ False.elim, fun _ hop => hop⟩
    have hlease : leaseStep graphId i (lease i) s (.advance i false) = lease i := by
      simp [leaseStep, hphase]
    rw [hlease]
    refine instOk_notSaving (by simp) hold.held fun hl => ?_
    have hread := hold.reading hl
    unfold ReadSoFar at hread
    rw [hphase] at hread
    refine ⟨hread, fun key hkey hnot op hop => ?_⟩
    -- a delta key that is not listed has no blob
    rw [List.mem_mergeSort, mem_list hlist] at hnot
    rw [opsAt_of_notMem fun hmem => hnot ⟨hmem, hkey⟩] at hop
    exact absurd hop (Finset.notMem_empty op)

theorem goodStep_hydrateLoad (hok : SharedOk graphId s lease) {keys : List String}
    (hphase : (s.instances i).phase = .hydrateLoad keys) {fails : Bool}
    (h : s.advance graphId i fails = some t) :
    GoodStep graphId s t lease (.advance i fails) := by
  have hold := hok.inst i
  cases keys with
  | nil =>
    simp only [SharedStorage.advance, hphase] at h
    obtain rfl := Option.some.inj h
    have hothers : ∀ j, j ≠ i →
        leaseStep graphId j (lease j) s (.advance i fails) = lease j := by
      intro j hj
      simp [leaseStep, hphase, hj.symm]
    by_cases hread : lease i = .reading
    · -- every listed delta is loaded
      have hlease : leaseStep graphId i (lease i) s (.advance i fails) = .held := by
        simp [leaseStep, hphase, hread]
      refine ⟨hok.putInst hothers ?_ False.elim, fun _ hop => hop⟩
      rw [hlease]
      refine instOk_held (by simp) fun op hop => ?_
      have hsofar := hold.reading hread
      unfold ReadSoFar at hsofar
      rw [hphase] at hsofar
      cases hop with
      | inl hbase => exact hsofar.1 hbase
      | inr hdelta =>
        obtain ⟨key, hkey, hop⟩ := hdelta
        exact hsofar.2 key hkey List.not_mem_nil hop
    · exact goodStep_end hok hothers (.inr ⟨by simp [leaseStep, hphase, hread], hread⟩)
  | cons key rest =>
    simp only [SharedStorage.advance, hphase] at h
    have hothers : ∀ j, j ≠ i →
        leaseStep graphId j (lease j) s (.advance i fails) = lease j := by
      intro j hj
      simp [leaseStep, hphase, hj.symm]
    have hfailed : loadsOps s.storage fails key = false →
        leaseStep graphId i (lease i) s (.advance i fails) = .none := by
      intro hloads
      simp [leaseStep, hphase, hloads]
    cases hload : s.storage.load fails key with
    | error kind =>
      simp only [hload] at h
      obtain rfl := Option.some.inj h
      have hlease := hfailed (by simp [loadsOps, hload])
      refine ⟨hok.putInst hothers ?_ False.elim, fun _ hop => hop⟩
      rw [hlease]
      exact instOk_none (by simp)
    | ok blob =>
      have hops := opsAt_of_load hload
      simp only [hload] at h
      cases blob with
      | empty =>
        obtain rfl := Option.some.inj h
        exact goodStep_end hok hothers (.inl (hfailed (by simp [loadsOps, hload])))
      | rejected e =>
        obtain rfl := Option.some.inj h
        exact goodStep_end hok hothers (.inl (hfailed (by simp [loadsOps, hload])))
      | wire ops =>
        obtain rfl := Option.some.inj h
        have hlease : leaseStep graphId i (lease i) s (.advance i fails) = lease i := by
          simp [leaseStep, hphase, loadsOps, hload]
        refine ⟨hok.putInst hothers ?_ False.elim, fun _ hop => hop⟩
        rw [hlease]
        refine instOk_notSaving (by simp)
          (fun hl op hop => Finset.mem_union_left _ (hold.held hl op hop)) fun hl => ?_
        have hsofar := hold.reading hl
        unfold ReadSoFar at hsofar
        rw [hphase] at hsofar
        refine ⟨hsofar.1.trans Finset.subset_union_left, fun k hk hnot => ?_⟩
        -- the key that is loaded now was the first of those left
        by_cases hkey : k = key
        · rw [hkey, hops]
          exact Finset.subset_union_right
        · exact (hsofar.2 k hk fun hmem => by
            rcases List.mem_cons.mp hmem with h | h
            · exact hkey h
            · exact hnot h).trans Finset.subset_union_left

theorem goodStep_checkpointSave (hok : SharedOk graphId s lease) {snapshot : Finset Op}
    (hphase : (s.instances i).phase = .checkpointSave snapshot) {fails : Bool}
    (hheld : fails = false → lease i = .held) (h : s.advance graphId i fails = some t) :
    GoodStep graphId s t lease (.advance i fails) := by
  have hold := hok.inst i
  simp only [SharedStorage.advance, hphase] at h
  cases fails with
  | true =>
    obtain rfl := Option.some.inj h
    have hread : lease i ≠ .reading := hold.not_reading (by simp [ReadSoFar, hphase])
    have hlease : ∀ j, leaseStep graphId j (lease j) s (.advance i true) = lease j := by
      intro j
      simp [leaseStep, hphase]
    exact goodStep_end hok (fun j _ => hlease j) (.inr ⟨hlease i, hread⟩)
  | false =>
    obtain rfl := Option.some.inj h
    obtain ⟨hsnapshot, hall⟩ := hold.saving snapshot hphase
    have hstored := hall (hheld rfl)
    obtain ⟨hbase, hdelta⟩ := stored_save s.storage snapshot graphId
    -- the snapshot has the deltas too
    have hcovered : DeltasInBase graphId
        (s.storage.insert (baseKey graphId) (.wire snapshot)) := by
      intro key hkey op hop
      rw [hdelta key hkey] at hop
      rw [hbase]
      exact hstored op (.inr ⟨key, hkey, hop⟩)
    have hnew : ∀ op, Stored graphId (s.storage.insert (baseKey graphId) (.wire snapshot)) op →
        op ∈ snapshot := by
      rintro op (hop | ⟨key, hkey, hop⟩)
      · exact hbase ▸ hop
      · rw [hdelta key hkey] at hop
        exact hstored op (.inr ⟨key, hkey, hop⟩)
    refine ⟨⟨fun j => ?_, fun _ _ => hcovered⟩, fun op hop => .inl ?_⟩
    · by_cases hj : j = i
      · -- the instance that saves has all that is stored now
        have hlease : leaseStep graphId j (lease j) s (.advance i false) = .held := by
          rw [hj]
          simp [leaseStep, hphase, hheld rfl]
        rw [hlease, hj]
        have hinst : InstOk graphId (s.storage.insert (baseKey graphId) (.wire snapshot))
            ⟨(s.instances i).loroDoc, .checkpointList⟩ .held :=
          instOk_held (by simp) fun op hop => hsnapshot (hnew op hop)
        simpa [SharedStorage.put] using hinst
      · have hlease : leaseStep graphId j (lease j) s (.advance i false) = .none := by
          simp [leaseStep, hphase, Ne.symm hj]
        rw [hlease]
        have hother : InstOk graphId (s.storage.insert (baseKey graphId) (.wire snapshot))
            (s.instances j) .none := (hok.inst j).drop
        simpa [SharedStorage.put, Function.update_of_ne hj] using hother
    · show op ∈ opsAt (s.storage.insert (baseKey graphId) (.wire snapshot)) (baseKey graphId)
      rw [hbase]
      exact hstored op hop

theorem goodStep_checkpointList (hok : SharedOk graphId s lease)
    (hphase : (s.instances i).phase = .checkpointList) {fails : Bool}
    (h : s.advance graphId i fails = some t) :
    GoodStep graphId s t lease (.advance i fails) := by
  have hold := hok.inst i
  have hread : lease i ≠ .reading := hold.not_reading (by simp [ReadSoFar, hphase])
  have hlease : ∀ j, leaseStep graphId j (lease j) s (.advance i fails) = lease j := by
    intro j
    simp [leaseStep, hphase]
  simp only [SharedStorage.advance, hphase] at h
  cases hlist : s.storage.list fails (deltaPrefix graphId) with
  | error kind =>
    simp only [hlist] at h
    obtain rfl := Option.some.inj h
    exact goodStep_end hok (fun j _ => hlease j) (.inr ⟨hlease i, hread⟩)
  | ok keys =>
    simp only [hlist] at h
    obtain rfl := Option.some.inj h
    have hsaved : AfterSave (s.instances i).phase := by
      rw [hphase]
      trivial
    refine ⟨hok.putInst (fun j _ => hlease j) ?_ (fun _ => hok.covered i hsaved),
      fun _ hop => hop⟩
    rw [hlease]
    exact instOk_notSaving (by simp) hold.held fun hl => absurd hl hread

theorem goodStep_checkpointDelete (hok : SharedOk graphId s lease)
    (hdel : DeletesDeltas graphId s) {keys : List String}
    (hphase : (s.instances i).phase = .checkpointDelete keys) {fails : Bool}
    (h : s.advance graphId i fails = some t) :
    GoodStep graphId s t lease (.advance i fails) := by
  have hold := hok.inst i
  have hread : lease i ≠ .reading := hold.not_reading (by simp [ReadSoFar, hphase])
  have hlease : ∀ j, leaseStep graphId j (lease j) s (.advance i fails) = lease j := by
    intro j
    simp [leaseStep, hphase]
  cases keys with
  | nil =>
    simp only [SharedStorage.advance, hphase] at h
    obtain rfl := Option.some.inj h
    exact goodStep_end hok (fun j _ => hlease j) (.inr ⟨hlease i, hread⟩)
  | cons key rest =>
    simp only [SharedStorage.advance, hphase] at h
    obtain rfl := Option.some.inj h
    have hdelta : IsDeltaKey graphId key := hdel i _ hphase key List.mem_cons_self
    have hsaved : AfterSave (s.instances i).phase := by
      rw [hphase]
      trivial
    have hcovered := hok.covered i hsaved
    have hbase := opsAt_delete_base s.storage fails hdelta
    have hshrink := shrinks_delete graphId s.storage fails key
    have hdeltas : DeltasInBase graphId (s.storage.delete fails key).2 := by
      intro k hk
      rw [hbase]
      exact (hshrink.delta k hk).trans (hcovered k hk)
    refine ⟨hok.put hshrink (fun _ => hdeltas) (fun j _ => hlease j) ?_ (fun _ => hdeltas), ?_⟩
    · rw [hlease]
      exact instOk_notSaving (by simp) (fun hl op hop => hold.held hl op (hshrink.stored hop))
        fun hl => absurd hl hread
    · -- what is deleted is in the base
      rintro op (hop | ⟨k, hk, hop⟩)
      · exact .inl (hbase ▸ hop)
      · exact .inl (hbase ▸ hcovered k hk hop)

/-- Every step, when a save is made under a held lease. -/
theorem goodStep_next (hok : SharedOk graphId s lease) (hdel : DeletesDeltas graphId s)
    {a : SharedAction Op I}
    (hheld : ∀ i snapshot, a = .advance i false →
      (s.instances i).phase = .checkpointSave snapshot → lease i = .held)
    (h : s.next graphId a = some t) : GoodStep graphId s t lease a := by
  cases a with
  | edit i ops =>
    obtain rfl := Option.some.inj h
    exact goodStep_edit hok ops
  | restart i =>
    obtain rfl := Option.some.inj h
    exact goodStep_restart hok
  | hydrate i fails =>
    obtain ⟨-, rfl⟩ := next_hydrate h
    exact goodStep_hydrate hok fails
  | checkpoint i =>
    obtain ⟨hphase, rfl⟩ := next_checkpoint h
    exact goodStep_checkpoint hok hphase
  | advance i fails =>
    cases hphase : (s.instances i).phase with
    | idle => simp [SharedStorage.next, SharedStorage.advance, hphase] at h
    | hydrateList => exact goodStep_hydrateList hok hphase h
    | hydrateLoad keys => exact goodStep_hydrateLoad hok hphase h
    | checkpointSave snapshot =>
      refine goodStep_checkpointSave hok hphase (fun hfails => ?_) h
      exact hheld i snapshot (by rw [hfails]) hphase
    | checkpointList => exact goodStep_checkpointList hok hphase h
    | checkpointDelete keys => exact goodStep_checkpointDelete hok hdel hphase h

end

/-! ### Runs -/

section
variable {graphId : String} {s t : SharedStorage Op I}
  {h : List (SharedStorage Op I × SharedAction Op I)}

omit [DecidableEq Op] in
theorem leaseAfter_snoc (graphId : String) (h : List (SharedStorage Op I × SharedAction Op I))
    (s : SharedStorage Op I) (a : SharedAction Op I) (i : I) :
    leaseAfter graphId (h ++ [(s, a)]) i = leaseStep graphId i (leaseAfter graphId h i) s a := by
  simp [leaseAfter]

/-- In a run of leased saves, the leases are right in the end, and what is stored in any state
is stored in the end. -/
theorem leased_run (hrun : Exec (SharedStorage.next graphId) s h t)
    (hidle : ∀ i, (s.instances i).phase = .idle) (hleased : StepsAfter (LeasedSave graphId) h) :
    SharedOk graphId t (leaseAfter graphId h) ∧ DeletesDeltas graphId t ∧
      ∀ p ∈ h, Kept graphId p.1.storage t.storage := by
  induction hrun with
  | nil =>
    refine ⟨⟨fun i => ?_, fun i hafter => ?_⟩, deletesDeltas_idle graphId hidle,
      fun p hp => absurd hp List.not_mem_nil⟩
    · refine instOk_none fun snapshot hphase => ?_
      rw [hidle i] at hphase
      cases hphase
    · rw [hidle i] at hafter
      exact hafter.elim
  | @snoc h u v a prev step ih =>
    obtain ⟨hbefore, hlast⟩ := stepsAfter_snoc.mp hleased
    obtain ⟨hok, hdel, hkept⟩ := ih hbefore
    have hheld : ∀ i snapshot, a = .advance i false →
        (u.instances i).phase = .checkpointSave snapshot → leaseAfter graphId h i = .held := by
      rintro i snapshot rfl hphase
      exact hlast snapshot hphase
    obtain ⟨hok', hkept'⟩ := goodStep_next hok hdel hheld step
    refine ⟨?_, (next_storage hdel step).1, fun p hp => ?_⟩
    · have hlease : leaseAfter graphId (h ++ [(u, a)])
          = fun j => leaseStep graphId j (leaseAfter graphId h j) u a :=
        funext (leaseAfter_snoc graphId h u a)
      rw [hlease]
      exact hok'
    · rcases List.mem_append.mp hp with hp | hp
      · exact fun op hop => hkept' op (hkept p hp op hop)
      · rw [List.mem_singleton.mp hp]
        exact hkept'

/-! ### Main results -/

section
variable {graphId : String} {s t : SharedStorage Op I}
  {h : List (SharedStorage Op I × SharedAction Op I)}

/-- In every run of any number of instances, whatever storage calls fail: when every save is made
under a held lease, every op that was ever stored is stored in the end, and an instance with a
held lease has all that is stored in its document. -/
theorem leased_saves_keep (hrun : Exec (SharedStorage.next graphId) s h t)
    (hidle : ∀ i, (s.instances i).phase = .idle) (hleased : StepsAfter (LeasedSave graphId) h) :
    (∀ p ∈ h, ∀ op, Stored graphId p.1.storage op → Stored graphId t.storage op) ∧
      ∀ i, leaseAfter graphId h i = .held →
        ∀ op, Stored graphId t.storage op → op ∈ (t.instances i).loroDoc := by
  obtain ⟨hok, -, hkept⟩ := leased_run hrun hidle hleased
  exact ⟨hkept, fun i hheld => (hok.inst i).held hheld⟩

end

end

/-- The turn of a new instance on the graph `g`, which has only a base: it reads the storage, adds
ops and saves all of it. -/
theorem exec_turn {s : SharedStorage Nat Bool}
    {h : List (SharedStorage Nat Bool × SharedAction Nat Bool)} {inst : Bool → Instance Nat}
    (ops new : Finset Nat) (i : Bool)
    (hrun : Exec (SharedStorage.next "g") s h ⟨onlyBase ops, inst⟩)
    (hleased : StepsAfter (LeasedSave "g") h) (hinst : inst i = ⟨∅, .idle⟩) :
    ∃ h', Exec (SharedStorage.next "g") s h'
        (SharedStorage.put ⟨onlyBase (ops ∪ new), inst⟩ i ⟨ops ∪ new, .checkpointList⟩) ∧
      StepsAfter (LeasedSave "g") h' ∧ (⟨onlyBase ops, inst⟩, .hydrate i false) ∈ h' := by
  let st := SharedStorage.put ⟨onlyBase ops, inst⟩ i
  have h1 : SharedStorage.next "g" ⟨onlyBase ops, inst⟩ (.hydrate i false)
      = some (st ⟨ops, .hydrateList⟩) := by
    simp only [SharedStorage.next, SharedStorage.loadBase, hinst]
    show some (SharedStorage.put _ i ⟨∅ ∪ ops, .hydrateList⟩) = _
    rw [Finset.empty_union]
  have h2 : SharedStorage.next "g" (st ⟨ops, .hydrateList⟩) (.advance i false)
      = some (st ⟨ops, .hydrateLoad []⟩) := by
    have hlisted := advance_hydrateList (s := st ⟨ops, .hydrateList⟩) (i := i) (by simp [st])
      (list_onlyBase ops)
    rw [List.mergeSort_nil] at hlisted
    simpa [st] using hlisted
  have h3 : SharedStorage.next "g" (st ⟨ops, .hydrateLoad []⟩) (.advance i false)
      = some (st ⟨ops, .idle⟩) := by
    simp [SharedStorage.next, SharedStorage.advance, st]
  have h4 : SharedStorage.next "g" (st ⟨ops, .idle⟩) (.edit i new)
      = some (st ⟨ops ∪ new, .idle⟩) := by
    simp [SharedStorage.next, st]
  have h5 : SharedStorage.next "g" (st ⟨ops ∪ new, .idle⟩) (.checkpoint i)
      = some (st ⟨ops ∪ new, .checkpointSave (ops ∪ new)⟩) := by
    simp [SharedStorage.next, st]
  have h6 : SharedStorage.next "g" (st ⟨ops ∪ new, .checkpointSave (ops ∪ new)⟩)
      (.advance i false) = some (SharedStorage.put ⟨onlyBase (ops ∪ new), inst⟩ i
        ⟨ops ∪ new, .checkpointList⟩) := by
    have hsave : (onlyBase ops).save false (baseKey "g") (.wire (ops ∪ new))
        = (.ok (), onlyBase (ops ∪ new)) := rfl
    simp [SharedStorage.next, SharedStorage.advance, st, hsave]
  refine ⟨_, (((((hrun.snoc h1).snoc h2).snoc h3).snoc h4).snoc h5).snoc h6, ?_, by simp⟩
  simp only [stepsAfter_snoc]
  refine ⟨⟨⟨⟨⟨⟨hleased, trivial⟩, ?_⟩, ?_⟩, trivial⟩, trivial⟩, fun _ _ => ?_⟩
  · intro snapshot hphase
    simp [st] at hphase
  · intro snapshot hphase
    simp [st] at hphase
  · -- the lease is held from the end of the read
    have hbase : baseLease "g" (onlyBase ops) false = .reading := rfl
    simp only [leaseAfter_snoc]
    simp [leaseStep, st, hbase]

/-- Two instances take turns: each reads the base, adds an op and saves all it has. -/
theorem leased_saves_keep_turns :
    ∃ h u, Exec (SharedStorage.next "g") (both (onlyBase {1}) ⟨∅, .idle⟩ ⟨∅, .idle⟩) h u ∧
      (∃ p ∈ h, p.1.storage = onlyBase {1, 2}) ∧ u.storage = onlyBase {1, 2, 3} ∧
      ∀ p ∈ h, ∀ op, Stored "g" p.1.storage op → Stored "g" u.storage op := by
  let s := both (onlyBase {1}) ⟨∅, .idle⟩ ⟨∅, .idle⟩
  have hidle : ∀ j, (s.instances j).phase = .idle := by
    intro j
    cases j <;> rfl
  obtain ⟨h, hfirst, hleased, -⟩ :=
    exec_turn {1} {2} true (Exec.nil (s := s)) stepsAfter_nil rfl
  obtain ⟨h', hsecond, hleased', hstart⟩ := exec_turn ({1} ∪ {2}) {3} false hfirst hleased rfl
  exact ⟨h', _, hsecond, ⟨_, hstart, rfl⟩, rfl, (leased_saves_keep hsecond hidle hleased').1⟩

end GrafeoLoro.Proofs
