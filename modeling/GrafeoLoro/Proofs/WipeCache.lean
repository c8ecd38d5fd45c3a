import GrafeoLoro.Bridge.WipeCache
import Mathlib.Order.MinMax

/-!
# `GrafeoLoro.Proofs.WipeCache`: what a wipe lets through

A wipe bumps the epoch before it drains the queue, and nothing holds the two together. Between
them, a reconnect handler that has matched the new epoch can take the ops of the old lineage,
and a caller that has seen the new epoch can enqueue an op that the drain discards.

`LineageOk` ties the records of the state to the queue: a dirty bump is one with an older op
still in the queue, and `newest` is what the callers of the queued ops have seen at most.

* `queued_bytes`: the records follow the queue.
* `cleanCut_iff`: every state of a run is clean exactly when every drain of a caller comes after
  a drain that followed the bump it has matched, unless that bump found the queue empty, and
  every drain of a wipe finds no op of a caller that had seen the epoch of the wipe.
* `wipe_lets_through`: a stale op is replayed, and a fresh one is lost.
-/

set_option autoImplicit false

namespace GrafeoLoro.Proofs

open GrafeoLoro GrafeoLoro.Lib

/-- No returned op is older than the bump that the caller of the drain had matched. -/
def NoStaleReplay (s : Lineage) : Prop := ∀ e ∈ s.returned, e.2 ≤ e.1.enqueuedAt

/-- No op that a wipe discarded is of a caller that had seen the epoch of the wipe. -/
def NoFreshLoss (s : Lineage) : Prop := ∀ e ∈ s.discarded, e.1.observed < e.2

/-- Both. -/
def CleanCut (s : Lineage) : Prop := NoStaleReplay s ∧ NoFreshLoss s

/-- A caller drains the queue only if the bump it has matched found the queue empty, or a drain
has followed that bump. A wipe drains the queue only if no op accepted after the last drain is
of a caller that had seen the epoch of the wipe. -/
def InOrder (s : Lineage) : LineageAction → Prop
  | .drainOfflineQueue thread => s.matched thread ∉ s.dirty
  | .wipeDrain thread => ∀ n, s.wiping thread = some (.bumped n) → s.newest < n
  | _ => True

/-- The records agree with the queue. -/
structure LineageOk (s : Lineage) : Prop where
  bytes : s.queued.map QueuedOp.bytes = s.queue.ops
  matched : ∀ thread, s.matched thread ≤ s.bumps
  dirty : ∀ m, m ∈ s.dirty ↔ m ≤ s.bumps ∧ ∃ op ∈ s.queued, op.enqueuedAt < m
  enqueuedAt : ∀ op ∈ s.queued, op.enqueuedAt ≤ s.bumps
  newest : ∀ n, 0 < n → (n ≤ s.newest ↔ ∃ op ∈ s.queued, n ≤ op.observed)
  bumped : ∀ thread n, s.wiping thread = some (.bumped n) → 0 < n

/-! ### The records -/

theorem lineageOk_init (tracker : EpochTracker) (queue : OfflineOpQueue) :
    LineageOk (Lineage.init tracker queue) where
  bytes := by
    show (queue.ops.map fun bytes => (⟨bytes, 0, 0⟩ : QueuedOp)).map QueuedOp.bytes = queue.ops
    rw [List.map_map]
    exact List.map_id queue.ops
  matched _ := Nat.le_refl 0
  dirty m := by
    constructor
    · exact fun h => absurd h List.not_mem_nil
    · rintro ⟨hm, op, -, hop⟩
      have hzero : m ≤ 0 := hm
      omega
  enqueuedAt op hop := by
    obtain ⟨bytes, -, rfl⟩ := List.mem_map.mp hop
    exact Nat.le_refl 0
  newest n hn := by
    constructor
    · intro h
      have hzero : n ≤ 0 := h
      omega
    · rintro ⟨op, hop, hle⟩
      obtain ⟨bytes, -, rfl⟩ := List.mem_map.mp hop
      exact hle
  bumped _ _ h := by cases h

/-- Reading the epoch touches no record of the queue. -/
theorem LineageOk.observe {s : Lineage} (h : LineageOk s) (thread : Nat) :
    LineageOk (s.observe thread) :=
  ⟨h.bytes, h.matched, h.dirty, h.enqueuedAt, h.newest, h.bumped⟩

/-- A match records the bumps so far. -/
theorem LineageOk.checkEpochMatch {s : Lineage} (h : LineageOk s) (thread : Nat)
    (remoteEpoch : LineageEpoch) : LineageOk (s.checkEpochMatch thread remoteEpoch).2 := by
  unfold Lineage.checkEpochMatch
  split
  · refine ⟨h.bytes, fun thread' => ?_, h.dirty, h.enqueuedAt, h.newest, h.bumped⟩
    show Function.update s.matched thread s.bumps thread' ≤ s.bumps
    by_cases hthread : thread' = thread
    · subst hthread
      exact (Function.update_self thread' s.bumps s.matched).le
    · rw [Function.update_of_ne hthread]
      exact h.matched thread'
  · exact h.observe thread

/-- What `enqueue` does to the queue: it appends the op, or it refuses it. -/
theorem enqueue_cases (opBytes : List UInt8) (q : OfflineOpQueue) :
    (∃ q', q.enqueue opBytes = (.ok (), q') ∧ q'.ops = q.ops ++ [opBytes]) ∨
      ∃ e, q.enqueue opBytes = (.error e, q) := by
  unfold OfflineOpQueue.enqueue
  dsimp only
  split
  · exact .inr ⟨_, rfl⟩
  · split
    · exact .inr ⟨_, rfl⟩
    · exact .inl ⟨_, rfl, rfl⟩

/-- An accepted op is as old as the last bump, and one more caller counts for `newest`. -/
theorem LineageOk.enqueueOfflineOp {s : Lineage} (h : LineageOk s) (thread : Nat)
    (opBytes : List UInt8) : LineageOk (s.enqueueOfflineOp thread opBytes).2 := by
  unfold Lineage.enqueueOfflineOp
  cases enqueue_cases opBytes s.queue with
  | inr herror =>
    obtain ⟨e, herror⟩ := herror
    rw [herror]
    exact ⟨h.bytes, h.matched, h.dirty, h.enqueuedAt, h.newest, h.bumped⟩
  | inl hok =>
    obtain ⟨q', hq, hops⟩ := hok
    rw [hq]
    constructor
    case bytes =>
      show (s.queued ++ [_]).map QueuedOp.bytes = q'.ops
      rw [List.map_append, h.bytes, hops]
      rfl
    case matched => exact h.matched
    case dirty =>
      intro m
      show m ∈ s.dirty ↔ m ≤ s.bumps ∧ ∃ op ∈ s.queued ++ [_], op.enqueuedAt < m
      rw [h.dirty m]
      simp only [List.mem_append, List.mem_singleton, or_and_right, exists_or, exists_eq_left]
      -- the new op is older than no bump so far
      exact and_congr_right fun hm => (or_iff_left (Nat.not_lt_of_le hm)).symm
    case enqueuedAt =>
      intro op hop
      cases List.mem_append.mp hop with
      | inl hop => exact h.enqueuedAt op hop
      | inr heq =>
        have hat : op.enqueuedAt = s.bumps := by rw [List.mem_singleton.mp heq]
        exact hat.le
    case newest =>
      intro n hn
      show n ≤ max s.newest (s.observed thread) ↔ ∃ op ∈ s.queued ++ [_], n ≤ op.observed
      rw [le_max_iff, h.newest n hn]
      simp only [List.mem_append, List.mem_singleton, or_and_right, exists_or, exists_eq_left]
    case bumped => exact h.bumped

/-- After a drain there is nothing to record. -/
theorem LineageOk.drained {s : Lineage} (h : LineageOk s) : LineageOk s.drained where
  bytes := rfl
  matched := h.matched
  dirty m := by
    constructor
    · exact fun hm => absurd hm List.not_mem_nil
    · rintro ⟨-, op, hop, -⟩
      exact absurd hop List.not_mem_nil
  enqueuedAt op hop := absurd hop List.not_mem_nil
  newest n hn := by
    constructor
    · intro hle
      have hzero : n ≤ 0 := hle
      omega
    · rintro ⟨op, hop, -⟩
      exact absurd hop List.not_mem_nil
  bumped := h.bumped

/-- A phase of one thread changes: its number is positive, and so are the others. -/
theorem bumped_update {s : Lineage} (h : LineageOk s) {thread : Nat}
    {phase : Option WipePhase} (hphase : ∀ n, phase = some (.bumped n) → 0 < n) :
    ∀ thread' n, Function.update s.wiping thread phase thread' = some (.bumped n) → 0 < n := by
  intro thread' n hn
  by_cases hthread : thread' = thread
  · subst hthread
    rw [Function.update_self] at hn
    exact hphase n hn
  · rw [Function.update_of_ne hthread] at hn
    exact h.bumped thread' n hn

/-- A bump makes every queued op an older one. -/
theorem LineageOk.wipeBump {s : Lineage} (h : LineageOk s) (overflowChecks : Bool)
    (thread : Nat) : LineageOk (s.wipeBump overflowChecks thread) := by
  constructor
  case bytes => exact h.bytes
  case matched => exact fun thread' => Nat.le_succ_of_le (h.matched thread')
  case dirty =>
    intro m
    show (m ∈ if s.queued.isEmpty then s.dirty else (s.bumps + 1) :: s.dirty) ↔
      m ≤ s.bumps + 1 ∧ ∃ op ∈ s.queued, op.enqueuedAt < m
    have hold := h.dirty m
    cases hqueued : s.queued with
    | nil =>
      -- without a queued op, no bump is dirty
      rw [hqueued] at hold
      simpa using hold
    | cons op rest =>
      rw [← hqueued]
      have hop : op ∈ s.queued := by
        rw [hqueued]
        exact List.mem_cons_self
      have hempty : s.queued.isEmpty = false := by rw [hqueued]; rfl
      rw [hempty]
      simp only [Bool.false_eq_true, if_false, List.mem_cons]
      rw [hold]
      constructor
      · intro hm
        cases hm with
        | inl heq =>
          have hat := h.enqueuedAt op hop
          exact ⟨by omega, op, hop, by omega⟩
        | inr hm => exact ⟨Nat.le_succ_of_le hm.1, hm.2⟩
      · rintro ⟨hm, hex⟩
        -- the new bump is dirty, and the older ones are as before
        by_cases heq : m = s.bumps + 1
        · exact .inl heq
        · exact .inr ⟨by omega, hex⟩
  case enqueuedAt => exact fun op hop => Nat.le_succ_of_le (h.enqueuedAt op hop)
  case newest => exact h.newest
  case bumped =>
    apply bumped_update h
    intro n hn
    obtain ⟨epoch, -, hphase⟩ := Option.map_eq_some_iff.mp hn
    obtain rfl := WipePhase.bumped.inj hphase
    exact Nat.succ_pos s.bumps

/-- The seven steps, with the guard of each. -/
theorem lineageStep_cases {s t : Lineage} {a : LineageAction} {overflowChecks : Bool}
    (hstep : s.next overflowChecks a = some t) :
    (∃ thread, a = .lineageEpoch thread ∧ (s.wiping thread).isNone ∧ t = s.observe thread) ∨
    (∃ thread remoteEpoch, a = .checkEpochMatch thread remoteEpoch ∧
      (s.wiping thread).isNone ∧ t = (s.checkEpochMatch thread remoteEpoch).2) ∨
    (∃ thread opBytes, a = .enqueueOfflineOp thread opBytes ∧ (s.wiping thread).isNone ∧
      t = (s.enqueueOfflineOp thread opBytes).2) ∨
    (∃ thread, a = .drainOfflineQueue thread ∧ (s.wiping thread).isNone ∧
      t = (s.drainOfflineQueue thread).2) ∨
    (∃ thread, a = .wipeBump thread ∧ (s.wiping thread).isNone ∧
      t = s.wipeBump overflowChecks thread) ∨
    (∃ thread n, a = .wipeDrain thread ∧ s.wiping thread = some (.bumped n) ∧
      t = s.wipeDrain thread n) ∨
    ∃ thread n, a = .wipeReset thread ∧ s.wiping thread = some (.drained n) ∧
      t = s.wipeReset thread n := by
  cases a with
  | lineageEpoch thread =>
    obtain ⟨hidle, ht⟩ := Option.ite_none_right_eq_some.mp hstep
    exact .inl ⟨thread, rfl, hidle, (Option.some.inj ht).symm⟩
  | checkEpochMatch thread remoteEpoch =>
    obtain ⟨hidle, ht⟩ := Option.ite_none_right_eq_some.mp hstep
    exact .inr (.inl ⟨thread, remoteEpoch, rfl, hidle, (Option.some.inj ht).symm⟩)
  | enqueueOfflineOp thread opBytes =>
    obtain ⟨hidle, ht⟩ := Option.ite_none_right_eq_some.mp hstep
    exact .inr (.inr (.inl ⟨thread, opBytes, rfl, hidle, (Option.some.inj ht).symm⟩))
  | drainOfflineQueue thread =>
    obtain ⟨hidle, ht⟩ := Option.ite_none_right_eq_some.mp hstep
    exact .inr (.inr (.inr (.inl ⟨thread, rfl, hidle, (Option.some.inj ht).symm⟩)))
  | wipeBump thread =>
    obtain ⟨hidle, ht⟩ := Option.ite_none_right_eq_some.mp hstep
    exact .inr (.inr (.inr (.inr (.inl ⟨thread, rfl, hidle, (Option.some.inj ht).symm⟩))))
  | wipeDrain thread =>
    rw [Lineage.next] at hstep
    split at hstep
    · rename_i n hphase
      obtain rfl := Option.some.inj hstep
      exact .inr (.inr (.inr (.inr (.inr (.inl ⟨thread, n, rfl, hphase, rfl⟩)))))
    · cases hstep
  | wipeReset thread =>
    rw [Lineage.next] at hstep
    split at hstep
    · rename_i n hphase
      obtain rfl := Option.some.inj hstep
      exact .inr (.inr (.inr (.inr (.inr (.inr ⟨thread, n, rfl, hphase, rfl⟩)))))
    · cases hstep

/-- Every step keeps the records. -/
theorem LineageOk.next {s t : Lineage} {a : LineageAction} {overflowChecks : Bool}
    (h : LineageOk s) (hstep : s.next overflowChecks a = some t) : LineageOk t := by
  rcases lineageStep_cases hstep with ⟨thread, -, -, rfl⟩ | ⟨thread, remoteEpoch, -, -, rfl⟩ |
    ⟨thread, opBytes, -, -, rfl⟩ | ⟨thread, -, -, rfl⟩ | ⟨thread, -, -, rfl⟩ |
    ⟨thread, n, -, -, rfl⟩ | ⟨thread, n, -, -, rfl⟩
  · exact h.observe thread
  · exact h.checkEpochMatch thread remoteEpoch
  · exact h.enqueueOfflineOp thread opBytes
  · exact ⟨h.drained.bytes, h.drained.matched, h.drained.dirty, h.drained.enqueuedAt,
      h.drained.newest, h.drained.bumped⟩
  · exact h.wipeBump overflowChecks thread
  · -- the phase of the thread is no longer that of a bump
    exact ⟨h.drained.bytes, h.drained.matched, h.drained.dirty, h.drained.enqueuedAt,
      h.drained.newest, bumped_update h fun n hn => by cases hn⟩
  · exact ⟨h.bytes, h.matched, h.dirty, h.enqueuedAt, h.newest,
      bumped_update h fun n hn => by cases hn⟩

/-- The records follow the queue: in every state of a run, they hold the bytes of the queue. -/
theorem queued_bytes {overflowChecks : Bool} {tracker : EpochTracker} {queue : OfflineOpQueue}
    {h : List (Lineage × LineageAction)} {t : Lineage}
    (hrun : Exec (Lineage.next overflowChecks) (Lineage.init tracker queue) h t) :
    t.queued.map QueuedOp.bytes = t.queue.ops :=
  (hrun.invariant (fun _ _ _ hstep hok => hok.next hstep) (lineageOk_init tracker queue)).bytes

/-! ### The clean cut -/

/-- A drain of a caller returns no stale op exactly when the bump that the caller has matched is
not dirty. -/
theorem noStaleReplay_drain {s : Lineage} (h : LineageOk s) (hclean : NoStaleReplay s)
    (thread : Nat) :
    NoStaleReplay (s.drainOfflineQueue thread).2 ↔ s.matched thread ∉ s.dirty := by
  rw [h.dirty]
  constructor
  · rintro hafter ⟨-, op, hop, hlt⟩
    have hle := hafter (op, s.matched thread)
      (List.mem_append_right _ (List.mem_map.mpr ⟨op, hop, rfl⟩))
    exact absurd hlt (Nat.not_lt.mpr hle)
  · intro hdirty e he
    cases List.mem_append.mp he with
    | inl hold => exact hclean e hold
    | inr hnew =>
      obtain ⟨op, hop, rfl⟩ := List.mem_map.mp hnew
      exact Nat.not_lt.mp fun hlt => hdirty ⟨h.matched thread, op, hop, hlt⟩

/-- A drain of a wipe discards no fresh op exactly when no caller of a queued op had seen its
epoch. -/
theorem noFreshLoss_drain {s : Lineage} (h : LineageOk s) (hclean : NoFreshLoss s)
    (thread : Nat) {n : Nat} (hn : 0 < n) :
    NoFreshLoss (s.wipeDrain thread n) ↔ s.newest < n := by
  have hnewest := h.newest n hn
  constructor
  · intro hafter
    apply Nat.not_le.mp
    intro hle
    obtain ⟨op, hop, hseen⟩ := hnewest.mp hle
    have hlt := hafter (op, n)
      (List.mem_append_right _ (List.mem_map.mpr ⟨op, hop, rfl⟩))
    exact absurd hlt (Nat.not_lt.mpr hseen)
  · intro hlt e he
    cases List.mem_append.mp he with
    | inl hold => exact hclean e hold
    | inr hnew =>
      obtain ⟨op, hop, rfl⟩ := List.mem_map.mp hnew
      exact Nat.not_le.mp fun hseen =>
        absurd (hnewest.mpr ⟨op, hop, hseen⟩) (Nat.not_le.mpr hlt)

/-- A step from a clean state leads to a clean one exactly when it is in order. -/
theorem cleanCut_step {s t : Lineage} {a : LineageAction} {overflowChecks : Bool}
    (hstep : s.next overflowChecks a = some t) (h : LineageOk s) (hclean : CleanCut s) :
    CleanCut t ↔ InOrder s a := by
  rcases lineageStep_cases hstep with ⟨thread, rfl, -, rfl⟩ |
    ⟨thread, remoteEpoch, rfl, -, rfl⟩ | ⟨thread, opBytes, rfl, -, rfl⟩ | ⟨thread, rfl, -, rfl⟩ |
    ⟨thread, rfl, -, rfl⟩ | ⟨thread, n, rfl, hphase, rfl⟩ | ⟨thread, n, rfl, -, rfl⟩
  · exact iff_of_true hclean trivial
  · -- a check returns and discards nothing, whatever it says
    refine iff_of_true ?_ trivial
    unfold Lineage.checkEpochMatch
    split
    · exact hclean
    · exact hclean
  · refine iff_of_true ?_ trivial
    unfold Lineage.enqueueOfflineOp
    split
    · exact hclean
    · exact hclean
  · have hstale := noStaleReplay_drain h hclean.1 thread
    exact ⟨fun hafter => hstale.mp hafter.1, fun horder => ⟨hstale.mpr horder, hclean.2⟩⟩
  · exact iff_of_true hclean trivial
  · have hfresh := noFreshLoss_drain h hclean.2 thread (h.bumped thread n hphase)
    constructor
    · -- the condition is about the phase that the step has found
      intro hafter n' hphase'
      obtain rfl := WipePhase.bumped.inj (Option.some.inj (hphase.symm.trans hphase'))
      exact hfresh.mp hafter.2
    · exact fun horder => ⟨hclean.1, hfresh.mpr (horder n hphase)⟩
  · exact iff_of_true hclean trivial

/-- In every run of any number of threads, every state is clean exactly when every drain is in
order. -/
theorem cleanCut_iff (overflowChecks : Bool) (tracker : EpochTracker) (queue : OfflineOpQueue)
    (h : List (Lineage × LineageAction)) (t : Lineage)
    (hrun : Exec (Lineage.next overflowChecks) (Lineage.init tracker queue) h t) :
    Always CleanCut h t ↔ Steps InOrder h := by
  have hstart : CleanCut (Lineage.init tracker queue) :=
    ⟨fun _ he => absurd he List.not_mem_nil, fun _ he => absurd he List.not_mem_nil⟩
  exact hrun.always_iff (I := LineageOk) (G := fun _ _ => True)
    (fun s a s' hstep _ hok => hok.next hstep) (lineageOk_init tracker queue) hstart
    (fun s a s' hstep _ hok hclean => cleanCut_step hstep hok hclean) fun _ _ => trivial

/-- A wipe alone, after an op was enqueued: the op is discarded, and its caller had not seen the
new epoch. -/
theorem cleanCut_alone :
    ∃ h t, Exec (Lineage.next true) (Lineage.init .new .new) h t ∧
      h.map Prod.snd = [.enqueueOfflineOp 1 [7], .wipeBump 0, .wipeDrain 0, .wipeReset 0] ∧
      t.discarded = [(⟨[7], 0, 0⟩, 1)] ∧ Always CleanCut h t := by
  have hrun : Exec (Lineage.next true) (Lineage.init .new .new) _ _ :=
    Exec.snoc (Exec.snoc (Exec.snoc (Exec.snoc .nil (a := .enqueueOfflineOp 1 [7]) rfl)
      (a := .wipeBump 0) rfl) (a := .wipeDrain 0) rfl) (a := .wipeReset 0) rfl
  refine ⟨_, _, hrun, rfl, rfl, (cleanCut_iff true .new .new _ _ hrun).mpr ?_⟩
  refine steps_snoc.mpr ⟨steps_snoc.mpr ⟨steps_snoc.mpr ⟨steps_snoc.mpr ⟨steps_nil,
    trivial⟩, trivial⟩, ?_⟩, trivial⟩
  intro n hphase
  obtain rfl := WipePhase.bumped.inj (Option.some.inj hphase)
  exact Nat.one_pos

/-- Between the bump and the drain of a wipe, a caller that has matched the new epoch gets the
op of the old lineage. In another run, an op of a caller that has seen the new epoch is
discarded. -/
theorem wipe_lets_through :
    (∃ h t, Exec (Lineage.next true) (Lineage.init .new .new) h t ∧
      h.map Prod.snd = [.enqueueOfflineOp 1 [7], .wipeBump 0, .checkEpochMatch 1 1,
        .drainOfflineQueue 1] ∧
      t.returned = [(⟨[7], 0, 0⟩, 1)] ∧ ¬ NoStaleReplay t) ∧
    ∃ h t, Exec (Lineage.next true) (Lineage.init .new .new) h t ∧
      h.map Prod.snd = [.wipeBump 0, .lineageEpoch 1, .enqueueOfflineOp 1 [7], .wipeDrain 0] ∧
      t.discarded = [(⟨[7], 1, 1⟩, 1)] ∧ ¬ NoFreshLoss t := by
  constructor
  · have hrun : Exec (Lineage.next true) (Lineage.init .new .new) _ _ :=
      Exec.snoc (Exec.snoc (Exec.snoc (Exec.snoc .nil (a := .enqueueOfflineOp 1 [7]) rfl)
        (a := .wipeBump 0) rfl) (a := .checkEpochMatch 1 1) rfl) (a := .drainOfflineQueue 1) rfl
    refine ⟨_, _, hrun, rfl, rfl, fun hclean => ?_⟩
    have hle := hclean (⟨[7], 0, 0⟩, 1) List.mem_cons_self
    exact absurd hle (by decide)
  · have hrun : Exec (Lineage.next true) (Lineage.init .new .new) _ _ :=
      Exec.snoc (Exec.snoc (Exec.snoc (Exec.snoc .nil (a := .wipeBump 0) rfl)
        (a := .lineageEpoch 1) rfl) (a := .enqueueOfflineOp 1 [7]) rfl) (a := .wipeDrain 0) rfl
    refine ⟨_, _, hrun, rfl, rfl, fun hclean => ?_⟩
    have hlt := hclean (⟨[7], 1, 1⟩, 1) List.mem_cons_self
    exact absurd hlt (by decide)

end GrafeoLoro.Proofs
