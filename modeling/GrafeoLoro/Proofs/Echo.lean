import GrafeoLoro.Proofs.EpochChannel

/-!
# `GrafeoLoro.Proofs.Echo`: which interleavings echo an inbound change

`EchoFree s` says that no event of an inbound flush was applied to Loro. `FilterRecorded` is
the condition on a step of the poller's filter: the event it looks at is not one of a flush
that is between its commit and its insert.

* `echoFree_of_recorded`: every run whose filter steps meet the condition is free of echoes.
* `echo_reachable`: after one step that does not, the run can go on to an echo.
* `echoFree_condition` puts the two together, and `echo_in_window` is the shortest echo.
-/

set_option autoImplicit false

namespace GrafeoLoro.Proofs

open GrafeoLoro GrafeoLoro.Lib

variable {Payload : Type} {inclusive : Bool}

/-- No event of an inbound flush was applied to Loro. -/
def EchoFree (s : EpochChannel Payload) : Prop :=
  ∀ ev ∈ s.applied, ev.epoch ∉ s.inboundEpochs

/-- The event that the poller's filter looks at is not one of an inbound flush that has
committed and not yet inserted its epoch. -/
def FilterRecorded (s : EpochChannel Payload) : EpochAction Payload → Prop
  | .pollerFilter =>
    match s.poller with
    | .filtering _ (ev :: _) => ev.epoch ∉ s.unrecorded
    | _ => True
  | _ => True

/-- No event of an inbound flush passed the poller's filter. -/
def NoneInbound (s : EpochChannel Payload) : Prop :=
  ∀ ev ∈ passed s, ev.epoch ∉ s.inboundEpochs

/-- An epoch that becomes an inbound one in a step is later than all events that have passed. -/
theorem not_new_inbound {s u : EpochChannel Payload} {a : EpochAction Payload}
    (hnext : s.next inclusive a = some u) {ev : ChangeEvent Payload}
    (hle : ev.epoch ≤ s.currentEpoch) (hold : ev.epoch ∉ s.inboundEpochs) :
    ev.epoch ∉ u.inboundEpochs := by
  cases epoch_next_cases hnext with
  | inboundCommit changes =>
    intro hmem
    rcases List.mem_append.mp hmem with hmem | hmem
    · exact hold hmem
    · rw [List.mem_singleton.mp hmem] at hle
      exact Nat.not_succ_le_self _ hle
  | _ => exact hold

/-- The event of an inbound flush is dropped by the filter, once the epoch of the flush is
inserted: the epoch is in the set, and the window of the cycle is not past it. -/
theorem EpochOk.not_inbound {s : EpochChannel Payload} (h : EpochOk s)
    {ev : ChangeEvent Payload} (hwindow : s.lastEpoch ≤ ev.epoch)
    (hrecorded : ev.epoch ∉ s.unrecorded) (hset : ev.epoch ∉ s.bridgeOriginEpochs) :
    ev.epoch ∉ s.inboundEpochs := by
  intro hinbound
  rcases h.recorded _ hinbound with hr | hr | hr
  · exact hrecorded hr
  · exact hset hr
  · have hpos : 0 < epochRetention := by decide
    exact Nat.not_lt_of_le (Nat.le_trans hr hwindow) (Nat.lt_add_of_pos_right hpos)

/-- A step that meets the condition lets no event of an inbound flush pass. -/
theorem noneInbound_step {s u : EpochChannel Payload} {a : EpochAction Payload}
    (hnext : s.next inclusive a = some u) (hcond : FilterRecorded s a)
    (h : EpochOk s ∧ NoneInbound s) : EpochOk u ∧ NoneInbound u := by
  obtain ⟨hok, hnone⟩ := h
  refine ⟨epochOk_step hnext hok, fun ev hev => ?_⟩
  cases mem_passed_step hnext hev with
  | inl hold => exact not_new_inbound hnext (hok.passed ev hold) (hnone ev hold)
  | inr hfilter =>
    obtain ⟨current, events, rfl, hpoller, hset⟩ := hfilter
    have hfetched : ev ∈ fetched s := by simp [fetched, hpoller]
    obtain ⟨hwindow, hle⟩ := hok.fetched ev hfetched
    simp only [FilterRecorded, hpoller] at hcond
    exact not_new_inbound hnext hle (hok.not_inbound hwindow hcond hset)

/-- Every run whose filter steps meet the condition is free of echoes. -/
theorem echoFree_of_recorded {h : List (EpochChannel Payload × EpochAction Payload)}
    {t : EpochChannel Payload}
    (hrun : Exec (EpochChannel.next inclusive) EpochChannel.init h t)
    (hcond : Steps FilterRecorded h) : Always EchoFree h t := by
  have hnone := hrun.invariant_of_steps (I := fun s => EpochOk s ∧ NoneInbound s)
    (fun _ _ _ hnext hc hI => noneInbound_step hnext hc hI)
    ⟨epochOk_init, fun ev hev => by simp [passed, EpochChannel.init] at hev⟩ hcond
  have hfree : ∀ s : EpochChannel Payload, NoneInbound s → EchoFree s :=
    fun s hs ev hev => hs ev (List.mem_append_right _ hev)
  exact ⟨fun p hp => hfree _ (hnone.1 p hp).2, hfree _ hnone.2.2⟩

/-! ### The other direction -/

/-- The outbound worker can empty its channel while the others wait. -/
theorem worker_drains (inclusive : Bool) (outbound : List (ChangeEvent Payload)) :
    ∀ s : EpochChannel Payload, s.outbound = outbound → s.worker = none →
      ∃ h applied, Exec (EpochChannel.next inclusive) s h
        { s with outbound := [], applied := applied } := by
  induction outbound with
  | nil =>
    intro s hout hworker
    refine ⟨[], s.applied, ?_⟩
    rw [← hout]
    exact .nil
  | cons ev rest ih =>
    intro s hout hworker
    by_cases hmem : ev.epoch ∈ s.bridgeOriginEpochs
    · obtain ⟨h, applied, hexec⟩ := ih { s with outbound := rest } rfl hworker
      have hcheck : s.next inclusive .workerCheck = some { s with outbound := rest } := by
        simp only [EpochChannel.next, hworker, hout, hmem, if_true]
      exact ⟨_, applied, (Exec.snoc .nil hcheck).append hexec⟩
    · obtain ⟨h, applied, hexec⟩ := ih
        { s with outbound := rest, applied := s.applied ++ [ev] } rfl hworker
      have hcheck : s.next inclusive .workerCheck
          = some { s with outbound := rest, worker := some ev } := by
        simp only [EpochChannel.next, hworker, hout, hmem, if_false]
      have happly : EpochChannel.next inclusive { s with outbound := rest, worker := some ev }
          .workerApply = some { s with outbound := rest, applied := s.applied ++ [ev] } := by
        simp only [EpochChannel.next, ← hworker]
      exact ⟨_, applied, ((Exec.snoc .nil hcheck).snoc happly).append hexec⟩

/-- The outbound worker can finish its event and empty its channel while the others wait. -/
theorem worker_idles (inclusive : Bool) (s : EpochChannel Payload) :
    ∃ h applied, Exec (EpochChannel.next inclusive) s h
      { s with outbound := [], worker := none, applied := applied } := by
  cases hworker : s.worker with
  | none =>
    obtain ⟨h, applied, hexec⟩ := worker_drains inclusive s.outbound s rfl hworker
    refine ⟨h, applied, ?_⟩
    rw [← hworker]
    exact hexec
  | some ev =>
    have happly : s.next inclusive .workerApply
        = some { s with worker := none, applied := s.applied ++ [ev] } := by
      simp only [EpochChannel.next, hworker]
    obtain ⟨h, applied, hexec⟩ := worker_drains inclusive s.outbound
      { s with worker := none, applied := s.applied ++ [ev] } rfl rfl
    exact ⟨_, applied, (Exec.snoc .nil happly).append hexec⟩

/-- After a filter step on an event whose flush has not inserted its epoch, the event can
reach Loro. -/
theorem echo_reachable {h : List (EpochChannel Payload × EpochAction Payload)}
    {s u : EpochChannel Payload} {a : EpochAction Payload}
    (hrun : Exec (EpochChannel.next inclusive) EpochChannel.init h s)
    (hnext : s.next inclusive a = some u) (hcond : ¬ FilterRecorded s a) :
    ∃ h' v, Exec (EpochChannel.next inclusive) u h' v ∧ ¬ EchoFree v := by
  have hok := epochOk_run hrun
  cases epoch_next_cases hnext with
  | pollerDrop hpoller hmem =>
    simp only [FilterRecorded, hpoller, not_not] at hcond
    exact absurd hmem (hok.unrecorded _ hcond).2
  | @pollerPass current ev events hpoller hmem =>
    simp only [FilterRecorded, hpoller, not_not] at hcond
    have hinbound := (hok.unrecorded _ hcond).1
    obtain ⟨h1, applied, hidle⟩ := worker_idles inclusive
      { s with poller := .sending current ev events, handed := s.handed ++ [ev] }
    -- the channel is empty, so the event goes straight through
    have hsend := Exec.snoc hidle (a := .pollerSend) rfl
    have hcheck : EpochChannel.next inclusive
        { s with
          poller := .filtering current events
          handed := s.handed ++ [ev]
          outbound := [ev]
          worker := none
          applied := applied } .workerCheck
        = some { s with
          poller := .filtering current events
          handed := s.handed ++ [ev]
          outbound := []
          worker := some ev
          applied := applied } := by
      simp only [EpochChannel.next, hmem, if_false]
    have happly := Exec.snoc (hsend.snoc hcheck) (a := .workerApply) rfl
    exact ⟨_, _, happly, fun hfree =>
      hfree ev (List.mem_append_right _ (List.mem_singleton.mpr rfl)) hinbound⟩
  | _ => exact absurd trivial hcond

/-- Every interleaving in which no filter step looks at an event between its flush's commit
and insert is free of echoes, and after a filter step that does, the run can go on to an
echo. -/
theorem echoFree_condition (inclusive : Bool) :
    (∀ (h : List (EpochChannel Payload × EpochAction Payload)) (t : EpochChannel Payload),
      Exec (EpochChannel.next inclusive) EpochChannel.init h t → Steps FilterRecorded h →
        Always EchoFree h t) ∧
    (∀ (h : List (EpochChannel Payload × EpochAction Payload)) (s u : EpochChannel Payload)
      (a : EpochAction Payload), Exec (EpochChannel.next inclusive) EpochChannel.init h s →
        s.next inclusive a = some u → ¬ FilterRecorded s a →
        ∃ h' v, Exec (EpochChannel.next inclusive) u h' v ∧ ¬ EchoFree v) :=
  ⟨fun _ _ hrun hcond => echoFree_of_recorded hrun hcond,
    fun _ _ _ _ hrun hnext hcond => echo_reachable hrun hnext hcond⟩

/-- A flush whose epoch is in the set before the poller looks at its event is not echoed. A
filter step between the commit and the insert can be followed by an echo. -/
theorem echoFree_recorded_flush :
    (∃ h t, Exec (EpochChannel.next false) (EpochChannel.init : EpochChannel Nat) h t ∧
      Always EchoFree h t ∧ t.handed = [⟨1, 7⟩]) ∧
    ∃ h' v, Exec (EpochChannel.next false) { (EpochChannel.init : EpochChannel Nat) with
        currentEpoch := 1, cdc := [⟨1, 7⟩], inboundEpochs := [1], unrecorded := [1],
        poller := .sending 1 ⟨1, 7⟩ [], handed := [⟨1, 7⟩] } h' v ∧ ¬ EchoFree v := by
  constructor
  · have hrun : Exec (EpochChannel.next false) (EpochChannel.init : EpochChannel Nat) _ _ :=
      Exec.snoc (Exec.snoc (Exec.snoc (Exec.snoc (Exec.snoc (Exec.snoc .nil
        (a := .pollerStart) rfl) (a := .inboundCommit [7]) rfl) (a := .inboundInsert 1) rfl)
        (a := .pollerWake) rfl) (a := .pollerFetch) rfl) (a := .pollerFilter) rfl
    refine ⟨_, _, hrun, (echoFree_condition false).1 _ _ hrun fun p hp => ?_, rfl⟩
    simp only [List.nil_append, List.cons_append, List.mem_cons, List.not_mem_nil,
      or_false] at hp
    rcases hp with rfl | rfl | rfl | rfl | rfl | rfl
    · exact trivial
    · exact trivial
    · exact trivial
    · exact trivial
    · exact trivial
    · exact List.not_mem_nil
  · have hrun : Exec (EpochChannel.next false) (EpochChannel.init : EpochChannel Nat) _ _ :=
      Exec.snoc (Exec.snoc (Exec.snoc (Exec.snoc .nil (a := .pollerStart) rfl)
        (a := .inboundCommit [7]) rfl) (a := .pollerWake) rfl) (a := .pollerFetch) rfl
    exact (echoFree_condition false).2 _ _ _ .pollerFilter hrun rfl
      fun hcond => hcond (List.mem_singleton.mpr rfl)

/-- A flush that inserts its epoch after the worker has checked the event is echoed, whether
or not the window includes its start. -/
theorem echo_in_window :
    (∃ h t, Exec (EpochChannel.next false) (EpochChannel.init : EpochChannel Nat) h t ∧
      t.applied = [⟨1, 7⟩] ∧ t.inboundEpochs = [1]) ∧
    (∃ h t, Exec (EpochChannel.next true) (EpochChannel.init : EpochChannel Nat) h t ∧
      t.applied = [⟨1, 7⟩] ∧ t.inboundEpochs = [1]) := by
  have hrun : ∀ inclusive, ∃ t, runActions (EpochChannel.next inclusive)
      (EpochChannel.init : EpochChannel Nat)
      [.pollerStart, .inboundCommit [7], .pollerWake, .pollerFetch, .pollerFilter, .pollerSend,
        .workerCheck, .workerApply, .inboundInsert 1] = some t ∧
      t.applied = [⟨1, 7⟩] ∧ t.inboundEpochs = [1] := by
    intro inclusive
    cases inclusive <;> exact ⟨_, rfl, rfl, rfl⟩
  constructor
  · obtain ⟨t, ht, hend⟩ := hrun false
    obtain ⟨h, hexec, -⟩ := exec_of_run ht
    exact ⟨h, t, hexec, hend⟩
  · obtain ⟨t, ht, hend⟩ := hrun true
    obtain ⟨h, hexec, -⟩ := exec_of_run ht
    exact ⟨h, t, hexec, hend⟩

end GrafeoLoro.Proofs
