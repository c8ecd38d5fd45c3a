import GrafeoLoro.Lib.Windows
import GrafeoLoro.Proofs.EpochChannel

/-!
# `GrafeoLoro.Proofs.PollerWindows`: what the poller hands to its filter

The poller is a reader of the CDC log with `last_epoch` as its cursor. `PollerOk` says so: what
it has handed over are the windows of its finished cycles and a part of the window of the cycle
it is in. A cycle without progress and a cycle whose `changes_between` fails leave the cursor
where it is, and a commit adds events behind it.

* `pollerOk_run`: the invariant of every run from the poller's start.
* `pruneSafe_run`: a prune keeps the epochs that later cycles return.
* `poller_windows`: what was handed over and what pruning keeps, for every run.
-/

set_option autoImplicit false

namespace GrafeoLoro.Proofs

open GrafeoLoro GrafeoLoro.Lib

variable {Payload : Type} {inclusive : Bool}

/-- What a poller that started at `start` has handed to its filter: every event above `start`
and up to `last_epoch`, each once where `changes_between` is strict, in the order of the
epochs. -/
structure HandedWindows (inclusive : Bool) (start : EpochId) (s : EpochChannel Payload) :
    Prop where
  atLeastOnce : (changesBetween false start s.lastEpoch s.cdc).Sublist s.handed
  once : inclusive = false → s.handed.filter (fun ev => decide (ev.epoch ≤ s.lastEpoch))
    = changesBetween false start s.lastEpoch s.cdc
  inOrder : s.handed.Pairwise fun ev ev' => ev.epoch ≤ ev'.epoch

/-- Of the epochs in the set before a prune, the set after it has all whose events a later
fetch returns. -/
def PruneSafe (inclusive : Bool) (s u : EpochChannel Payload) : Prop :=
  ∀ h v current, Exec (EpochChannel.next inclusive) u h v → v.poller = .fetching current →
    ∀ ev ∈ changesBetween inclusive v.lastEpoch current v.cdc,
      ev.epoch ∈ s.bridgeOriginEpochs → ev.epoch ∈ u.bridgeOriginEpochs

/-! ### The log -/

/-- The events of the cycle that are still to be handed over. -/
def unhanded (s : EpochChannel Payload) : List (ChangeEvent Payload) :=
  match s.poller with
  | .filtering _ events | .sending _ _ events => events
  | _ => []

/-- The window of the cycle, once it is fetched. -/
def cycleWindow (inclusive : Bool) (s : EpochChannel Payload) : List (ChangeEvent Payload) :=
  match s.poller with
  | .filtering current _ | .sending current _ _ =>
    changesBetween inclusive s.lastEpoch current s.cdc
  | _ => []

/-- The poller reads the CDC log, which is sorted by epochs. A poller that has not started has
handed nothing over. -/
structure LogOk (s : EpochChannel Payload) : Prop where
  epochs : EpochOk s
  sorted : Sorted ChangeEvent.epoch s.cdc
  unstarted : s.poller = .starting → s.handed = []

/-- The new events of a commit have its epoch. -/
theorem commit_cdc (s : EpochChannel Payload) (changes : List Payload) :
    ∃ new, (s.commit changes).cdc = s.cdc ++ new ∧ ∀ ev ∈ new, ev.epoch = s.currentEpoch + 1 := by
  refine ⟨_, rfl, fun ev hev => ?_⟩
  obtain ⟨p, -, rfl⟩ := List.mem_map.mp hev
  rfl

/-- A commit keeps the log sorted. -/
theorem commit_sorted {s : EpochChannel Payload} (h : LogOk s) (changes : List Payload) :
    Sorted ChangeEvent.epoch (s.commit changes).cdc := by
  obtain ⟨new, hcdc, hnew⟩ := commit_cdc s changes
  rw [hcdc]
  refine List.pairwise_append.mpr ⟨h.sorted, ?_, fun ev hev ev' hev' => ?_⟩
  · have hpairs : new.Pairwise fun _ _ => True := List.pairwise_of_forall fun _ _ => trivial
    exact hpairs.imp_of_mem fun hev hev' _ => ((hnew _ hev).trans (hnew _ hev').symm).le
  · rw [hnew ev' hev']
    exact Nat.le_succ_of_le (h.epochs.cdc ev hev)

/-- The log is fine after every step. -/
theorem logOk_step {s u : EpochChannel Payload} {a : EpochAction Payload}
    (hnext : s.next inclusive a = some u) (h : LogOk s) : LogOk u := by
  have hepochs := epochOk_step hnext h.epochs
  cases epoch_next_cases hnext with
  | inboundCommit changes | otherCommit changes =>
    exact ⟨hepochs, commit_sorted h changes, h.unstarted⟩
  | pollerDrop hpoller | pollerPass hpoller => exact ⟨hepochs, h.sorted, nofun⟩
  | pollerStart | pollerWake | pollerFetch | pollerFetchErr | pollerSend | pollerPrune =>
    exact ⟨hepochs, h.sorted, nofun⟩
  | inboundInsert | pollerIdle | workerDrop | workerPass | workerApply =>
    exact ⟨hepochs, h.sorted, h.unstarted⟩

/-- The log is fine in every state of every run. -/
theorem logOk_run {h : List (EpochChannel Payload × EpochAction Payload)}
    {t : EpochChannel Payload}
    (hrun : Exec (EpochChannel.next inclusive) EpochChannel.init h t) : LogOk t :=
  hrun.invariant (fun _ _ _ hnext => logOk_step hnext)
    ⟨epochOk_init, List.Pairwise.nil, fun _ => rfl⟩

/-! ### The poller as a reader of the log -/

/-- The poller has handed over the windows of its finished cycles, and of the cycle it is in what
is not still to be handed over. -/
structure PollerOk (inclusive : Bool) (start : EpochId) (s : EpochChannel Payload) : Prop where
  log : LogOk s
  started : s.poller ≠ .starting
  windows : ∃ earlier recent,
    Windows ChangeEvent.epoch inclusive start s.cdc s.lastEpoch earlier ∧
      s.handed = earlier ++ recent ∧ recent ++ unhanded s = cycleWindow inclusive s

/-- A commit does not change the window of the cycle. -/
theorem cycleWindow_commit {s : EpochChannel Payload} (h : EpochOk s) (changes : List Payload) :
    cycleWindow inclusive (s.commit changes) = cycleWindow inclusive s := by
  obtain ⟨new, hcdc, hnew⟩ := commit_cdc s changes
  have hcycle := h.cycle.2
  have hbehind {current : EpochId} (hle : current ≤ s.currentEpoch) :
      ∀ ev ∈ new, current < ev.epoch := fun ev hev => by
    rw [hnew ev hev]
    exact Nat.lt_succ_of_le hle
  have hpoller : (s.commit changes).poller = s.poller := rfl
  have hlast : (s.commit changes).lastEpoch = s.lastEpoch := rfl
  simp only [cycleWindow, hpoller, hlast, hcdc]
  cases hp : s.poller with
  | filtering current events =>
    simp only [cycleEpoch, hp] at hcycle
    exact window_append (hbehind hcycle)
  | sending current ev events =>
    simp only [cycleEpoch, hp] at hcycle
    exact window_append (hbehind hcycle)
  | _ => rfl

/-- What a reader has read stays what it has read after a commit. -/
theorem windows_commit {start : EpochId} {s : EpochChannel Payload}
    {earlier : List (ChangeEvent Payload)} (h : EpochOk s) (changes : List Payload)
    (hread : Windows ChangeEvent.epoch inclusive start s.cdc s.lastEpoch earlier) :
    Windows ChangeEvent.epoch inclusive start (s.commit changes).cdc s.lastEpoch earlier := by
  obtain ⟨new, hcdc, hnew⟩ := commit_cdc s changes
  rw [hcdc]
  refine hread.append fun ev hev => ?_
  rw [hnew ev hev]
  exact Nat.lt_succ_of_le (h.cycle.1.trans h.cycle.2)

/-- Every step keeps the invariant of the poller. -/
theorem pollerOk_step {start : EpochId} {s u : EpochChannel Payload} {a : EpochAction Payload}
    (hnext : s.next inclusive a = some u) (h : PollerOk inclusive start s) :
    PollerOk inclusive start u := by
  have log := logOk_step hnext h.log
  obtain ⟨earlier, recent, hread, hhanded, hcycle⟩ := h.windows
  cases epoch_next_cases hnext with
  | inboundCommit changes | otherCommit changes =>
    have hread := windows_commit h.log.epochs changes hread
    have hcycle := hcycle.trans (cycleWindow_commit h.log.epochs changes).symm
    exact ⟨log, h.started, earlier, recent, hread, hhanded, hcycle⟩
  | inboundInsert | workerDrop | workerPass | workerApply =>
    exact ⟨log, h.started, earlier, recent, hread, hhanded, hcycle⟩
  | pollerIdle => exact h
  | pollerStart hpoller => exact absurd hpoller h.started
  | pollerWake hpoller =>
    simp only [unhanded, cycleWindow, hpoller] at hcycle
    exact ⟨log, by simp, earlier, recent, hread, hhanded, hcycle⟩
  | pollerFetch hpoller =>
    -- nothing of the new window is handed over yet
    simp only [unhanded, cycleWindow, hpoller, List.append_nil] at hcycle
    exact ⟨log, by simp, earlier, recent, hread, hhanded, by rw [hcycle]; rfl⟩
  | pollerFetchErr hpoller =>
    simp only [unhanded, cycleWindow, hpoller] at hcycle
    exact ⟨log, by simp, earlier, recent, hread, hhanded, hcycle⟩
  | @pollerDrop current ev events hpoller | @pollerPass current ev events hpoller =>
    -- the next event of the window goes from the rest to the part that is handed over
    simp only [unhanded, cycleWindow, hpoller] at hcycle
    refine ⟨log, by simp, earlier, recent ++ [ev], hread, ?_, ?_⟩
    · show s.handed ++ [ev] = earlier ++ (recent ++ [ev])
      rw [hhanded, List.append_assoc]
    · show recent ++ [ev] ++ events = changesBetween inclusive s.lastEpoch current s.cdc
      rw [List.append_assoc]
      exact hcycle
  | pollerSend hpoller =>
    simp only [unhanded, cycleWindow, hpoller] at hcycle
    exact ⟨log, by simp, earlier, recent, hread, hhanded, hcycle⟩
  | @pollerPrune current hpoller =>
    -- the window of the cycle is handed over, and the cursor moves to its end
    have hforward := h.log.epochs.cycle.1
    simp only [cycleEpoch, hpoller] at hforward
    simp only [unhanded, cycleWindow, hpoller, List.append_nil] at hcycle
    refine ⟨log, by simp, earlier ++ recent, [], ?_, ?_, rfl⟩
    · rw [hcycle]
      exact hread.snoc hforward
    · rw [List.append_nil]
      exact hhanded

/-- The invariant of the poller in every run that comes after its start. -/
theorem pollerOk_run {h : List (EpochChannel Payload × EpochAction Payload)}
    {s₀ t : EpochChannel Payload}
    (hrun : Exec (EpochChannel.next inclusive) EpochChannel.init h t)
    (hstart : (s₀, .pollerStart) ∈ h) : PollerOk inclusive s₀.currentEpoch t := by
  obtain ⟨before, after, u, -, hbefore, hnext, hafter⟩ := hrun.split hstart
  refine hafter.invariant (fun _ _ _ hnext => pollerOk_step hnext) ?_
  have log := logOk_run hbefore
  have hu := logOk_step hnext log
  cases epoch_next_cases hnext with
  | pollerStart hpoller =>
    exact ⟨hu, nofun, [], [], .nil, log.unstarted hpoller, rfl⟩

/-- The window of the cycle starts at the cursor. -/
theorem cycleWindow_sublist (s : EpochChannel Payload) :
    ∃ current, (cycleWindow inclusive s).Sublist
      (changesBetween inclusive s.lastEpoch current s.cdc) := by
  cases hpoller : s.poller with
  | filtering current events | sending current ev events =>
    simp only [cycleWindow, hpoller]
    exact ⟨current, List.Sublist.refl _⟩
  | _ =>
    simp only [cycleWindow, hpoller]
    exact ⟨s.lastEpoch, List.nil_sublist _⟩

/-- What the invariant says about the events that were handed over. -/
theorem PollerOk.handedWindows {start : EpochId} {s : EpochChannel Payload}
    (h : PollerOk inclusive start s) : HandedWindows inclusive start s := by
  obtain ⟨earlier, recent, hread, hhanded, hcycle⟩ := h.windows
  have hsorted := h.log.sorted
  -- what the cycle has handed over is a part of its window
  obtain ⟨current, hwindow⟩ := @cycleWindow_sublist _ inclusive s
  have hpart : recent.Sublist (changesBetween inclusive s.lastEpoch current s.cdc) :=
    (hcycle ▸ List.sublist_append_left recent (unhanded s)).trans hwindow
  refine ⟨?_, fun hstrict => ?_, ?_⟩
  · rw [hhanded]
    exact (hread.covers hsorted).trans (List.sublist_append_left _ _)
  · subst hstrict
    have hkeep : earlier.filter (fun ev => decide (ev.epoch ≤ s.lastEpoch)) = earlier :=
      List.filter_eq_self.mpr fun ev hev => decide_eq_true (hread.le_cursor ev hev)
    have hdrop : recent.filter (fun ev => decide (ev.epoch ≤ s.lastEpoch)) = [] :=
      List.filter_eq_nil_iff.mpr fun ev hev => by
        simpa using lt_of_mem_window (hpart.subset hev)
    rw [hhanded, List.filter_append, hkeep, hdrop, List.append_nil]
    exact hread.eq_window hsorted
  · rw [hhanded]
    refine List.pairwise_append.mpr ⟨hread.sorted hsorted,
      (hsorted.sublist (window_sublist _ _ _)).sublist hpart, fun ev hev ev' hev' => ?_⟩
    exact (hread.le_cursor ev hev).trans (mem_window (hpart.subset hev')).2.1

/-! ### Pruning -/

/-- A step does not move `last_epoch` back. -/
theorem lastEpoch_le_step {s u : EpochChannel Payload} {a : EpochAction Payload}
    (hnext : s.next inclusive a = some u) (h : EpochOk s) : s.lastEpoch ≤ u.lastEpoch := by
  have hcycle := h.cycle
  cases epoch_next_cases hnext with
  | pollerStart => exact hcycle.1.trans hcycle.2
  | pollerPrune hpoller =>
    simp only [cycleEpoch, hpoller] at hcycle
    exact hcycle.1
  | _ => exact le_rfl

/-- A run does not move `last_epoch` back. -/
theorem lastEpoch_le_run {h : List (EpochChannel Payload × EpochAction Payload)}
    {s t : EpochChannel Payload} (hrun : Exec (EpochChannel.next inclusive) s h t)
    (hs : EpochOk s) : s.lastEpoch ≤ t.lastEpoch := by
  have hboth : EpochOk t ∧ s.lastEpoch ≤ t.lastEpoch := by
    refine hrun.invariant (I := fun t => EpochOk t ∧ s.lastEpoch ≤ t.lastEpoch)
      (fun t a u hnext hI => ⟨epochOk_step hnext hI.1, ?_⟩) ⟨hs, le_rfl⟩
    exact hI.2.trans (lastEpoch_le_step hnext hI.1)
  exact hboth.2

/-- A prune keeps the epochs that a later fetch returns. -/
theorem pruneSafe_step {s u : EpochChannel Payload} (hs : EpochOk s)
    (hnext : s.next inclusive .pollerPrune = some u) : PruneSafe inclusive s u := by
  intro h v current hrun _ ev hev horigin
  have hlast : s.lastEpoch ≤ v.lastEpoch :=
    (lastEpoch_le_step hnext hs).trans (lastEpoch_le_run hrun (epochOk_step hnext hs))
  have hafter : s.lastEpoch ≤ ev.epoch := hlast.trans (mem_changesBetween hev).2.1
  -- the cut is below the cursor, or both are 0 and the epoch is not
  have hpos : 0 < ev.epoch := (hs.inbound _ (hs.origin _ horigin)).1
  have hcut (last epoch : Nat) (hle : last ≤ epoch) (hpos : 0 < epoch) :
      last - epochRetention < epoch := by
    unfold epochRetention
    omega
  cases epoch_next_cases hnext with
  | pollerPrune hpoller =>
    exact Finset.mem_filter.mpr ⟨horigin, hcut _ _ hafter hpos⟩

/-! ### Runs -/

/-- In every run, the poller has handed over its windows, each event at least once and in the
order of the epochs, and no prune has removed an epoch that a later fetch returns. -/
theorem poller_windows (inclusive : Bool)
    (h : List (EpochChannel Payload × EpochAction Payload)) (t : EpochChannel Payload)
    (hrun : Exec (EpochChannel.next inclusive) EpochChannel.init h t) :
    (∀ s₀, (s₀, .pollerStart) ∈ h → HandedWindows inclusive s₀.currentEpoch t) ∧
      ∀ s, (s, .pollerPrune) ∈ h → ∀ u, s.next inclusive .pollerPrune = some u →
        PruneSafe inclusive s u := by
  refine ⟨fun s₀ hstart => (pollerOk_run hrun hstart).handedWindows, fun s hprune u hnext => ?_⟩
  obtain ⟨before, after, u', -, hbefore, -, -⟩ := hrun.split hprune
  exact pruneSafe_step (epochOk_run hbefore) hnext

/-- Two cycles with a failed fetch between them. The start epoch of the second window is
included, so its event is handed over twice. -/
theorem poller_windows_two_cycles :
    ∃ h, ∃ t : EpochChannel Nat, Exec (EpochChannel.next true) EpochChannel.init h t ∧
      t.handed = [⟨1, 10⟩, ⟨1, 10⟩, ⟨2, 20⟩] ∧
      (∃ s₀, (s₀, .pollerStart) ∈ h ∧ HandedWindows true s₀.currentEpoch t) ∧
      ∃ s u, (s, .pollerPrune) ∈ h ∧ s.next true .pollerPrune = some u ∧ PruneSafe true s u := by
  have hrun : ∃ t, runActions (EpochChannel.next true) EpochChannel.init
      [.pollerStart, .otherCommit [10], .pollerWake, .pollerFetch, .pollerFilter, .pollerSend,
        .pollerPrune, .otherCommit [20], .pollerWake, .pollerFetchErr, .pollerWake, .pollerFetch,
        .pollerFilter, .pollerSend, .pollerFilter, .pollerSend] = some t ∧
      t.handed = [⟨1, 10⟩, ⟨1, 10⟩, ⟨2, 20⟩] := ⟨_, rfl, rfl⟩
  obtain ⟨t, hrun, hhanded⟩ := hrun
  obtain ⟨h, hexec, hacts⟩ := exec_of_run hrun
  have hall := poller_windows true h t hexec
  have hstart : EpochAction.pollerStart ∈ h.map Prod.snd := by simp [hacts]
  have hprune : EpochAction.pollerPrune ∈ h.map Prod.snd := by simp [hacts]
  obtain ⟨⟨s₀, a⟩, hs₀, rfl⟩ := List.mem_map.mp hstart
  obtain ⟨⟨s, b⟩, hs, rfl⟩ := List.mem_map.mp hprune
  obtain ⟨-, -, u, -, -, hu, -⟩ := hexec.split hs
  exact ⟨h, t, hexec, hhanded, ⟨s₀, hs₀, hall.1 s₀ hs₀⟩, s, u, hs, hu, hall.2 s hs u hu⟩

end GrafeoLoro.Proofs
