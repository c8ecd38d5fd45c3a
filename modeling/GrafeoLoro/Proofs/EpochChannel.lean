import GrafeoLoro.Bridge.EpochChannel
import GrafeoLoro.Lib.Windows

/-!
# `GrafeoLoro.Proofs.EpochChannel`: what a step of the side channel does

`EpochStep` lists what a step can do, with its guards, and `epoch_next_cases` says that
`EpochChannel.next` does nothing else.

`EpochOk` is the invariant of all runs. Its main part is `recorded`: the epoch of an inbound
flush is still to be inserted, or it is in the set, or it is so old that the poller's window
is past it. So pruning never removes an epoch whose events are still to be filtered.

* `mem_passed_step`: an event passes the filter in a filter step only, and when its epoch is not
  in the set.
* `epochOk_step`, `epochOk_run`: the invariant of every step and of every run.
-/

set_option autoImplicit false

namespace GrafeoLoro.Proofs

open GrafeoLoro GrafeoLoro.Lib

variable {Payload : Type} {inclusive : Bool}

/-- What a step of the side channel can do. -/
inductive EpochStep (inclusive : Bool) :
    EpochChannel Payload → EpochAction Payload → EpochChannel Payload → Prop where
  | inboundCommit {s : EpochChannel Payload} (changes : List Payload) :
      EpochStep inclusive s (.inboundCommit changes) { s.commit changes with
        inboundEpochs := s.inboundEpochs ++ [s.currentEpoch + 1]
        unrecorded := s.unrecorded ++ [s.currentEpoch + 1] }
  | inboundInsert {s : EpochChannel Payload} {epoch : EpochId} (hmem : epoch ∈ s.unrecorded) :
      EpochStep inclusive s (.inboundInsert epoch) { s with
        unrecorded := s.unrecorded.erase epoch
        bridgeOriginEpochs := insert epoch s.bridgeOriginEpochs }
  | otherCommit {s : EpochChannel Payload} (changes : List Payload) :
      EpochStep inclusive s (.otherCommit changes) (s.commit changes)
  | pollerStart {s : EpochChannel Payload} (hpoller : s.poller = .starting) :
      EpochStep inclusive s .pollerStart
        { s with lastEpoch := s.currentEpoch, poller := .sleeping }
  | pollerIdle {s : EpochChannel Payload} (hpoller : s.poller = .sleeping)
      (hle : s.currentEpoch ≤ s.lastEpoch) : EpochStep inclusive s .pollerWake s
  | pollerWake {s : EpochChannel Payload} (hpoller : s.poller = .sleeping)
      (hlt : s.lastEpoch < s.currentEpoch) :
      EpochStep inclusive s .pollerWake { s with poller := .fetching s.currentEpoch }
  | pollerFetch {s : EpochChannel Payload} {current : EpochId}
      (hpoller : s.poller = .fetching current) :
      EpochStep inclusive s .pollerFetch { s with
        poller := .filtering current (changesBetween inclusive s.lastEpoch current s.cdc) }
  | pollerFetchErr {s : EpochChannel Payload} {current : EpochId}
      (hpoller : s.poller = .fetching current) :
      EpochStep inclusive s .pollerFetchErr { s with poller := .sleeping }
  | pollerDrop {s : EpochChannel Payload} {current : EpochId} {ev : ChangeEvent Payload}
      {events : List (ChangeEvent Payload)} (hpoller : s.poller = .filtering current (ev :: events))
      (hmem : ev.epoch ∈ s.bridgeOriginEpochs) :
      EpochStep inclusive s .pollerFilter
        { s with poller := .filtering current events, handed := s.handed ++ [ev] }
  | pollerPass {s : EpochChannel Payload} {current : EpochId} {ev : ChangeEvent Payload}
      {events : List (ChangeEvent Payload)} (hpoller : s.poller = .filtering current (ev :: events))
      (hmem : ev.epoch ∉ s.bridgeOriginEpochs) :
      EpochStep inclusive s .pollerFilter
        { s with poller := .sending current ev events, handed := s.handed ++ [ev] }
  | pollerSend {s : EpochChannel Payload} {current : EpochId} {ev : ChangeEvent Payload}
      {events : List (ChangeEvent Payload)} (hpoller : s.poller = .sending current ev events)
      (hroom : s.outbound.length < channelCapacity) :
      EpochStep inclusive s .pollerSend
        { s with poller := .filtering current events, outbound := s.outbound ++ [ev] }
  | pollerPrune {s : EpochChannel Payload} {current : EpochId}
      (hpoller : s.poller = .filtering current []) :
      EpochStep inclusive s .pollerPrune { s with
        bridgeOriginEpochs :=
          s.bridgeOriginEpochs.filter fun e => s.lastEpoch - epochRetention < e
        lastEpoch := current
        poller := .sleeping }
  | workerDrop {s : EpochChannel Payload} {ev : ChangeEvent Payload}
      {outbound : List (ChangeEvent Payload)} (hworker : s.worker = none)
      (houtbound : s.outbound = ev :: outbound) (hmem : ev.epoch ∈ s.bridgeOriginEpochs) :
      EpochStep inclusive s .workerCheck { s with outbound }
  | workerPass {s : EpochChannel Payload} {ev : ChangeEvent Payload}
      {outbound : List (ChangeEvent Payload)} (hworker : s.worker = none)
      (houtbound : s.outbound = ev :: outbound) (hmem : ev.epoch ∉ s.bridgeOriginEpochs) :
      EpochStep inclusive s .workerCheck { s with outbound, worker := some ev }
  | workerApply {s : EpochChannel Payload} {ev : ChangeEvent Payload}
      (hworker : s.worker = some ev) :
      EpochStep inclusive s .workerApply
        { s with worker := none, applied := s.applied ++ [ev] }

/-- The step function does what `EpochStep` lists. -/
theorem epoch_next_cases {s u : EpochChannel Payload} {a : EpochAction Payload}
    (h : s.next inclusive a = some u) : EpochStep inclusive s a u := by
  cases a with
  | inboundCommit changes =>
    cases h
    exact .inboundCommit changes
  | inboundInsert epoch =>
    simp only [EpochChannel.next] at h
    split at h
    · rename_i hmem
      cases h
      exact .inboundInsert hmem
    · cases h
  | otherCommit changes =>
    cases h
    exact .otherCommit changes
  | pollerStart =>
    simp only [EpochChannel.next] at h
    split at h
    · rename_i hpoller
      cases h
      exact .pollerStart hpoller
    · cases h
  | pollerWake =>
    simp only [EpochChannel.next] at h
    split at h
    · rename_i hpoller
      split at h
      · rename_i hle
        cases h
        exact .pollerIdle hpoller hle
      · rename_i hlt
        cases h
        exact .pollerWake hpoller (Nat.lt_of_not_le hlt)
    · cases h
  | pollerFetch =>
    simp only [EpochChannel.next] at h
    split at h
    · rename_i hpoller
      cases h
      exact .pollerFetch hpoller
    · cases h
  | pollerFetchErr =>
    simp only [EpochChannel.next] at h
    split at h
    · rename_i hpoller
      cases h
      exact .pollerFetchErr hpoller
    · cases h
  | pollerFilter =>
    simp only [EpochChannel.next] at h
    split at h
    · rename_i hpoller
      split at h
      · rename_i hmem
        cases h
        exact .pollerDrop hpoller hmem
      · rename_i hmem
        cases h
        exact .pollerPass hpoller hmem
    · cases h
  | pollerSend =>
    simp only [EpochChannel.next] at h
    split at h
    · rename_i hpoller
      split at h
      · rename_i hroom
        cases h
        exact .pollerSend hpoller hroom
      · cases h
    · cases h
  | pollerPrune =>
    simp only [EpochChannel.next] at h
    split at h
    · rename_i hpoller
      cases h
      exact .pollerPrune hpoller
    · cases h
  | workerCheck =>
    simp only [EpochChannel.next] at h
    split at h
    · rename_i hworker houtbound
      split at h
      · rename_i hmem
        cases h
        exact .workerDrop hworker houtbound hmem
      · rename_i hmem
        cases h
        exact .workerPass hworker houtbound hmem
    · cases h
  | workerApply =>
    simp only [EpochChannel.next] at h
    split at h
    · rename_i hworker
      cases h
      exact .workerApply hworker
    · cases h

/-! ### The invariant -/

/-- The events that the poller has fetched and not yet passed on. -/
def fetched (s : EpochChannel Payload) : List (ChangeEvent Payload) :=
  match s.poller with
  | .filtering _ events => events
  | .sending _ ev events => ev :: events
  | _ => []

/-- The poller's epoch of the cycle it is in. -/
def cycleEpoch (s : EpochChannel Payload) : EpochId :=
  match s.poller with
  | .fetching current | .filtering current _ | .sending current _ _ => current
  | _ => s.lastEpoch

/-- The events that passed the poller's filter. -/
def passed (s : EpochChannel Payload) : List (ChangeEvent Payload) :=
  (match s.poller with
    | .sending _ ev _ => [ev]
    | _ => []) ++ s.outbound ++ s.worker.toList ++ s.applied

/-- The invariant of the side channel. -/
structure EpochOk (s : EpochChannel Payload) : Prop where
  cdc : ∀ ev ∈ s.cdc, ev.epoch ≤ s.currentEpoch
  passed : ∀ ev ∈ passed s, ev.epoch ≤ s.currentEpoch
  fetched : ∀ ev ∈ fetched s, s.lastEpoch ≤ ev.epoch ∧ ev.epoch ≤ s.currentEpoch
  cycle : s.lastEpoch ≤ cycleEpoch s ∧ cycleEpoch s ≤ s.currentEpoch
  inbound : ∀ e ∈ s.inboundEpochs, 0 < e ∧ e ≤ s.currentEpoch
  unrecorded : ∀ e ∈ s.unrecorded, e ∈ s.inboundEpochs ∧ e ∉ s.bridgeOriginEpochs
  unrecordedNodup : s.unrecorded.Nodup
  origin : ∀ e ∈ s.bridgeOriginEpochs, e ∈ s.inboundEpochs
  recorded : ∀ e ∈ s.inboundEpochs,
    e ∈ s.unrecorded ∨ e ∈ s.bridgeOriginEpochs ∨ e + epochRetention ≤ s.lastEpoch

/-- The first state is fine. -/
theorem epochOk_init : EpochOk (EpochChannel.init : EpochChannel Payload) := by
  constructor <;> simp [EpochChannel.init, Proofs.passed, Proofs.fetched, cycleEpoch]

/-- The events of a window lie between its ends. -/
theorem mem_changesBetween {start stop : EpochId} {cdc : List (ChangeEvent Payload)}
    {ev : ChangeEvent Payload} (h : ev ∈ changesBetween inclusive start stop cdc) :
    ev ∈ cdc ∧ start ≤ ev.epoch ∧ ev.epoch ≤ stop := by
  have hwindow : ev ∈ window ChangeEvent.epoch inclusive start stop cdc := h
  exact mem_window hwindow

/-- A commit keeps the part of the invariant that is about the log and the window. -/
theorem epochOk_commit {s : EpochChannel Payload} (h : EpochOk s) (changes : List Payload) :
    EpochOk (s.commit changes) where
  cdc := fun ev hev => by
    show ev.epoch ≤ s.currentEpoch + 1
    rcases List.mem_append.mp hev with hev | hev
    · exact Nat.le_succ_of_le (h.cdc ev hev)
    · obtain ⟨p, -, rfl⟩ := List.mem_map.mp hev
      exact Nat.le_refl _
  passed := fun ev hev => Nat.le_succ_of_le (h.passed ev hev)
  fetched := fun ev hev => ⟨(h.fetched ev hev).1, Nat.le_succ_of_le (h.fetched ev hev).2⟩
  cycle := ⟨h.cycle.1, Nat.le_succ_of_le h.cycle.2⟩
  inbound := fun e he => ⟨(h.inbound e he).1, Nat.le_succ_of_le (h.inbound e he).2⟩
  unrecorded := h.unrecorded
  unrecordedNodup := h.unrecordedNodup
  origin := h.origin
  recorded := h.recorded

/-- The epoch of the next commit was not used before. -/
theorem EpochOk.fresh {s : EpochChannel Payload} (h : EpochOk s) :
    s.currentEpoch + 1 ∉ s.inboundEpochs := by
  intro hmem
  have hle := (h.inbound _ hmem).2
  exact Nat.not_succ_le_self _ hle

/-! ### What a step changes -/

/-- A step does not move the epoch counter back. -/
theorem currentEpoch_le_step {s u : EpochChannel Payload} {a : EpochAction Payload}
    (hnext : s.next inclusive a = some u) : s.currentEpoch ≤ u.currentEpoch := by
  cases epoch_next_cases hnext with
  | inboundCommit | otherCommit => exact Nat.le_succ _
  | _ => exact Nat.le_refl _

/-- An event that has passed the poller's filter had passed it before the step, or the step
lets it pass. -/
theorem mem_passed_step {s u : EpochChannel Payload} {a : EpochAction Payload}
    (hnext : s.next inclusive a = some u) {ev : ChangeEvent Payload} (hev : ev ∈ passed u) :
    ev ∈ passed s ∨ ∃ current events, a = .pollerFilter ∧
      s.poller = .filtering current (ev :: events) ∧ ev.epoch ∉ s.bridgeOriginEpochs := by
  cases epoch_next_cases hnext with
  | inboundCommit | inboundInsert | otherCommit | pollerIdle => exact .inl hev
  | pollerStart hpoller | pollerWake hpoller | pollerFetch hpoller | pollerFetchErr hpoller
  | pollerDrop hpoller | pollerPrune hpoller =>
    left
    simp only [passed, hpoller] at hev ⊢
    exact hev
  | @pollerPass current passing events hpoller hmem =>
    simp only [passed, List.cons_append, List.nil_append, List.mem_cons] at hev
    cases hev with
    | inl heq =>
      subst heq
      exact .inr ⟨current, events, rfl, hpoller, hmem⟩
    | inr hold =>
      left
      simp only [passed, hpoller]
      exact hold
  | pollerSend hpoller hroom =>
    left
    simp only [passed, hpoller, List.mem_append, List.mem_singleton, List.not_mem_nil] at hev ⊢
    tauto
  | workerDrop hworker houtbound =>
    left
    simp only [passed, houtbound, List.mem_append, List.mem_cons] at hev ⊢
    tauto
  | workerPass hworker houtbound =>
    left
    simp only [passed, houtbound, hworker, Option.toList_some, List.mem_append, List.mem_cons,
      List.not_mem_nil, or_false] at hev ⊢
    tauto
  | workerApply hworker =>
    left
    simp only [passed, hworker, Option.toList_some, Option.toList_none, List.mem_append,
      List.mem_cons, List.not_mem_nil, or_false] at hev ⊢
    tauto

/-- The part of the invariant that is about the events that have passed the filter. -/
theorem passed_le_step {s u : EpochChannel Payload} {a : EpochAction Payload}
    (hnext : s.next inclusive a = some u) (h : EpochOk s) :
    ∀ ev ∈ passed u, ev.epoch ≤ u.currentEpoch := by
  intro ev hev
  have hle : ev.epoch ≤ s.currentEpoch := by
    cases mem_passed_step hnext hev with
    | inl hold => exact h.passed ev hold
    | inr hfilter =>
      obtain ⟨current, events, -, hpoller, -⟩ := hfilter
      have hfetched : ev ∈ fetched s := by simp [fetched, hpoller]
      exact (h.fetched ev hfetched).2
  exact Nat.le_trans hle (currentEpoch_le_step hnext)

/-! ### The invariant is kept -/

/-- The commit of an inbound flush: its epoch is above all that the set and the list hold. -/
theorem EpochOk.inboundCommit {s : EpochChannel Payload} (h : EpochOk s)
    (changes : List Payload) :
    EpochOk { s.commit changes with
      inboundEpochs := s.inboundEpochs ++ [s.currentEpoch + 1]
      unrecorded := s.unrecorded ++ [s.currentEpoch + 1] } := by
  have hfresh := h.fresh
  have hcommit := epochOk_commit h changes
  refine { hcommit with inbound := ?_, unrecorded := ?_, unrecordedNodup := ?_,
                        origin := ?_, recorded := ?_ }
  · intro e he
    rcases List.mem_append.mp he with he | he
    · exact hcommit.inbound e he
    · rw [List.mem_singleton.mp he]
      exact ⟨Nat.succ_pos _, Nat.le_refl _⟩
  · intro e he
    rcases List.mem_append.mp he with he | he
    · exact ⟨List.mem_append_left _ (h.unrecorded e he).1, (h.unrecorded e he).2⟩
    · refine ⟨List.mem_append_right _ he, fun hset => hfresh ?_⟩
      rw [← List.mem_singleton.mp he]
      exact h.origin e hset
  · refine List.nodup_append.mpr ⟨h.unrecordedNodup, List.nodup_singleton _, ?_⟩
    intro e he e' he' heq
    rw [List.mem_singleton.mp he'] at heq
    exact hfresh (heq ▸ (h.unrecorded e he).1)
  · exact fun e he => List.mem_append_left _ (h.origin e he)
  · intro e he
    rcases List.mem_append.mp he with he | he
    · exact (h.recorded e he).imp_left (List.mem_append_left _)
    · exact .inl (List.mem_append_right _ he)

/-- The insert of an inbound flush: its epoch moves from the open inserts to the set. -/
theorem EpochOk.inboundInsert {s : EpochChannel Payload} (h : EpochOk s) {epoch : EpochId}
    (hmem : epoch ∈ s.unrecorded) :
    EpochOk { s with
      unrecorded := s.unrecorded.erase epoch
      bridgeOriginEpochs := insert epoch s.bridgeOriginEpochs } := by
  refine { h with unrecorded := ?_, unrecordedNodup := h.unrecordedNodup.erase _,
                  origin := ?_, recorded := ?_ }
  · intro e he
    obtain ⟨hne, he⟩ := h.unrecordedNodup.mem_erase_iff.mp he
    obtain ⟨hin, hset⟩ := h.unrecorded e he
    exact ⟨hin, fun hins => (Finset.mem_insert.mp hins).elim hne hset⟩
  · intro e he
    rcases Finset.mem_insert.mp he with rfl | he
    · exact (h.unrecorded e hmem).1
    · exact h.origin e he
  · intro e he
    by_cases heq : e = epoch
    · exact .inr (.inl (Finset.mem_insert.mpr (.inl heq)))
    · rcases h.recorded e he with hr | hr | hr
      · exact .inl (h.unrecordedNodup.mem_erase_iff.mpr ⟨heq, hr⟩)
      · exact .inr (.inl (Finset.mem_insert.mpr (.inr hr)))
      · exact .inr (.inr hr)

/-- The prune at the end of a cycle. -/
theorem EpochOk.pollerPrune {s : EpochChannel Payload} (h : EpochOk s) {current : EpochId}
    (hpoller : s.poller = .filtering current []) :
    EpochOk { s with
      bridgeOriginEpochs :=
        s.bridgeOriginEpochs.filter fun e => s.lastEpoch - epochRetention < e
      lastEpoch := current
      poller := .sleeping } := by
  have hp := h.passed
  have hc := h.cycle
  simp only [Proofs.passed, cycleEpoch, hpoller] at hp hc
  refine { h with passed := hp, fetched := nofun, cycle := ⟨Nat.le_refl _, hc.2⟩,
                  unrecorded := ?_, origin := ?_, recorded := ?_ }
  · exact fun e he => ⟨(h.unrecorded e he).1, fun hset =>
      (h.unrecorded e he).2 (Finset.mem_filter.mp hset).1⟩
  · exact fun e he => h.origin e (Finset.mem_filter.mp he).1
  · intro e he
    show e ∈ s.unrecorded ∨ _ ∨ e + epochRetention ≤ current
    rcases h.recorded e he with hr | hr | hr
    · exact .inl hr
    · -- a pruned epoch is at least the retention window behind the cycle that ends
      by_cases hkeep : s.lastEpoch - epochRetention < e
      · exact .inr (.inl (Finset.mem_filter.mpr ⟨hr, hkeep⟩))
      · have hle : e ≤ s.lastEpoch - epochRetention := Nat.le_of_not_lt hkeep
        have hpos : 0 < s.lastEpoch - epochRetention :=
          Nat.lt_of_lt_of_le (h.inbound e he).1 hle
        have hold : e + epochRetention ≤ s.lastEpoch :=
          Nat.add_le_of_le_sub (Nat.le_of_lt (Nat.lt_of_sub_pos hpos)) hle
        exact .inr (.inr (Nat.le_trans hold hc.1))
    · exact .inr (.inr (Nat.le_trans hr hc.1))

/-- Every step keeps the invariant. -/
theorem epochOk_step {s u : EpochChannel Payload} {a : EpochAction Payload}
    (hnext : s.next inclusive a = some u) (h : EpochOk s) : EpochOk u := by
  have hp := passed_le_step hnext h
  have hf := h.fetched
  have hc := h.cycle
  cases epoch_next_cases hnext with
  | inboundCommit changes => exact h.inboundCommit changes
  | inboundInsert hmem => exact h.inboundInsert hmem
  | otherCommit changes => exact epochOk_commit h changes
  | pollerStart hpoller =>
    -- the poller's first look moves the window forward only
    have hle : s.lastEpoch ≤ s.currentEpoch := Nat.le_trans hc.1 hc.2
    exact { h with passed := hp, fetched := nofun, cycle := ⟨Nat.le_refl _, Nat.le_refl _⟩,
                   recorded := fun e he => (h.recorded e he).imp_right
                     (Or.imp_right fun hr => Nat.le_trans hr hle) }
  | pollerIdle => exact h
  | pollerWake hpoller hlt =>
    exact { h with passed := hp, fetched := nofun, cycle := ⟨Nat.le_of_lt hlt, Nat.le_refl _⟩ }
  | pollerFetch hpoller =>
    simp only [cycleEpoch, hpoller] at hc
    refine { h with passed := hp, fetched := fun ev hev => ?_, cycle := hc }
    obtain ⟨-, hstart, hstop⟩ := mem_changesBetween hev
    exact ⟨hstart, Nat.le_trans hstop hc.2⟩
  | pollerFetchErr hpoller =>
    exact { h with passed := hp, fetched := nofun,
                   cycle := ⟨Nat.le_refl _, Nat.le_trans hc.1 hc.2⟩ }
  | pollerDrop hpoller | pollerSend hpoller =>
    simp only [fetched, cycleEpoch, hpoller] at hf hc
    exact { h with passed := hp, fetched := fun ev hev => hf ev (List.mem_cons_of_mem _ hev),
                   cycle := hc }
  | pollerPass hpoller =>
    simp only [fetched, cycleEpoch, hpoller] at hf hc
    exact { h with passed := hp, fetched := hf, cycle := hc }
  | pollerPrune hpoller => exact h.pollerPrune hpoller
  | workerDrop | workerPass | workerApply => exact { h with passed := hp }

/-- The invariant holds in every state of every run. -/
theorem epochOk_run {h : List (EpochChannel Payload × EpochAction Payload)}
    {t : EpochChannel Payload}
    (hrun : Exec (EpochChannel.next inclusive) EpochChannel.init h t) : EpochOk t :=
  hrun.invariant (fun _ _ _ hnext => epochOk_step hnext) epochOk_init

end GrafeoLoro.Proofs
