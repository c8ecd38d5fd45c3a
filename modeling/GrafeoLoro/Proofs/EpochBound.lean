import GrafeoLoro.Proofs.EpochChannel
import Mathlib.Order.Interval.Finset.Nat

/-!
# `GrafeoLoro.Proofs.EpochBound`: how large the epoch side channel gets

The prune of a poll cycle cuts at the epoch of the previous cycle, and nothing limits how many
flushes land between two cycles. The bound holds if at most one commit lands. There is room
for more as long as the previous cycle's epoch is below `epochRetention`, and a flush that has
not inserted its epoch yet takes no place in the set.

* `pruned_subset`: the set after a prune holds epochs of the window above the cut, and none of
  the open flushes.
* `pruned_eq`: it holds them all when every commit is an inbound flush.
* `epochBound_of_fewCommits`: the bound holds in every run with few commits between two cycles,
  and of the runs of inbound flushes in no other.
* `epochBound_exceeded`: a burst of flushes in one poll interval.
-/

set_option autoImplicit false

namespace GrafeoLoro.Proofs

open GrafeoLoro GrafeoLoro.Lib

variable {Payload : Type} {inclusive : Bool}

/-- The inbound flushes above the cut of the next prune that have not inserted their epoch. -/
def openFlushes (s : EpochChannel Payload) : List EpochId :=
  s.unrecorded.filter fun e => decide (s.lastEpoch - epochRetention < e)

/-- A prune finds at most one commit since the epoch of the previous cycle. As many more are
allowed as that epoch is below `epochRetention`, and as there are open flushes. -/
def FewCommits (s : EpochChannel Payload) : EpochAction Payload → Prop
  | .pollerPrune =>
    s.currentEpoch - s.lastEpoch
      ≤ 1 + (epochRetention - s.lastEpoch) + (openFlushes s).length
  | _ => True

/-- Nobody but the inbound flushes commits. -/
def FlushesOnly (_ : EpochChannel Payload) (a : EpochAction Payload) : Prop :=
  ∀ changes, a ≠ .otherCommit changes

/-- After a prune, the set has at most `epochRetention + 1` epochs. -/
def BoundedAfterPrune (inclusive : Bool) (s : EpochChannel Payload)
    (a : EpochAction Payload) : Prop :=
  a = .pollerPrune → ∀ u, s.next inclusive a = some u →
    u.bridgeOriginEpochs.card ≤ epochRetention + 1

/-! ### The set after a prune -/

/-- The set that a prune leaves. -/
def pruned (s : EpochChannel Payload) : Finset EpochId :=
  s.bridgeOriginEpochs.filter fun e => s.lastEpoch - epochRetention < e

/-- The epochs above the cut, without those of the open flushes. -/
def openWindow (s : EpochChannel Payload) : Finset EpochId :=
  Finset.Ioc (s.lastEpoch - epochRetention) s.currentEpoch \ (openFlushes s).toFinset

/-- A prune leaves epochs of the window. -/
theorem pruned_subset {s : EpochChannel Payload} (h : EpochOk s) : pruned s ⊆ openWindow s := by
  intro e he
  obtain ⟨hset, hcut⟩ := Finset.mem_filter.mp he
  have hle : e ≤ s.currentEpoch := (h.inbound e (h.origin e hset)).2
  have hrecorded : e ∉ s.unrecorded := fun hmem => (h.unrecorded e hmem).2 hset
  refine Finset.mem_sdiff.mpr ⟨Finset.mem_Ioc.mpr ⟨hcut, hle⟩, fun hopen => ?_⟩
  exact hrecorded (List.mem_filter.mp (List.mem_toFinset.mp hopen)).1

/-- Every epoch up to now is the one of an inbound flush. -/
def AllInbound (s : EpochChannel Payload) : Prop :=
  ∀ e, 0 < e → e ≤ s.currentEpoch → e ∈ s.inboundEpochs

/-- It stays so as long as nobody else commits. -/
theorem allInbound_step {s u : EpochChannel Payload} {a : EpochAction Payload}
    (hnext : s.next inclusive a = some u) (ha : FlushesOnly s a) (h : AllInbound s) :
    AllInbound u := by
  cases epoch_next_cases hnext with
  | inboundCommit changes =>
    intro e hpos hle
    show e ∈ s.inboundEpochs ++ [s.currentEpoch + 1]
    have hle : e ≤ s.currentEpoch + 1 := hle
    cases Nat.lt_or_eq_of_le hle with
    | inl hold => exact List.mem_append_left _ (h e hpos (Nat.le_of_lt_succ hold))
    | inr hnew => simp [hnew]
  | otherCommit changes => exact absurd rfl (ha changes)
  | _ => exact h

/-- In runs of inbound flushes, a prune leaves all of the window. -/
theorem pruned_eq {s : EpochChannel Payload} (h : EpochOk s) (hall : AllInbound s) :
    pruned s = openWindow s := by
  refine (pruned_subset h).antisymm fun e he => ?_
  obtain ⟨hwindow, hclosed⟩ := Finset.mem_sdiff.mp he
  obtain ⟨hcut, hle⟩ := Finset.mem_Ioc.mp hwindow
  have hinbound : e ∈ s.inboundEpochs := hall e (Nat.zero_lt_of_lt hcut) hle
  refine Finset.mem_filter.mpr ⟨?_, hcut⟩
  cases h.recorded e hinbound with
  | inl hopen =>
    refine absurd (List.mem_toFinset.mpr ?_) hclosed
    exact List.mem_filter.mpr ⟨hopen, decide_eq_true hcut⟩
  | inr hrest =>
    cases hrest with
    | inl hset => exact hset
    | inr hold =>
      -- what an earlier prune has removed is below the cut
      have hbelow : e ≤ s.lastEpoch - epochRetention := Nat.le_sub_of_add_le hold
      exact absurd hcut (Nat.not_lt.mpr hbelow)

/-- The size of the window. -/
theorem card_openWindow {s : EpochChannel Payload} (h : EpochOk s) :
    (openWindow s).card
      = s.currentEpoch - (s.lastEpoch - epochRetention) - (openFlushes s).length := by
  have hnodup : (openFlushes s).Nodup := h.unrecordedNodup.filter _
  have hsub : (openFlushes s).toFinset
      ⊆ Finset.Ioc (s.lastEpoch - epochRetention) s.currentEpoch := by
    intro e he
    obtain ⟨hmem, hcut⟩ := List.mem_filter.mp (List.mem_toFinset.mp he)
    have hle : e ≤ s.currentEpoch := (h.inbound e (h.unrecorded e hmem).1).2
    exact Finset.mem_Ioc.mpr ⟨of_decide_eq_true hcut, hle⟩
  unfold openWindow
  rw [Finset.card_sdiff_of_subset hsub, Nat.card_Ioc, List.toFinset_card_of_nodup hnodup]

/-- The window is within the bound exactly when few commits landed since the previous cycle. -/
theorem card_openWindow_le_iff {s : EpochChannel Payload} (h : EpochOk s) :
    (openWindow s).card ≤ epochRetention + 1 ↔ FewCommits s .pollerPrune := by
  have harith (current last retention opened : Nat) (hle : last ≤ current) :
      current - (last - retention) - opened ≤ retention + 1
        ↔ current - last ≤ 1 + (retention - last) + opened := by omega
  rw [card_openWindow h]
  exact harith _ _ _ _ (Nat.le_trans h.cycle.1 h.cycle.2)

/-- The bound after a prune is one on the set that the prune leaves. -/
theorem boundedAfterPrune_iff {s u : EpochChannel Payload} {a : EpochAction Payload}
    (hnext : s.next inclusive a = some u) :
    BoundedAfterPrune inclusive s a
      ↔ (a = .pollerPrune → (pruned s).card ≤ epochRetention + 1) := by
  cases epoch_next_cases hnext with
  | pollerPrune hpoller =>
    constructor
    · intro hbound _
      exact hbound rfl _ hnext
    · intro hcard _ u' hu'
      obtain rfl := Option.some.inj (hnext.symm.trans hu')
      exact hcard rfl
  | _ => exact iff_of_true (fun ha => by cases ha) (fun ha => by cases ha)

/-- A prune that finds few commits leaves a set within the bound. -/
theorem bounded_of_fewCommits {s u : EpochChannel Payload} {a : EpochAction Payload}
    (hnext : s.next inclusive a = some u) (hok : EpochOk s) (hfew : FewCommits s a) :
    BoundedAfterPrune inclusive s a := by
  rw [boundedAfterPrune_iff hnext]
  rintro rfl
  calc (pruned s).card
      ≤ (openWindow s).card := Finset.card_le_card (pruned_subset hok)
    _ ≤ epochRetention + 1 := (card_openWindow_le_iff hok).mpr hfew

/-- Where every commit is an inbound flush, no other prune does. -/
theorem fewCommits_of_bounded {s u : EpochChannel Payload} {a : EpochAction Payload}
    (hnext : s.next inclusive a = some u) (hok : EpochOk s) (hall : AllInbound s)
    (hbound : BoundedAfterPrune inclusive s a) : FewCommits s a := by
  cases epoch_next_cases hnext with
  | pollerPrune hpoller =>
    have hcard := (boundedAfterPrune_iff hnext).mp hbound rfl
    rw [pruned_eq hok hall] at hcard
    exact (card_openWindow_le_iff hok).mp hcard
  | _ => exact trivial

/-! ### Runs -/

/-- If every prune of a run finds few commits since the previous cycle, the set has at most
`epochRetention + 1` epochs after every prune. In a run whose commits are all inbound flushes,
this condition is exact. -/
theorem epochBound_of_fewCommits (inclusive : Bool)
    (h : List (EpochChannel Payload × EpochAction Payload)) (t : EpochChannel Payload)
    (hrun : Exec (EpochChannel.next inclusive) EpochChannel.init h t) :
    (Steps FewCommits h → Steps (BoundedAfterPrune inclusive) h) ∧
      (Steps FlushesOnly h →
        (Steps (BoundedAfterPrune inclusive) h ↔ Steps FewCommits h)) := by
  have henough : Steps FewCommits h → Steps (BoundedAfterPrune inclusive) h := by
    intro hfew p hp
    obtain ⟨before, after, u, -, hbefore, hu, -⟩ := hrun.split hp
    exact bounded_of_fewCommits hu (epochOk_run hbefore) (hfew p hp)
  refine ⟨henough, fun hflushes => ⟨fun hbound p hp => ?_, henough⟩⟩
  obtain ⟨before, after, u, -, hbefore, hu, -⟩ := hrun.split hp
  have hall : Always AllInbound h t :=
    hrun.invariant_of_steps (fun s a v hnext => allInbound_step hnext)
      (fun e hpos hle => absurd hpos (Nat.not_lt.mpr hle)) hflushes
  exact fewCommits_of_bounded hu (epochOk_run hbefore) (hall.1 p hp) (hbound p hp)

/-- Two poll cycles with one flush before each. The second one fetches the event of the first
flush again. -/
def twoCycles : List (EpochAction Nat) :=
  [.pollerStart, .inboundCommit [7], .inboundInsert 1, .pollerWake, .pollerFetch, .pollerFilter,
    .pollerPrune, .inboundCommit [8], .inboundInsert 2, .pollerWake, .pollerFetch, .pollerFilter,
    .pollerFilter, .pollerPrune]

/-- Both prunes find few commits, and they leave a set within the bound. -/
theorem epochBound_one_flush_per_cycle :
    ∃ h, ∃ t : EpochChannel Nat, Exec (EpochChannel.next true) EpochChannel.init h t ∧
      h.map Prod.snd = twoCycles ∧ Steps FewCommits h ∧ Steps (BoundedAfterPrune true) h := by
  have hrun : ∃ t, runActions (EpochChannel.next true) EpochChannel.init twoCycles = some t ∧
      t.currentEpoch = 2 := ⟨_, rfl, rfl⟩
  obtain ⟨t, hrun, htwo⟩ := hrun
  obtain ⟨h, hexec, hacts⟩ := exec_of_run hrun
  have hfew : Steps FewCommits h := by
    intro p hp
    obtain ⟨before, after, u, -, -, hu, hafter⟩ := hexec.split hp
    -- there are two epochs in all
    have hle : p.1.currentEpoch ≤ 2 := by
      have hlater : u.currentEpoch ≤ t.currentEpoch :=
        hafter.invariant (I := fun s => u.currentEpoch ≤ s.currentEpoch)
          (fun s a v hnext hs => Nat.le_trans hs (currentEpoch_le_step hnext)) (Nat.le_refl _)
      exact htwo ▸ Nat.le_trans (currentEpoch_le_step hu) hlater
    obtain ⟨s, a⟩ := p
    cases epoch_next_cases hu with
    | pollerPrune hpoller =>
      have harith (current last retention opened : Nat) (hcurrent : current ≤ 2)
          (hretention : 2 ≤ retention) :
          current - last ≤ 1 + (retention - last) + opened := by omega
      exact harith _ _ _ _ hle (by decide)
    | _ => exact trivial
  exact ⟨h, t, hexec, hacts, hfew, (epochBound_of_fewCommits true h t hexec).1 hfew⟩

/-! ### A burst of flushes -/

/-- A sleeping poller that has not run a cycle, and `n` flushes since its start. -/
structure Burst (n : Nat) (s : EpochChannel Nat) : Prop where
  poller : s.poller = .sleeping
  last : s.lastEpoch = 0
  current : s.currentEpoch = n
  unrecorded : s.unrecorded = []
  card : s.bridgeOriginEpochs.card = n
  cdc : ∀ ev ∈ s.cdc, ev.epoch ∈ s.bridgeOriginEpochs

/-- The state after a whole flush of one change, where no other flush is open. -/
def flushed (s : EpochChannel Nat) : EpochChannel Nat :=
  { s.commit [7] with
    inboundEpochs := s.inboundEpochs ++ [s.currentEpoch + 1]
    unrecorded := []
    bridgeOriginEpochs := insert (s.currentEpoch + 1) s.bridgeOriginEpochs }

/-- A burst can go on for one more flush. -/
theorem burst_flushed {n : Nat} {s : EpochChannel Nat} (hok : EpochOk s) (h : Burst n s) :
    Burst (n + 1) (flushed s) where
  poller := h.poller
  last := h.last
  current := by
    show s.currentEpoch + 1 = n + 1
    rw [h.current]
  unrecorded := rfl
  card := by
    have hnew : s.currentEpoch + 1 ∉ s.bridgeOriginEpochs :=
      fun hmem => hok.fresh (hok.origin _ hmem)
    show (insert (s.currentEpoch + 1) s.bridgeOriginEpochs).card = n + 1
    rw [Finset.card_insert_of_notMem hnew, h.card]
  cdc := fun ev hev => by
    show ev.epoch ∈ insert (s.currentEpoch + 1) s.bridgeOriginEpochs
    cases List.mem_append.mp hev with
    | inl hold => exact Finset.mem_insert_of_mem (h.cdc ev hold)
    | inr hnew =>
      rw [List.mem_singleton.mp hnew]
      exact Finset.mem_insert_self _ _

/-- Any number of flushes fits between two cycles. -/
theorem burst_run (inclusive : Bool) (n : Nat) :
    ∃ h s, Exec (EpochChannel.next inclusive) EpochChannel.init h s ∧ Burst n s := by
  induction n with
  | zero =>
    have hstart : (EpochChannel.init : EpochChannel Nat).next inclusive .pollerStart
        = some { EpochChannel.init with poller := .sleeping } := rfl
    exact ⟨_, _, Exec.snoc .nil hstart, ⟨rfl, rfl, rfl, rfl, rfl, by simp [EpochChannel.init]⟩⟩
  | succ n ih =>
    obtain ⟨h, s, hexec, hburst⟩ := ih
    have hcommit := Exec.snoc hexec (a := .inboundCommit [7]) rfl
    have hinsert := Exec.snoc hcommit (a := .inboundInsert (s.currentEpoch + 1)) (u := flushed s)
      (by simp [EpochChannel.next, hburst.unrecorded, flushed, EpochChannel.commit])
    exact ⟨_, _, hinsert, burst_flushed (epochOk_run hexec) hburst⟩

/-- The poller can drop all events that the set covers. -/
theorem poller_drops (inclusive : Bool) (current : EpochId) (events : List (ChangeEvent Nat)) :
    ∀ s : EpochChannel Nat, s.poller = .filtering current events →
      (∀ ev ∈ events, ev.epoch ∈ s.bridgeOriginEpochs) →
      ∃ h handed, Exec (EpochChannel.next inclusive) s h
        { s with poller := .filtering current [], handed := handed } := by
  induction events with
  | nil =>
    intro s hpoller _
    refine ⟨[], s.handed, ?_⟩
    rw [← hpoller]
    exact .nil
  | cons ev rest ih =>
    intro s hpoller hmem
    have hfilter : s.next inclusive .pollerFilter = some { s with
        poller := .filtering current rest, handed := s.handed ++ [ev] } := by
      simp [EpochChannel.next, hpoller, hmem ev]
    obtain ⟨h, handed, hexec⟩ := ih { s with
      poller := .filtering current rest, handed := s.handed ++ [ev] } rfl
      (fun ev' hev' => hmem ev' (List.mem_cons_of_mem _ hev'))
    exact ⟨_, handed, (Exec.snoc .nil hfilter).append hexec⟩

/-- After `epochRetention + 2` flushes between two cycles, all their epochs are still in the set
after the prune. -/
theorem epochBound_exceeded :
    ∃ h, ∃ t : EpochChannel Nat, Exec (EpochChannel.next false) EpochChannel.init h t ∧
      ¬ Steps (BoundedAfterPrune false) h := by
  obtain ⟨h, s, hexec, hburst⟩ := burst_run false (epochRetention + 2)
  -- the cycle wakes and fetches
  have hwake : s.next false .pollerWake = some { s with poller := .fetching s.currentEpoch } := by
    simp [EpochChannel.next, hburst.poller, hburst.last, hburst.current]
  have hfetch := (hexec.snoc hwake).snoc (a := .pollerFetch) rfl
  -- it drops every event
  let events := changesBetween false s.lastEpoch s.currentEpoch s.cdc
  obtain ⟨h', handed, hdrops⟩ := poller_drops false s.currentEpoch events
    { s with poller := .filtering s.currentEpoch events } rfl
    (fun ev hev => hburst.cdc ev (mem_changesBetween hev).1)
  -- and it prunes with the cut at 0
  have hprune := (hfetch.append hdrops).snoc (a := .pollerPrune) rfl
  refine ⟨_, _, hprune, fun hbound => ?_⟩
  have hcard : (s.bridgeOriginEpochs.filter fun e => s.lastEpoch - epochRetention < e).card
      ≤ epochRetention + 1 :=
    hbound _ (List.mem_append_right _ (List.mem_singleton.mpr rfl)) rfl _ rfl
  have hkept : s.bridgeOriginEpochs.filter (fun e => s.lastEpoch - epochRetention < e)
      = s.bridgeOriginEpochs := by
    refine Finset.filter_true_of_mem fun e he => ?_
    have hpos := ((epochOk_run hexec).inbound e ((epochOk_run hexec).origin e he)).1
    rw [hburst.last, Nat.zero_sub]
    exact hpos
  rw [hkept, hburst.card] at hcard
  omega

end GrafeoLoro.Proofs
