import GrafeoLoro.Bridge.Subscriber

/-!
# `GrafeoLoro.Proofs.Subscriber`: how much of a Loro commit is enqueued

The handler sends the ops of a commit one by one and stops at the first one that the inbound
channel does not accept. `sendResults` lists how its `try_send` calls of a run ended.

* `subscriber_enqueues`: the ops that are enqueued are those before the first `try_send` that was
  refused. So they are all ops of the commit exactly when none was refused.
* `commit_split`: a channel with one free place takes half of a commit of two ops.
-/

set_option autoImplicit false

namespace GrafeoLoro.Proofs

open GrafeoLoro GrafeoLoro.Lib

variable {batchSize : Nat}

/-- The inbound channel is open and not full. -/
def hasRoom (p : Pipeline LoroOp) : Bool :=
  (match p.worker with
    | .exited => false
    | _ => true) && decide (p.inbound.length < channelCapacity)

/-- The result of each `try_send` of the run, in order: whether the channel accepted the op. -/
def sendResults (h : List (Subscriber × SubscriberAction)) : List Bool :=
  h.filterMap fun p =>
    match p.2 with
    | .trySend => some (hasRoom p.1.pipeline)
    | .pipeline _ => none

/-- A `send` succeeds when the channel has room. -/
theorem send_isSome (batchSize : Nat) (p : Pipeline LoroOp) (op : LoroOp) :
    (p.next batchSize (.send op)).isSome = hasRoom p := by
  unfold hasRoom
  cases hworker : p.worker with
  | exited => simp [Pipeline.next, hworker]
  | _ =>
    by_cases hroom : p.inbound.length < channelCapacity
    · simp [Pipeline.next, hworker, hroom]
    · simp [Pipeline.next, hworker, hroom]

/-- What a step of the handler can do. -/
inductive SubscriberStep (batchSize : Nat) : Subscriber → SubscriberAction → Subscriber → Prop where
  | sent {s : Subscriber} {op : LoroOp} {rest : List LoroOp} {pipeline : Pipeline LoroOp}
      (htodo : s.todo = op :: rest) (hroom : hasRoom s.pipeline = true) :
      SubscriberStep batchSize s .trySend { s with
        pipeline
        todo := rest
        enqueued := s.enqueued ++ [op]
        inboundEventCount := s.inboundEventCount + 1 }
  | refused {s : Subscriber} {op : LoroOp} {rest : List LoroOp} (htodo : s.todo = op :: rest)
      (hroom : hasRoom s.pipeline = false) :
      SubscriberStep batchSize s .trySend { s with todo := [] }
  | pipeline {s : Subscriber} {a : PipelineAction LoroOp} {pipeline : Pipeline LoroOp} :
      SubscriberStep batchSize s (.pipeline a) { s with pipeline }

/-- The step function does what `SubscriberStep` lists. -/
theorem subscriber_next_cases {s u : Subscriber} {a : SubscriberAction}
    (h : s.next batchSize a = some u) : SubscriberStep batchSize s a u := by
  cases a with
  | trySend =>
    simp only [Subscriber.next] at h
    split at h
    · cases h
    · rename_i op rest htodo
      have hsome := send_isSome batchSize s.pipeline op
      split at h
      · rename_i pipeline hsend
        cases h
        exact .sent htodo (by simpa [hsend] using hsome.symm)
      · rename_i hsend
        cases h
        exact .refused htodo (by simpa [hsend] using hsome.symm)
  | pipeline a =>
    obtain ⟨p, -, rfl⟩ := Option.map_eq_some_iff.mp h
    exact .pipeline

/-- The handler is in its loop and has sent what it came to, or it has returned at a `try_send`
that was refused. -/
inductive Progress (ops enqueued todo : List LoroOp) : List Bool → Prop where
  | sending (hops : enqueued ++ todo = ops) :
      Progress ops enqueued todo (List.replicate enqueued.length true)
  | stopped {op : LoroOp} {rest : List LoroOp} (htodo : todo = [])
      (hops : enqueued ++ op :: rest = ops) :
      Progress ops enqueued todo (List.replicate enqueued.length true ++ [false])

/-- The result that a step adds. -/
theorem sendResults_snoc (h : List (Subscriber × SubscriberAction)) (s : Subscriber)
    (a : SubscriberAction) :
    sendResults (h ++ [(s, a)]) = sendResults h ++ sendResults [(s, a)] :=
  List.filterMap_append

/-- Every step makes progress. -/
theorem progress_step {ops : List LoroOp} {results : List Bool} {s u : Subscriber}
    {a : SubscriberAction} (hprogress : Progress ops s.enqueued s.todo results)
    (hnext : s.next batchSize a = some u) :
    Progress ops u.enqueued u.todo (results ++ sendResults [(s, a)]) := by
  cases subscriber_next_cases hnext with
  | @sent op rest pipeline htodo hroom =>
    cases hprogress with
    | sending hops =>
      have hresults : List.replicate s.enqueued.length true ++ sendResults [(s, .trySend)]
          = List.replicate (s.enqueued ++ [op]).length true := by
        simp [sendResults, hroom, List.replicate_succ']
      have hops : s.enqueued ++ [op] ++ rest = ops := by
        rw [← hops, htodo]
        simp
      rw [hresults]
      exact .sending hops
    | stopped hnone => simp [hnone] at htodo
  | @refused op rest htodo hroom =>
    cases hprogress with
    | sending hops =>
      have hresult : sendResults [(s, .trySend)] = [false] := by simp [sendResults, hroom]
      rw [hresult]
      exact .stopped rfl (htodo ▸ hops)
    | stopped hnone => simp [hnone] at htodo
  | pipeline =>
    have hresult : ∀ a, sendResults [(s, .pipeline a)] = [] := fun _ => rfl
    rw [hresult, List.append_nil]
    cases hprogress with
    | sending hops => exact .sending hops
    | stopped hnone hops => exact .stopped hnone hops

/-- In every run of a handler, it makes progress on the ops of its event. -/
theorem progress_run {ops : List LoroOp} {s t : Subscriber}
    {h : List (Subscriber × SubscriberAction)} (hrun : Exec (Subscriber.next batchSize) s h t)
    (htodo : s.todo = ops) (hnone : s.enqueued = []) :
    Progress ops t.enqueued t.todo (sendResults h) := by
  induction hrun with
  | nil =>
    have hstart : s.enqueued ++ s.todo = ops := by simp [htodo, hnone]
    have hresults : sendResults [] = List.replicate s.enqueued.length true := by
      rw [hnone]
      rfl
    rw [hresults]
    exact .sending hstart
  | snoc _ step ih =>
    rw [sendResults_snoc]
    exact progress_step ih step

/-- When the handler has returned from an event that the bridge has not made itself, the ops that
are enqueued are, in order, those before the first `try_send` that the inbound channel refused.
So all ops are enqueued exactly when none was refused, and none is exactly when the event has no
op or the first was refused. -/
theorem subscriber_enqueues (batchSize : Nat) (event : DiffEvent)
    (horigin : Subscriber.isBridgeOrigin event.origin = false) (s t : Subscriber)
    (h : List (Subscriber × SubscriberAction))
    (hrun : Exec (Subscriber.next batchSize) (s.handle event) h t) (hreturned : t.todo = []) :
    t.enqueued = (translateDiffEvent event).take ((sendResults h).takeWhile id).length ∧
      (t.enqueued = translateDiffEvent event ↔ ∀ accepted ∈ sendResults h, accepted = true) ∧
      (t.enqueued = [] ↔
        translateDiffEvent event = [] ∨ (sendResults h).head? = some false) := by
  have htodo : (s.handle event).todo = translateDiffEvent event := by
    simp [Subscriber.handle, horigin]
  have hnone : (s.handle event).enqueued = [] := by simp [Subscriber.handle, horigin]
  have hprogress := progress_run hrun htodo hnone
  generalize sendResults h = results at hprogress ⊢
  cases hprogress with
  | sending hops =>
    rw [hreturned, List.append_nil] at hops
    rw [← hops]
    refine ⟨by simp, by simp, ?_⟩
    cases henqueued : t.enqueued with
    | nil => simp
    | cons op rest => simp [List.replicate_succ]
  | @stopped op rest _ hops =>
    rw [← hops]
    refine ⟨?_, by simp, ?_⟩
    · have hruns : (List.replicate t.enqueued.length true ++ [false]).takeWhile id
          = List.replicate t.enqueued.length true := by
        rw [List.takeWhile_append_of_pos (by simp)]
        simp
      simp [hruns]
    · cases henqueued : t.enqueued with
      | nil => simp
      | cons op rest => simp [List.replicate_succ]

/-- A commit that deletes two vertices. -/
def twoDeletes : DiffEvent :=
  ⟨"user", [⟨.root rootVertices .map, .map ((AList.singleton "b" none).insert "a" none)⟩]⟩

/-- The ops of the commit. -/
theorem translateDiffEvent_twoDeletes :
    translateDiffEvent twoDeletes = [.deleteNode "a", .deleteNode "b"] := rfl

/-- An empty channel takes both ops. -/
theorem subscriber_enqueues_twoDeletes :
    ∃ h t, Exec (Subscriber.next 1)
        ((⟨Pipeline.init, [], [], 0, 0⟩ : Subscriber).handle twoDeletes) h t ∧
      t.enqueued = translateDiffEvent twoDeletes ∧
      ∀ accepted ∈ sendResults h, accepted = true := by
  have hrun : ∃ t, runActions (Subscriber.next 1)
      ((⟨Pipeline.init, [], [], 0, 0⟩ : Subscriber).handle twoDeletes) [.trySend, .trySend]
        = some t ∧ t.todo = [] ∧ t.enqueued = [.deleteNode "a", .deleteNode "b"] :=
    ⟨_, rfl, rfl, rfl⟩
  obtain ⟨t, hrun, hreturned, henqueued⟩ := hrun
  obtain ⟨h, hexec, -⟩ := exec_of_run hrun
  have hall := subscriber_enqueues 1 twoDeletes rfl _ t h hexec hreturned
  exact ⟨h, t, hexec, henqueued, hall.2.1.mp henqueued⟩

/-! ### A channel with one free place -/

/-- The inbound path after `n` ops were sent and none was taken. -/
def filled (n : Nat) : Pipeline LoroOp :=
  { Pipeline.init with
    inbound := List.replicate n (.deleteNode "x")
    sent := List.replicate n (.deleteNode "x") }

/-- Senders can fill the channel while the tasks wait. -/
theorem filled_run (batchSize n : Nat) (hn : n ≤ channelCapacity) :
    ∃ h, Exec (Pipeline.next batchSize) Pipeline.init h (filled n) := by
  induction n with
  | zero => exact ⟨[], .nil⟩
  | succ n ih =>
    obtain ⟨h, hrun⟩ := ih (by omega)
    have hroom : n < channelCapacity := by omega
    have hsend : (filled n).next batchSize (.send (.deleteNode "x")) = some (filled (n + 1)) := by
      simp [Pipeline.next, filled, Pipeline.init, hroom, List.replicate_succ']
    exact ⟨_, hrun.snoc hsend⟩

/-- The inbound channel has one free place. A commit deletes two vertices. The handler returns
with the first deletion enqueued and the second one dropped. -/
theorem commit_split :
    ∃ before : List (Pipeline LoroOp × PipelineAction LoroOp), ∃ p : Pipeline LoroOp,
      ∃ h t, Exec (Pipeline.next 1) Pipeline.init before p ∧
        Exec (Subscriber.next 1) ((⟨p, [], [], 0, 0⟩ : Subscriber).handle twoDeletes) h t ∧
        Subscriber.isBridgeOrigin twoDeletes.origin = false ∧ t.todo = [] ∧
        t.enqueued ≠ translateDiffEvent twoDeletes ∧ t.enqueued ≠ [] := by
  obtain ⟨n, hn⟩ : ∃ n, n + 1 = channelCapacity := ⟨1023, rfl⟩
  obtain ⟨before, hbefore⟩ := filled_run 1 n (by omega)
  -- the first op takes the last place
  let full : Pipeline LoroOp := { filled n with
    inbound := (filled n).inbound ++ [.deleteNode "a"]
    sent := (filled n).sent ++ [.deleteNode "a"] }
  have hroom : n < channelCapacity := by omega
  have hsent : Subscriber.next 1 ⟨filled n, [.deleteNode "a", .deleteNode "b"], [], 0, 0⟩ .trySend
      = some ⟨full, [.deleteNode "b"], [.deleteNode "a"], 1, 0⟩ := by
    simp [Subscriber.next, Pipeline.next, full, filled, Pipeline.init, hroom]
  -- the second one finds the channel full
  have hrefused : Subscriber.next 1 ⟨full, [.deleteNode "b"], [.deleteNode "a"], 1, 0⟩ .trySend
      = some ⟨full, [], [.deleteNode "a"], 1, 0⟩ := by
    simp [Subscriber.next, Pipeline.next, full, filled, Pipeline.init, hn]
  refine ⟨before, filled n, _, _, hbefore, (Exec.snoc .nil hsent).snoc hrefused, rfl, rfl, ?_, ?_⟩
  · rw [translateDiffEvent_twoDeletes]
    simp
  · simp

end GrafeoLoro.Proofs
