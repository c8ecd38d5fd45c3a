import GrafeoLoro.Bridge.Pipeline

/-!
# `GrafeoLoro.Proofs.Pipeline`: what a step of the inbound path does

`PipelineStep` lists what a step can do, with its guards, and `next_cases` says that
`Pipeline.next` does nothing else. The invariants of the inbound path are proved by cases on
it.

`Running s` says that both tasks are in their loops and that every op the inbound channel
accepted is in a flushed batch, the buffer, a channel or the worker's hand, each op once and
in the order of acceptance. `running_step_iff` is the step lemma: before a shutdown, a step
from such a state leads to such a state exactly when it is not a failed flush.
-/

set_option autoImplicit false

namespace GrafeoLoro.Proofs

open GrafeoLoro GrafeoLoro.Lib

variable {Op : Type} {batchSize : Nat}

/-- What a step of the inbound path can do. -/
inductive PipelineStep (batchSize : Nat) :
    Pipeline Op → PipelineAction Op → Pipeline Op → Prop where
  | send {s : Pipeline Op} {op : Op} (hopen : s.worker ≠ .exited)
      (hroom : s.inbound.length < channelCapacity) :
      PipelineStep batchSize s (.send op)
        { s with inbound := s.inbound ++ [op], sent := s.sent ++ [op] }
  | workerRecv {s : Pipeline Op} {op : Op} {rest : List Op} (hworker : s.worker = .atSelect)
      (hshutdown : s.shutdown = false) (hinbound : s.inbound = op :: rest) :
      PipelineStep batchSize s .workerRecv
        { s with inbound := rest, worker := .forwarding op }
  | workerForward {s : Pipeline Op} {op : Op} (hworker : s.worker = .forwarding op)
      (hbatcher : s.batcher ≠ .exited) (hroom : s.batchChannel.length < channelCapacity) :
      PipelineStep batchSize s .workerForward
        { s with batchChannel := s.batchChannel ++ [op], worker := .atSelect }
  | workerForwardErr {s : Pipeline Op} {op : Op} (hworker : s.worker = .forwarding op)
      (hbatcher : s.batcher = .exited) :
      PipelineStep batchSize s .workerForwardErr { s with worker := .joining }
  | workerShutdown {s : Pipeline Op} (hworker : s.worker = .atSelect)
      (hshutdown : s.shutdown = true) :
      PipelineStep batchSize s .workerShutdown { s with worker := .joining }
  | workerJoin {s : Pipeline Op} (hworker : s.worker = .joining)
      (hbatcher : s.batcher = .exited) :
      PipelineStep batchSize s .workerJoin { s with worker := .exited }
  | batcherShutdown {s : Pipeline Op} (hbatcher : s.batcher = .atSelect)
      (hshutdown : s.shutdown = true) :
      PipelineStep batchSize s .batcherShutdown (s.drain true .exited)
  | batcherRecv {s : Pipeline Op} {op : Op} {rest : List Op} (hbatcher : s.batcher = .atSelect)
      (hshutdown : s.shutdown = false) (hchannel : s.batchChannel = op :: rest) :
      PipelineStep batchSize s .batcherRecv (s.receive batchSize op rest)
  | batcherTick {s : Pipeline Op} (hbatcher : s.batcher = .atSelect)
      (hshutdown : s.shutdown = false) (hchannel : s.batchChannel = []) :
      PipelineStep batchSize s .batcherTick (s.drain false .atSelect)
  | flushOk {s : Pipeline Op} {last : Bool} (hbatcher : s.batcher = .flushing last) :
      PipelineStep batchSize s .flushOk
        { s with batcher := if last then .exited else .atSelect }
  | flushErr {s : Pipeline Op} {last : Bool} (hbatcher : s.batcher = .flushing last) :
      PipelineStep batchSize s .flushErr { s with batcher := .exited }
  | signal {s : Pipeline Op} : PipelineStep batchSize s .signal { s with shutdown := true }

/-- The step function does what `PipelineStep` lists. -/
theorem next_cases {s u : Pipeline Op} {a : PipelineAction Op}
    (h : s.next batchSize a = some u) : PipelineStep batchSize s a u := by
  cases a with
  | send op =>
    simp only [Pipeline.next] at h
    split at h
    · cases h
    · rename_i hw
      split at h
      · rename_i hroom
        cases h
        exact .send (fun he => hw he) hroom
      · cases h
  | workerRecv =>
    simp only [Pipeline.next] at h
    split at h
    · rename_i hw hs hi
      cases h
      exact .workerRecv hw hs hi
    · cases h
  | workerForward =>
    simp only [Pipeline.next] at h
    split at h
    · cases h
    · rename_i op hw hb
      split at h
      · rename_i hroom
        cases h
        exact .workerForward hw (fun he => hb he) hroom
      · cases h
    · cases h
  | workerForwardErr =>
    simp only [Pipeline.next] at h
    split at h
    · rename_i hw hb
      cases h
      exact .workerForwardErr hw hb
    · cases h
  | workerShutdown =>
    simp only [Pipeline.next] at h
    split at h
    · rename_i hw hs
      cases h
      exact .workerShutdown hw hs
    · cases h
  | workerJoin =>
    simp only [Pipeline.next] at h
    split at h
    · rename_i hw hb
      cases h
      exact .workerJoin hw hb
    · cases h
  | batcherShutdown =>
    simp only [Pipeline.next] at h
    split at h
    · rename_i hb hs
      cases h
      exact .batcherShutdown hb hs
    · cases h
  | batcherRecv =>
    simp only [Pipeline.next] at h
    split at h
    · rename_i hb hs hc
      cases h
      exact .batcherRecv hb hs hc
    · cases h
  | batcherTick =>
    simp only [Pipeline.next] at h
    split at h
    · rename_i hb hs hc
      cases h
      exact .batcherTick hb hs hc
    · cases h
  | flushOk =>
    simp only [Pipeline.next] at h
    split at h
    · rename_i hb
      cases h
      exact .flushOk hb
    · rename_i hb
      cases h
      exact .flushOk hb
    · cases h
  | flushErr =>
    simp only [Pipeline.next] at h
    split at h
    · rename_i last hb
      cases h
      exact .flushErr hb
    · cases h
  | signal =>
    cases h
    exact .signal

/-! ### The buffer -/

/-- The ops that the batcher has received. -/
def received (s : Pipeline Op) : List Op := s.flushed.flatten ++ s.buffer

section Drain
variable (s : Pipeline Op) (last : Bool) (idle : BatcherLoop)

@[simp] theorem drain_inbound : (s.drain last idle).inbound = s.inbound := by
  unfold Pipeline.drain
  split <;> rfl

@[simp] theorem drain_worker : (s.drain last idle).worker = s.worker := by
  unfold Pipeline.drain
  split <;> rfl

@[simp] theorem drain_batchChannel : (s.drain last idle).batchChannel = s.batchChannel := by
  unfold Pipeline.drain
  split <;> rfl

@[simp] theorem drain_shutdown : (s.drain last idle).shutdown = s.shutdown := by
  unfold Pipeline.drain
  split <;> rfl

@[simp] theorem drain_sent : (s.drain last idle).sent = s.sent := by
  unfold Pipeline.drain
  split <;> rfl

/-- The buffer is empty after it was taken. -/
@[simp] theorem drain_buffer : (s.drain last idle).buffer = [] := by
  unfold Pipeline.drain
  split
  · rename_i hb
    exact hb
  · rfl

/-- The buffer is passed to a flush as it is. -/
@[simp] theorem drain_flushed : (s.drain last idle).flushed.flatten
    = s.flushed.flatten ++ s.buffer := by
  unfold Pipeline.drain
  split
  · rename_i hb
    rw [hb, List.append_nil]
  · rename_i hb
    simp [hb]

/-- A drain receives nothing. -/
@[simp] theorem received_drain : received (s.drain last idle) = received s := by
  rw [received, drain_flushed, drain_buffer, List.append_nil, received]

/-- After the drain the loop is idle or flushes. -/
theorem drain_batcher :
    (s.drain last idle).batcher = idle ∨ (s.drain last idle).batcher = .flushing last := by
  unfold Pipeline.drain
  split
  · exact .inl rfl
  · exact .inr rfl

end Drain

section Receive
variable (s : Pipeline Op) (op : Op) (rest : List Op)

@[simp] theorem receive_inbound :
    (s.receive batchSize op rest).inbound = s.inbound := by
  simp only [Pipeline.receive]
  split <;> simp

@[simp] theorem receive_worker :
    (s.receive batchSize op rest).worker = s.worker := by
  simp only [Pipeline.receive]
  split <;> simp

@[simp] theorem receive_batchChannel :
    (s.receive batchSize op rest).batchChannel = rest := by
  simp only [Pipeline.receive]
  split <;> simp

@[simp] theorem receive_shutdown :
    (s.receive batchSize op rest).shutdown = s.shutdown := by
  simp only [Pipeline.receive]
  split <;> simp

@[simp] theorem receive_sent :
    (s.receive batchSize op rest).sent = s.sent := by
  simp only [Pipeline.receive]
  split <;> simp

/-- The received op is behind the ops received before it. -/
@[simp] theorem received_receive :
    received (s.receive batchSize op rest) = received s ++ [op] := by
  simp only [Pipeline.receive, received]
  split <;> simp

/-- The loop goes on after a receive. -/
theorem receive_batcher (hbatcher : s.batcher = .atSelect) :
    (s.receive batchSize op rest).batcher ≠ .exited := by
  simp only [Pipeline.receive]
  split
  · rw [hbatcher]
    simp
  · rcases drain_batcher { s with batchChannel := rest, buffer := s.buffer ++ [op] } false
      .atSelect with h | h <;> rw [h] <;> simp

end Receive

/-! ### Both tasks run and no op is lost -/

/-- Both tasks are in their loops, and every accepted op is in one place, in order. -/
structure Running (s : Pipeline Op) : Prop where
  batcher : s.batcher ≠ .exited
  worker : s.worker = .atSelect ∨ ∃ op, s.worker = .forwarding op
  conserved : s.sent = received s ++ s.batchChannel ++ s.hand ++ s.inbound

/-- The first state runs. -/
theorem running_init : Running (Pipeline.init : Pipeline Op) :=
  ⟨by simp [Pipeline.init], .inl rfl, rfl⟩

theorem hand_atSelect {s : Pipeline Op} (h : s.worker = .atSelect) : s.hand = [] := by
  simp [Pipeline.hand, h]

theorem hand_forwarding {s : Pipeline Op} {op : Op} (h : s.worker = .forwarding op) :
    s.hand = [op] := by
  simp [Pipeline.hand, h]

/-- The hand depends on the worker only. -/
theorem hand_congr {s u : Pipeline Op} (h : u.worker = s.worker) : u.hand = s.hand := by
  simp [Pipeline.hand, h]

/-- No shutdown was signalled, so the batcher is not in the flush of its shutdown arm. -/
structure BeforeShutdown (s : Pipeline Op) : Prop where
  shutdown : s.shutdown = false
  batcher : s.batcher ≠ .flushing true

theorem beforeShutdown_init : BeforeShutdown (Pipeline.init : Pipeline Op) :=
  ⟨rfl, by simp [Pipeline.init]⟩

/-- The drain of the loop's own flush is not the one of the shutdown arm. -/
theorem drain_ne_last (s : Pipeline Op) :
    (s.drain false .atSelect).batcher ≠ .flushing true := by
  rcases drain_batcher s false .atSelect with h | h <;> rw [h] <;> simp

/-- Every step but the signal stays before the shutdown. -/
theorem beforeShutdown_step {s u : Pipeline Op} {a : PipelineAction Op}
    (h : s.next batchSize a = some u) (ha : a ≠ .signal) (hs : BeforeShutdown s) :
    BeforeShutdown u := by
  obtain ⟨hshutdown, hbatcher⟩ := hs
  cases next_cases h with
  | send | workerRecv | workerForward | workerForwardErr | workerShutdown | workerJoin =>
    exact ⟨hshutdown, hbatcher⟩
  | batcherShutdown _ hs =>
    rw [hshutdown] at hs
    cases hs
  | batcherRecv hat _ _ =>
    refine ⟨(receive_shutdown _ _ _).trans hshutdown, ?_⟩
    simp only [Pipeline.receive]
    split
    · exact hbatcher
    · exact drain_ne_last _
  | batcherTick _ _ _ => exact ⟨(drain_shutdown _ _ _).trans hshutdown, drain_ne_last s⟩
  | @flushOk last _ => exact ⟨hshutdown, by cases last <;> simp⟩
  | flushErr _ => exact ⟨hshutdown, by simp⟩
  | signal => exact absurd rfl ha

/-- Before a shutdown, a step keeps both tasks running exactly when it is not a failed
flush. -/
theorem running_step_iff {s u : Pipeline Op} {a : PipelineAction Op}
    (h : s.next batchSize a = some u) (hbefore : BeforeShutdown s) (hrun : Running s) :
    Running u ↔ a ≠ .flushErr := by
  have hshutdown := hbefore.shutdown
  have hw := hrun.worker
  have hc := hrun.conserved
  cases next_cases h with
  | send hopen hroom =>
    refine ⟨fun _ => by simp, fun _ => ⟨hrun.batcher, hw, ?_⟩⟩
    -- a new op goes to the end of both sides
    show s.sent ++ [_] = received s ++ s.batchChannel ++ s.hand ++ (s.inbound ++ [_])
    rw [hc]
    simp
  | workerRecv hworker _ hinbound =>
    refine ⟨fun _ => by simp, fun _ => ⟨hrun.batcher, .inr ⟨_, rfl⟩, ?_⟩⟩
    -- the first op of the channel goes into the empty hand
    rw [hand_atSelect hworker, hinbound] at hc
    rw [hand_forwarding rfl]
    show s.sent = received s ++ s.batchChannel ++ [_] ++ _
    rw [hc]
    simp
  | workerForward hworker hbatcher hroom =>
    refine ⟨fun _ => by simp, fun _ => ⟨hbatcher, .inl rfl, ?_⟩⟩
    -- the op in the hand goes to the end of the batcher channel
    rw [hand_forwarding hworker] at hc
    rw [hand_atSelect rfl]
    show s.sent = received s ++ (s.batchChannel ++ [_]) ++ [] ++ s.inbound
    rw [hc]
    simp
  | workerForwardErr _ hbatcher => exact absurd hbatcher hrun.batcher
  | workerShutdown _ hs =>
    rw [hshutdown] at hs
    cases hs
  | workerJoin _ hbatcher => exact absurd hbatcher hrun.batcher
  | batcherShutdown _ hs =>
    rw [hshutdown] at hs
    cases hs
  | batcherRecv hbatcher _ hchannel =>
    refine ⟨fun _ => by simp, fun _ => ⟨receive_batcher _ _ _ hbatcher, by simpa using hw, ?_⟩⟩
    -- the first op of the batcher channel goes to the end of the received ones
    rw [hchannel] at hc
    rw [receive_sent, receive_batchChannel, receive_inbound,
      hand_congr (receive_worker _ _ _), received_receive, hc]
    simp
  | batcherTick hbatcher _ _ =>
    refine ⟨fun _ => by simp, fun _ => ⟨?_, by simpa using hw, ?_⟩⟩
    · rcases drain_batcher s false .atSelect with h | h <;> rw [h] <;> simp
    · rw [drain_sent, drain_batchChannel, drain_inbound, hand_congr (drain_worker _ _ _),
        received_drain]
      exact hc
  | @flushOk last hbatcher =>
    -- only the flush of the shutdown arm ends the loop
    have hlast : last = false := by
      cases last with
      | false => rfl
      | true => exact absurd hbatcher hbefore.batcher
    refine ⟨fun _ => by simp, fun _ => ⟨by simp [hlast], hw, hc⟩⟩
  | flushErr _ => exact ⟨fun hu => absurd rfl hu.batcher, fun hne => absurd rfl hne⟩
  | signal => exact ⟨fun _ => by simp, fun _ => ⟨hrun.batcher, hw, hc⟩⟩

end GrafeoLoro.Proofs
