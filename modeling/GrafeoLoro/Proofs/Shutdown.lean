import GrafeoLoro.Proofs.Pipeline

/-!
# `GrafeoLoro.Proofs.Shutdown`: what a shutdown of the inbound path loses

The shutdown arms come first in both `select!`s. So from the signal on the batcher receives
nothing, and its last flush takes the buffer as the signal found it (`AfterShutdown`).

* `shutdown_flushes_iff`: when flushes succeed, the ops accepted before the signal are
  flushed once the loop has returned exactly when the signal found both channels and the
  worker's hand empty.
* `shutdown_drops_op`: an op in the inbound channel at the signal is lost.
-/

set_option autoImplicit false

namespace GrafeoLoro.Proofs

open GrafeoLoro GrafeoLoro.Lib

variable {Op : Type} {batchSize : Nat}

/-- The buffer is empty except while the loop is at its `select!`. -/
def BufferTaken (s : Pipeline Op) : Prop := s.batcher ≠ .atSelect → s.buffer = []

/-- Every step keeps it: a batch leaves the buffer before its flush starts. -/
theorem bufferTaken_step {s u : Pipeline Op} {a : PipelineAction Op}
    (h : s.next batchSize a = some u) (hs : BufferTaken s) : BufferTaken u := by
  cases next_cases h with
  | batcherShutdown | batcherTick => exact fun _ => drain_buffer _ _ _
  | batcherRecv hbatcher =>
    simp only [Pipeline.receive]
    split
    · exact fun hne => absurd hbatcher hne
    · exact fun _ => drain_buffer _ _ _
  | flushOk hbatcher | flushErr hbatcher =>
    have hempty : s.buffer = [] := hs (by rw [hbatcher]; simp)
    exact fun _ => hempty
  | _ => exact hs

/-- The shutdown was signalled when the batcher had received `ops`. -/
structure AfterShutdown (ops : List Op) (s : Pipeline Op) : Prop where
  shutdown : s.shutdown = true
  received : received s = ops
  buffer : BufferTaken s

/-- After the signal the batcher receives nothing. -/
theorem afterShutdown_step {ops : List Op} {s u : Pipeline Op} {a : PipelineAction Op}
    (h : s.next batchSize a = some u) (hs : AfterShutdown ops s) : AfterShutdown ops u := by
  have hbuffer := bufferTaken_step h hs.buffer
  cases next_cases h with
  | batcherShutdown =>
    exact ⟨(drain_shutdown _ _ _).trans hs.shutdown, (received_drain _ _ _).trans hs.received,
      hbuffer⟩
  | batcherTick _ hshutdown | batcherRecv _ hshutdown =>
    rw [hs.shutdown] at hshutdown
    cases hshutdown
  | signal => exact ⟨rfl, hs.received, hbuffer⟩
  | _ => exact ⟨hs.shutdown, hs.received, hbuffer⟩

/-- A run up to the signal, the signal, and a run after it until the loop has returned, with
no failed flush before the signal: the ops accepted before the signal are flushed exactly
when the signal found both channels and the worker's hand empty. -/
theorem shutdown_flushes_iff (batchSize : Nat)
    {before after : List (Pipeline Op × PipelineAction Op)} {s s' t : Pipeline Op}
    (hbefore : Exec (Pipeline.next batchSize) Pipeline.init before s)
    (hfirst : Steps (fun _ a => a ≠ .signal) before)
    (hok : Steps (fun _ a => a ≠ .flushErr) before)
    (hsignal : s.next batchSize .signal = some s')
    (hafter : Exec (Pipeline.next batchSize) s' after t) (hexited : t.batcher = .exited) :
    s.sent <+: t.flushed.flatten ↔ s.inbound = [] ∧ s.hand = [] ∧ s.batchChannel = [] := by
  -- up to the signal the accepted ops are in the four places, in order
  have hrun : Running s :=
    ((hbefore.always_iff (fun _ _ _ => beforeShutdown_step) beforeShutdown_init running_init
      (fun _ _ _ hn _ => running_step_iff hn) hfirst).mpr hok).2
  have hbuffer : BufferTaken s :=
    hbefore.invariant (I := BufferTaken) (fun _ _ _ => bufferTaken_step) fun _ => rfl
  obtain rfl := Option.some.inj hsignal
  -- from the signal on nothing comes into the buffer
  have hlast : AfterShutdown (received s) t :=
    hafter.invariant (I := AfterShutdown (received s)) (fun _ _ _ => afterShutdown_step)
      ⟨rfl, rfl, hbuffer⟩
  have hflushed : t.flushed.flatten = received s := by
    rw [← hlast.received, received, hlast.buffer (by rw [hexited]; simp), List.append_nil]
  rw [hflushed, hrun.conserved]
  constructor
  · intro hprefix
    -- the flushed ops are a part of the accepted ones, so the other parts have length 0
    have hlen := hprefix.length_le
    simp only [List.length_append] at hlen
    exact ⟨List.eq_nil_of_length_eq_zero (by omega), List.eq_nil_of_length_eq_zero (by omega),
      List.eq_nil_of_length_eq_zero (by omega)⟩
  · rintro ⟨h1, h2, h3⟩
    rw [h1, h2, h3]
    simp

/-- The actions of a run whose only op is in the buffer at the signal. -/
def bufferedOp : List (PipelineAction Nat) :=
  [.send 7, .workerRecv, .workerForward, .batcherRecv]

/-- An op in the buffer at the signal is flushed. -/
theorem shutdown_flushes_buffered :
    ∃ after t, Exec (Pipeline.next 2) { (Pipeline.init : Pipeline Nat) with
        buffer := [7], sent := [7], shutdown := true } after t ∧
      t.worker = .exited ∧ t.batcher = .exited ∧ [7] <+: t.flushed.flatten := by
  have hup : runActions (Pipeline.next 2) Pipeline.init bufferedOp
      = some { (Pipeline.init : Pipeline Nat) with buffer := [7], sent := [7] } := rfl
  have hdown : runActions (Pipeline.next 2) { (Pipeline.init : Pipeline Nat) with
        buffer := [7], sent := [7], shutdown := true }
        [.workerShutdown, .batcherShutdown, .flushOk, .workerJoin]
      = some ⟨[], .exited, [], [], .exited, true, [7], [[7]]⟩ := rfl
  obtain ⟨before, hbefore, hacts⟩ := exec_of_run hup
  obtain ⟨after, hafter, -⟩ := exec_of_run hdown
  have hsteps : ∀ b ∉ bufferedOp, Steps (fun _ a => a ≠ b) before := by
    intro b hb
    refine steps_of_actions hacts fun a ha _ hab => ?_
    rw [hab] at ha
    exact hb ha
  exact ⟨after, _, hafter, rfl, rfl,
    (shutdown_flushes_iff 2 hbefore (hsteps _ (by simp [bufferedOp]))
      (hsteps _ (by simp [bufferedOp])) rfl hafter rfl).mpr ⟨rfl, rfl, rfl⟩⟩

/-- An op that is in the inbound channel at the signal is lost: both tasks return, no flush
fails, and the op is in no batch. -/
theorem shutdown_drops_op :
    ∃ h t, Exec (Pipeline.next 2) (Pipeline.init : Pipeline Nat) h t ∧
      h.map Prod.snd = [.send 7, .signal, .workerShutdown, .batcherShutdown, .workerJoin] ∧
      t.worker = .exited ∧ t.batcher = .exited ∧ t.sent = [7] ∧ t.flushed = [] := by
  have hrun : runActions (Pipeline.next 2) (Pipeline.init : Pipeline Nat)
      [.send 7, .signal, .workerShutdown, .batcherShutdown, .workerJoin]
      = some ⟨[7], .exited, [], [], .exited, true, [7], []⟩ := rfl
  obtain ⟨h, hexec, hacts⟩ := exec_of_run hrun
  exact ⟨h, _, hexec, hacts, rfl, rfl, rfl, rfl⟩

end GrafeoLoro.Proofs
