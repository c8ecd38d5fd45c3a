import GrafeoLoro.Lib.Fair
import GrafeoLoro.Proofs.Pipeline

/-!
# `GrafeoLoro.Proofs.BatcherLoop`: the batcher loop over whole runs

What becomes of the inbound path when flushes fail. The results are about runs in which no
shutdown is signalled.

* `batcherLoop_survives_iff`: in a finite run, both tasks stay in their loops and every
  accepted op is accounted for in every state exactly when no flush fails. In an infinite run
  that is fair to both tasks, the loop never exits and every accepted op is passed to a flush
  exactly when no flush fails.
* `batcherLoop_exits`: one failed flush ends the loop, and an op sent later is lost.

The proof of the infinite part follows an op through the stages of the path. Each stage has
a counter of the ops that have left it, and a counter that is behind the one before it grows
(`received_grows`, `flushed_grows`, `forwarded_grows`, `taken_grows`).
-/

set_option autoImplicit false

namespace GrafeoLoro.Proofs

open GrafeoLoro GrafeoLoro.Lib

variable {Op : Type} {batchSize : Nat}

/-- The steps of the inbound worker. -/
def ByWorker : PipelineAction Op → Prop
  | .workerRecv | .workerForward | .workerForwardErr | .workerShutdown | .workerJoin => True
  | _ => False

/-- The steps of the batcher loop, the ends of its flushes included. -/
def ByBatcher : PipelineAction Op → Prop
  | .batcherRecv | .batcherTick | .batcherShutdown | .flushOk | .flushErr => True
  | _ => False

/-- Number of ops that the worker has taken from the inbound channel. -/
def taken (s : Pipeline Op) : Nat :=
  (received s).length + s.batchChannel.length + s.hand.length

/-- Number of ops that the worker has put into the batcher channel. -/
def forwarded (s : Pipeline Op) : Nat := (received s).length + s.batchChannel.length

/-- Number of ops in flushed batches. -/
def flushedCount (s : Pipeline Op) : Nat := s.flushed.flatten.length

/-! ### One step of one task -/

/-- A step that is not the worker's leaves the worker alone. It takes nothing from the inbound
channel and puts nothing into the batcher channel. -/
theorem not_byWorker_step {s u : Pipeline Op} {a : PipelineAction Op}
    (h : s.next batchSize a = some u) (ha : ¬ ByWorker a) :
    u.worker = s.worker ∧ s.inbound <+: u.inbound ∧ u.batchChannel <:+ s.batchChannel ∧
      forwarded u = forwarded s := by
  cases next_cases h with
  | send => exact ⟨rfl, List.prefix_append _ _, List.suffix_rfl, rfl⟩
  | workerRecv | workerForward | workerForwardErr | workerShutdown | workerJoin =>
    exact absurd trivial ha
  | batcherShutdown | batcherTick =>
    refine ⟨drain_worker _ _ _, by simp, by simp, ?_⟩
    simp [forwarded]
  | batcherRecv _ _ hchannel =>
    refine ⟨receive_worker _ _ _, by simp, by simp [hchannel, List.suffix_cons], ?_⟩
    rw [forwarded, received_receive, receive_batchChannel, forwarded, hchannel]
    simp only [List.length_append, List.length_cons, List.length_nil]
    omega
  | flushOk | flushErr | signal => exact ⟨rfl, List.prefix_rfl, List.suffix_rfl, rfl⟩

/-- A step that is not the batcher's leaves the batcher and its buffer alone, and takes
nothing from the batcher channel. -/
theorem not_byBatcher_step {s u : Pipeline Op} {a : PipelineAction Op}
    (h : s.next batchSize a = some u) (ha : ¬ ByBatcher a) :
    u.batcher = s.batcher ∧ u.buffer = s.buffer ∧ u.flushed = s.flushed ∧
      s.batchChannel <+: u.batchChannel := by
  cases next_cases h with
  | send | workerRecv | workerForwardErr | workerShutdown | workerJoin | signal =>
    exact ⟨rfl, rfl, rfl, List.prefix_rfl⟩
  | workerForward => exact ⟨rfl, rfl, rfl, List.prefix_append _ _⟩
  | batcherShutdown | batcherTick | batcherRecv | flushOk | flushErr => exact absurd trivial ha

/-- A step of the worker before a shutdown: it takes an op, or it forwards the op it has. -/
theorem byWorker_step {s u : Pipeline Op} {a : PipelineAction Op}
    (h : s.next batchSize a = some u) (ha : ByWorker a) (hbefore : BeforeShutdown s)
    (hrun : Running s) :
    (s.worker = .atSelect ∧ forwarded u = forwarded s ∧ taken u = taken s + 1) ∨
      (s.hand ≠ [] ∧ forwarded u = forwarded s + 1 ∧ taken u = taken s) := by
  cases next_cases h with
  | workerRecv hworker _ hinbound =>
    refine .inl ⟨hworker, rfl, ?_⟩
    rw [taken, taken, hand_atSelect hworker, hand_forwarding rfl]
    rfl
  | workerForward hworker _ _ =>
    have hhand := hand_forwarding hworker
    refine .inr ⟨by simp [hhand], ?_, ?_⟩
    · simp only [forwarded, received, List.length_append, List.length_cons, List.length_nil]
      omega
    · rw [taken, taken, hhand, hand_atSelect rfl]
      simp only [received, List.length_append, List.length_cons, List.length_nil]
      omega
  | workerForwardErr _ hbatcher | workerJoin _ hbatcher => exact absurd hbatcher hrun.batcher
  | workerShutdown _ hs =>
    rw [hbefore.shutdown] at hs
    cases hs
  | send | batcherShutdown | batcherTick | batcherRecv | flushOk | flushErr | signal =>
    exact ha.elim

/-- A step of the batcher before a shutdown that is not a failed flush: it ends a flush, or
it takes an op from the channel, or it passes the buffer to a flush on a tick. -/
theorem byBatcher_step {s u : Pipeline Op} {a : PipelineAction Op}
    (h : s.next batchSize a = some u) (ha : ByBatcher a) (hok : a ≠ .flushErr)
    (hbefore : BeforeShutdown s) :
    (s.batcher = .flushing false ∧ u = { s with batcher := .atSelect }) ∨
      (s.batcher = .atSelect ∧ ∃ op rest, s.batchChannel = op :: rest ∧
        u = s.receive batchSize op rest) ∨
      (s.batcher = .atSelect ∧ s.batchChannel = [] ∧ u = s.drain false .atSelect) := by
  cases next_cases h with
  | @flushOk last hbatcher =>
    cases last with
    | false => exact .inl ⟨hbatcher, rfl⟩
    | true => exact absurd hbatcher hbefore.batcher
  | batcherRecv hbatcher _ hchannel => exact .inr (.inl ⟨hbatcher, _, _, hchannel, rfl⟩)
  | batcherTick hbatcher _ hchannel => exact .inr (.inr ⟨hbatcher, hchannel, rfl⟩)
  | batcherShutdown _ hs =>
    rw [hbefore.shutdown] at hs
    cases hs
  | flushErr => exact absurd rfl hok
  | send | workerRecv | workerForward | workerForwardErr | workerShutdown | workerJoin | signal =>
    exact ha.elim

/-- A step takes no op back from the accepted ones. -/
theorem sent_step {s u : Pipeline Op} {a : PipelineAction Op}
    (h : s.next batchSize a = some u) : s.sent <+: u.sent := by
  cases next_cases h with
  | send => exact List.prefix_append _ _
  | batcherShutdown | batcherTick =>
    simp only [drain_sent, List.prefix_rfl]
  | batcherRecv =>
    simp only [receive_sent, List.prefix_rfl]
  | _ => exact List.prefix_rfl

/-- The list of accepted ops only grows. -/
theorem sent_mono (r : InfRun (Pipeline.next batchSize) (Pipeline.init : Pipeline Op))
    {i j : Nat} (hij : i ≤ j) : (r.state i).sent <+: (r.state j).sent := by
  induction j, hij using Nat.le_induction with
  | base => exact List.prefix_rfl
  | succ j _ ih => exact ih.trans (sent_step (r.step j))

/-- A loop that has returned flushes nothing more. -/
theorem exited_step {s u : Pipeline Op} {a : PipelineAction Op}
    (h : s.next batchSize a = some u) (hexited : s.batcher = .exited) :
    u.batcher = .exited ∧ u.flushed = s.flushed := by
  by_cases ha : ByBatcher a
  · cases next_cases h with
    | batcherShutdown hb | batcherTick hb | batcherRecv hb | flushOk hb | flushErr hb =>
      rw [hexited] at hb
      cases hb
    | send | workerRecv | workerForward | workerForwardErr | workerShutdown | workerJoin
    | signal => exact ha.elim
  · obtain ⟨hbatcher, -, hflushed, -⟩ := not_byBatcher_step h ha
    exact ⟨hbatcher.trans hexited, hflushed⟩

/-- A worker that holds an op can forward it into an empty batcher channel. -/
theorem forward_enabled {s : Pipeline Op} (hbatcher : s.batcher ≠ .exited) (hhand : s.hand ≠ [])
    (hchannel : s.batchChannel = []) : Enabled (Pipeline.next batchSize) ByWorker s := by
  cases hworker : s.worker with
  | forwarding op =>
    refine ⟨.workerForward, { s with batchChannel := [op], worker := .atSelect }, trivial, ?_⟩
    cases hb : s.batcher with
    | exited => exact absurd hb hbatcher
    | atSelect | flushing => simp [Pipeline.next, hworker, hb, hchannel, channelCapacity]
  | atSelect | joining | exited => simp [Pipeline.hand, hworker] at hhand

/-- A worker at its `select!` can take an op before a shutdown. -/
theorem recv_enabled {s : Pipeline Op} (hshutdown : s.shutdown = false)
    (hworker : s.worker = .atSelect) (hinbound : 0 < s.inbound.length) :
    Enabled (Pipeline.next batchSize) ByWorker s := by
  obtain ⟨op, rest, hin⟩ := List.exists_cons_of_length_pos hinbound
  refine ⟨.workerRecv, { s with inbound := rest, worker := .forwarding op }, trivial, ?_⟩
  simp [Pipeline.next, hworker, hshutdown, hin]

/-! ### The stages of an infinite run without a failed flush -/

section Stages
variable {r : InfRun (Pipeline.next batchSize) (Pipeline.init : Pipeline Op)}
  (hsignal : ∀ i, r.act i ≠ .signal) (hok : ∀ i, r.act i ≠ .flushErr)
include hsignal

/-- No state of the run is after a shutdown. -/
theorem infRun_beforeShutdown (i : Nat) : BeforeShutdown (r.state i) :=
  ((r.exec i).invariant_of_steps (C := fun _ a => a ≠ .signal)
    (fun _ _ _ => beforeShutdown_step) beforeShutdown_init (r.steps hsignal i)).2

include hok

/-- Both tasks run in every state. -/
theorem infRun_running (i : Nat) : Running (r.state i) := by
  induction i with
  | zero =>
    rw [r.start]
    exact running_init
  | succ i ih =>
    exact (running_step_iff (r.step i) (infRun_beforeShutdown hsignal i) ih).mpr (hok i)

/-- In a running state the batcher can move. -/
theorem batcher_enabled (i : Nat) :
    Enabled (Pipeline.next batchSize) ByBatcher (r.state i) := by
  have hbefore := infRun_beforeShutdown hsignal i
  have hrun := infRun_running hsignal hok i
  cases hbatcher : (r.state i).batcher with
  | atSelect =>
    cases hchannel : (r.state i).batchChannel with
    | nil => exact ⟨.batcherTick, _, trivial, by
        simp only [Pipeline.next, hbatcher, hbefore.shutdown, hchannel]; rfl⟩
    | cons op rest => exact ⟨.batcherRecv, _, trivial, by
        simp only [Pipeline.next, hbatcher, hbefore.shutdown, hchannel]; rfl⟩
  | flushing last =>
    cases last with
    | false => exact ⟨.flushOk, _, trivial, by simp only [Pipeline.next, hbatcher]; rfl⟩
    | true => exact absurd hbatcher hbefore.batcher
  | exited => exact absurd hbatcher hrun.batcher

variable (hbatcher : r.Fair ByBatcher)
include hbatcher

/-- The batcher comes to its `select!` and moves, with the buffer it had and no op taken from
its channel meanwhile. -/
theorem batcher_turn (i : Nat) : ∃ j, i ≤ j ∧ (r.state j).batcher = .atSelect ∧
    ByBatcher (r.act j) ∧ (r.state j).buffer = (r.state i).buffer ∧
    (r.state j).flushed = (r.state i).flushed ∧
    (r.state i).batchChannel <+: (r.state j).batchChannel := by
  -- what the other tasks keep, from any point on
  have hmove : ∀ i, ∃ j, i ≤ j ∧ ((r.state j).batcher = (r.state i).batcher ∧
      (r.state j).buffer = (r.state i).buffer ∧ (r.state j).flushed = (r.state i).flushed ∧
      (r.state i).batchChannel <+: (r.state j).batchChannel) ∧ ByBatcher (r.act j) := by
    intro i
    refine InfRun.nextMove hbatcher (P := fun s => s.batcher = (r.state i).batcher ∧
      s.buffer = (r.state i).buffer ∧ s.flushed = (r.state i).flushed ∧
      (r.state i).batchChannel <+: s.batchChannel) ?_ ?_ ⟨rfl, rfl, rfl, List.prefix_rfl⟩
    · rintro j ⟨h1, h2, h3, h4⟩ hother
      obtain ⟨g1, g2, g3, g4⟩ := not_byBatcher_step (r.step j) hother
      exact ⟨g1.trans h1, g2.trans h2, g3.trans h3, h4.trans g4⟩
    · exact fun j _ => batcher_enabled hsignal hok j
  obtain ⟨j, hij, ⟨h1, h2, h3, h4⟩, hmine⟩ := hmove i
  rcases byBatcher_step (r.step j) hmine (hok j) (infRun_beforeShutdown hsignal j) with
    ⟨-, hnext⟩ | ⟨hat, -⟩ | ⟨hat, -⟩
  · -- the end of a flush: the next move is at the `select!`
    obtain ⟨k, hjk, ⟨g1, g2, g3, g4⟩, hmine'⟩ := hmove (j + 1)
    rw [hnext] at g1 g2 g3 g4
    exact ⟨k, by omega, g1, hmine', g2.trans h2, g3.trans h3, h4.trans g4⟩
  · exact ⟨j, hij, hat, hmine, h2, h3, h4⟩
  · exact ⟨j, hij, hat, hmine, h2, h3, h4⟩

/-- An op in the batcher channel is received. -/
theorem received_grows (i : Nat)
    (hbehind : (received (r.state i)).length < forwarded (r.state i)) :
    ∃ j, i ≤ j ∧ (received (r.state i)).length < (received (r.state j)).length := by
  obtain ⟨j, hij, hat, hmine, hbuffer, hflushed, hchannel⟩ :=
    batcher_turn hsignal hok hbatcher i
  have hsame : received (r.state j) = received (r.state i) := by
    rw [received, received, hbuffer, hflushed]
  have hlen := hchannel.length_le
  unfold forwarded at hbehind
  rcases byBatcher_step (r.step j) hmine (hok j) (infRun_beforeShutdown hsignal j) with
    ⟨hfl, -⟩ | ⟨-, op, rest, -, hnext⟩ | ⟨-, hempty, -⟩
  · rw [hat] at hfl
    cases hfl
  · refine ⟨j + 1, by omega, ?_⟩
    rw [hnext, received_receive, hsame, List.length_append, List.length_singleton]
    omega
  · rw [hempty, List.length_nil] at hlen
    omega

/-- A buffered op is passed to a flush: the buffer fills up, or a tick takes it. -/
theorem flushed_grows (i : Nat)
    (hbehind : flushedCount (r.state i) < (received (r.state i)).length) :
    ∃ j, i ≤ j ∧ flushedCount (r.state i) < flushedCount (r.state j) := by
  -- the room left in the buffer shrinks with every receive that does not flush
  induction hroom : batchSize - (r.state i).buffer.length using Nat.strong_induction_on
    generalizing i with
  | _ room ih =>
    obtain ⟨j, hij, hat, hmine, hbuffer, hflushed, -⟩ := batcher_turn hsignal hok hbatcher i
    have hsame : received (r.state j) = received (r.state i) := by
      rw [received, received, hbuffer, hflushed]
    have hcount : flushedCount (r.state j) = flushedCount (r.state i) := by
      rw [flushedCount, flushedCount, hflushed]
    rcases byBatcher_step (r.step j) hmine (hok j) (infRun_beforeShutdown hsignal j) with
      ⟨hfl, -⟩ | ⟨-, op, rest, -, hnext⟩ | ⟨-, -, hnext⟩
    · rw [hat] at hfl
      cases hfl
    · by_cases hfull : ((r.state j).buffer ++ [op]).length < batchSize
      · have hstep : r.state (j + 1) = { r.state j with
            batchChannel := rest, buffer := (r.state j).buffer ++ [op] } := by
          rw [hnext, Pipeline.receive]
          exact if_pos hfull
        have hkeep : flushedCount (r.state (j + 1)) = flushedCount (r.state i) := by
          rw [← hcount, hstep]
          rfl
        have hgrown : (received (r.state (j + 1))).length = (received (r.state i)).length + 1 := by
          rw [hnext, received_receive, hsame, List.length_append, List.length_singleton]
        have hless : batchSize - (r.state (j + 1)).buffer.length < room := by
          rw [hstep, ← hroom, ← hbuffer]
          simp only [List.length_append, List.length_singleton] at hfull ⊢
          omega
        obtain ⟨k, hjk, hk⟩ := ih _ hless (j + 1) (by omega) rfl
        exact ⟨k, by omega, by omega⟩
      · refine ⟨j + 1, by omega, ?_⟩
        have hstep : r.state (j + 1) = ({ r.state j with
            batchChannel := rest
            buffer := (r.state j).buffer ++ [op] } : Pipeline Op).drain false .atSelect := by
          rw [hnext, Pipeline.receive]
          exact if_neg hfull
        have hall : flushedCount (r.state (j + 1)) = (received (r.state i)).length + 1 := by
          rw [flushedCount, hstep, drain_flushed, ← hsame, received]
          simp only [List.length_append, List.length_singleton]
          omega
        omega
    · refine ⟨j + 1, by omega, ?_⟩
      have hall : flushedCount (r.state (j + 1)) = (received (r.state i)).length := by
        rw [flushedCount, hnext, drain_flushed, ← hsame, received]
      omega

omit hbatcher

/-- The counters of one step: none of them shrinks. -/
theorem counters_step (i : Nat) :
    taken (r.state i) ≤ taken (r.state (i + 1)) ∧
      forwarded (r.state i) ≤ forwarded (r.state (i + 1)) := by
  by_cases hmine : ByWorker (r.act i)
  · rcases byWorker_step (r.step i) hmine (infRun_beforeShutdown hsignal i)
      (infRun_running hsignal hok i) with ⟨-, h1, h2⟩ | ⟨-, h1, h2⟩ <;> omega
  · obtain ⟨hworker, -, -, hforwarded⟩ := not_byWorker_step (r.step i) hmine
    have htaken : taken (r.state (i + 1)) = taken (r.state i) := by
      unfold taken
      unfold forwarded at hforwarded
      rw [hforwarded, hand_congr hworker]
    omega

theorem forwarded_mono : Monotone fun i => forwarded (r.state i) :=
  monotone_nat_of_le_succ fun i => (counters_step hsignal hok i).2

theorem taken_mono : Monotone fun i => taken (r.state i) :=
  monotone_nat_of_le_succ fun i => (counters_step hsignal hok i).1

/-- The accepted ops are the taken ones and those in the inbound channel. -/
theorem sent_length (i : Nat) :
    (r.state i).sent.length = taken (r.state i) + (r.state i).inbound.length := by
  rw [(infRun_running hsignal hok i).conserved]
  simp only [List.length_append, taken]

variable (hbatcher : r.Fair ByBatcher) (hworker : r.Fair ByWorker)
include hbatcher hworker

/-- An op in the worker's hand is forwarded. A full batcher channel is emptied first. -/
theorem forwarded_grows (i : Nat) (hbehind : forwarded (r.state i) < taken (r.state i)) :
    ∃ j, i ≤ j ∧ forwarded (r.state i) < forwarded (r.state j) := by
  have hmono := forwarded_mono hsignal hok
  -- the batcher receives everything that was in its channel
  have hdrained : ∃ j, i ≤ j ∧ forwarded (r.state i) ≤ (received (r.state j)).length := by
    rcases Nat.eq_zero_or_pos (forwarded (r.state i)) with hzero | hpos
    · exact ⟨i, Nat.le_refl i, by omega⟩
    · obtain ⟨j, hij, hj⟩ := catchUp hmono (received_grows hsignal hok hbatcher)
        (i := i) (n := forwarded (r.state i) - 1) (by omega)
      exact ⟨j, hij, by omega⟩
  obtain ⟨j, hij, hj⟩ := hdrained
  have hle : forwarded (r.state i) ≤ forwarded (r.state j) := hmono hij
  rcases Nat.lt_or_ge (forwarded (r.state i)) (forwarded (r.state j)) with hlt | hge
  · exact ⟨j, hij, hlt⟩
  -- nothing was forwarded, so the channel is empty and the worker still has the op
  have htaken : taken (r.state i) ≤ taken (r.state j) := taken_mono hsignal hok hij
  have hempty : (r.state j).batchChannel = [] := by
    refine List.eq_nil_of_length_eq_zero ?_
    have hdef : forwarded (r.state j)
      = (received (r.state j)).length + (r.state j).batchChannel.length := rfl
    omega
  have hhand : (r.state j).hand ≠ [] := by
    intro hnil
    have hdef : taken (r.state j) = forwarded (r.state j) + (r.state j).hand.length := rfl
    rw [hnil, List.length_nil] at hdef
    omega
  obtain ⟨k, hjk, ⟨-, hk2, hk3⟩, hmine⟩ := InfRun.nextMove hworker
    (P := fun s => s.batchChannel = [] ∧ s.hand ≠ [] ∧ forwarded s = forwarded (r.state j))
    (fun k ⟨h1, h2, h3⟩ hother => by
      obtain ⟨g1, -, g2, g3⟩ := not_byWorker_step (r.step k) hother
      rw [h1, List.suffix_nil] at g2
      exact ⟨g2, by rw [hand_congr g1]; exact h2, g3.trans h3⟩)
    (fun k ⟨h1, h2, _⟩ => forward_enabled (infRun_running hsignal hok k).batcher h2 h1)
    ⟨hempty, hhand, rfl⟩
  refine ⟨k + 1, by omega, ?_⟩
  rcases byWorker_step (r.step k) hmine (infRun_beforeShutdown hsignal k)
    (infRun_running hsignal hok k) with ⟨hat, -⟩ | ⟨-, hforwarded, -⟩
  · exact absurd (hand_atSelect hat) hk2
  · omega

/-- An op in the inbound channel is taken by the worker. The op in the worker's hand is
forwarded first. -/
theorem taken_grows (i : Nat) (hbehind : taken (r.state i) < (r.state i).sent.length) :
    ∃ j, i ≤ j ∧ taken (r.state i) < taken (r.state j) := by
  -- the worker comes to its `select!`
  have hfree : ∃ j, i ≤ j ∧ (taken (r.state i) < taken (r.state j) ∨
      (r.state j).worker = .atSelect) := by
    rcases (infRun_running hsignal hok i).worker with hat | ⟨op, hop⟩
    · exact ⟨i, Nat.le_refl i, .inr hat⟩
    · have hdef : taken (r.state i) = forwarded (r.state i) + (r.state i).hand.length := rfl
      rw [hand_forwarding hop, List.length_singleton] at hdef
      obtain ⟨j, hij, hj⟩ := forwarded_grows hsignal hok hbatcher hworker i (by omega)
      refine ⟨j, hij, ?_⟩
      rcases (infRun_running hsignal hok j).worker with hat | ⟨op', hop'⟩
      · exact .inr hat
      · have hdef' : taken (r.state j) = forwarded (r.state j) + (r.state j).hand.length := rfl
        rw [hand_forwarding hop', List.length_singleton] at hdef'
        exact .inl (by omega)
  obtain ⟨j, hij, hlt | hat⟩ := hfree
  · exact ⟨j, hij, hlt⟩
  have hle : taken (r.state i) ≤ taken (r.state j) := taken_mono hsignal hok hij
  rcases Nat.lt_or_ge (taken (r.state i)) (taken (r.state j)) with hlt | hge
  · exact ⟨j, hij, hlt⟩
  -- nothing was taken, so the inbound channel is not empty
  have hinbound : 0 < (r.state j).inbound.length := by
    have hsent := (sent_mono r hij).length_le
    have hj := sent_length hsignal hok j
    omega
  obtain ⟨k, hjk, ⟨hk1, -, hk3⟩, hmine⟩ := InfRun.nextMove hworker
    (P := fun s => s.worker = .atSelect ∧ 0 < s.inbound.length ∧ taken s = taken (r.state j))
    (fun k ⟨h1, h2, h3⟩ hother => by
      obtain ⟨g1, g2, -, g3⟩ := not_byWorker_step (r.step k) hother
      refine ⟨g1.trans h1, Nat.lt_of_lt_of_le h2 g2.length_le, ?_⟩
      have hdef : taken (r.state (k + 1)) = forwarded (r.state (k + 1))
        + (r.state (k + 1)).hand.length := rfl
      rw [hdef, g3, hand_congr g1]
      exact h3)
    (fun k ⟨h1, h2, _⟩ => recv_enabled (infRun_beforeShutdown hsignal k).shutdown h1 h2)
    ⟨hat, hinbound, rfl⟩
  refine ⟨k + 1, by omega, ?_⟩
  rcases byWorker_step (r.step k) hmine (infRun_beforeShutdown hsignal k)
    (infRun_running hsignal hok k) with ⟨-, -, htaken⟩ | ⟨hhand, -⟩
  · omega
  · exact absurd (hand_atSelect hk1) hhand

/-- Every accepted op is passed to a flush, in its turn. -/
theorem sent_flushed {i k : Nat} (hk : k < (r.state i).sent.length) :
    ∃ j, i ≤ j ∧ (r.state j).flushed.flatten[k]? = (r.state i).sent[k]? := by
  have hsent : Monotone fun i => (r.state i).sent.length :=
    monotone_nat_of_le_succ fun i => (sent_step (r.step i)).length_le
  have hreceived : Monotone fun i => (received (r.state i)).length := by
    refine monotone_nat_of_le_succ fun i => ?_
    by_cases hmine : ByBatcher (r.act i)
    · rcases byBatcher_step (r.step i) hmine (hok i) (infRun_beforeShutdown hsignal i) with
        ⟨-, hnext⟩ | ⟨-, op, rest, -, hnext⟩ | ⟨-, -, hnext⟩
      · rw [hnext]
        exact Nat.le_refl _
      · rw [hnext, received_receive, List.length_append]
        omega
      · rw [hnext, received_drain]
    · obtain ⟨-, hbuffer, hflushed, -⟩ := not_byBatcher_step (r.step i) hmine
      rw [received, received, hbuffer, hflushed]
  -- the op passes the four stages one after the other
  obtain ⟨j1, h1, hj1⟩ := catchUp hsent (taken_grows hsignal hok hbatcher hworker) hk
  obtain ⟨j2, h2, hj2⟩ := catchUp (taken_mono hsignal hok)
    (forwarded_grows hsignal hok hbatcher hworker) hj1
  obtain ⟨j3, h3, hj3⟩ := catchUp (forwarded_mono hsignal hok)
    (received_grows hsignal hok hbatcher) hj2
  obtain ⟨j, h4, hj⟩ := catchUp hreceived (flushed_grows hsignal hok hbatcher) hj3
  refine ⟨j, by omega, ?_⟩
  have hconserved := (infRun_running hsignal hok j).conserved
  have hprefix : (r.state j).flushed.flatten <+: (r.state j).sent := by
    rw [hconserved, received]
    simp only [List.append_assoc]
    exact List.prefix_append _ _
  have hflushed := List.prefix_iff_getElem?.mp hprefix k hj
  have hsame := List.prefix_iff_getElem?.mp (sent_mono r (show i ≤ j by omega)) k hk
  rw [List.getElem?_eq_getElem hk, ← hsame, hflushed]
  exact List.getElem?_eq_getElem hj

end Stages

/-! ### Whole runs -/

/-- In a finite run without a shutdown, both tasks stay in their loops and no op is lost
exactly when no flush fails. In an infinite run without a shutdown that is fair to both
tasks, the batcher loop never exits and every accepted op is passed to a flush exactly when
no flush fails. -/
theorem batcherLoop_survives_iff (batchSize : Nat) :
    (∀ (h : List (Pipeline Op × PipelineAction Op)) (t : Pipeline Op),
      Exec (Pipeline.next batchSize) Pipeline.init h t → Steps (fun _ a => a ≠ .signal) h →
      (Always Running h t ↔ Steps (fun _ a => a ≠ .flushErr) h)) ∧
    (∀ r : InfRun (Pipeline.next batchSize) (Pipeline.init : Pipeline Op),
      (∀ i, r.act i ≠ .signal) → r.Fair ByWorker → r.Fair ByBatcher →
      (((∀ i, (r.state i).batcher ≠ .exited) ∧
          ∀ i k, k < (r.state i).sent.length →
            ∃ j, i ≤ j ∧ (r.state j).flushed.flatten[k]? = (r.state i).sent[k]?) ↔
        ∀ i, r.act i ≠ .flushErr)) := by
  constructor
  · intro h t hrun hsignal
    exact hrun.always_iff (I := BeforeShutdown) (fun _ _ _ => beforeShutdown_step)
      beforeShutdown_init running_init (fun _ _ _ hn _ => running_step_iff hn) hsignal
  · intro r hsignal hworker hbatcher
    constructor
    · rintro ⟨halive, -⟩ i hfail
      have hstep := next_cases (r.step i)
      rw [hfail] at hstep
      generalize hu : r.state (i + 1) = u at hstep
      cases hstep
      exact halive (i + 1) (by rw [hu])
    · intro hok
      exact ⟨fun i => (infRun_running hsignal hok i).batcher,
        fun i k hk => sent_flushed hsignal hok hbatcher hworker hk⟩

/-- One op goes through the path, and then the loop ticks for ever. -/
def oneOpRun : InfRun (Pipeline.next 1) (Pipeline.init : Pipeline Nat) where
  state
    | 0 => Pipeline.init
    | 1 => { Pipeline.init with inbound := [7], sent := [7] }
    | 2 => { Pipeline.init with worker := .forwarding 7, sent := [7] }
    | 3 => { Pipeline.init with batchChannel := [7], sent := [7] }
    | 4 => { Pipeline.init with batcher := .flushing false, sent := [7], flushed := [[7]] }
    | _ + 5 => { Pipeline.init with sent := [7], flushed := [[7]] }
  act
    | 0 => .send 7
    | 1 => .workerRecv
    | 2 => .workerForward
    | 3 => .batcherRecv
    | 4 => .flushOk
    | _ + 5 => .batcherTick
  start := rfl
  step
    | 0 | 1 | 2 | 3 | 4 | _ + 5 => rfl

/-- The run is fair: the worker has nothing to do in the end, and the batcher ticks. -/
theorem oneOpRun_fair : oneOpRun.Fair ByWorker ∧ oneOpRun.Fair ByBatcher := by
  refine ⟨fun i => ⟨i + 5, by omega, .inr ?_⟩, fun i => ⟨i + 5, by omega, .inl trivial⟩⟩
  rintro ⟨a, u, ha, hu⟩
  cases a with
  | workerRecv | workerForward | workerForwardErr | workerShutdown | workerJoin => cases hu
  | _ => exact ha.elim

/-- The op of `oneOpRun` is passed to a flush, and the first five steps keep both tasks
running. -/
theorem batcherLoop_survives_oneOp :
    Always Running ((List.range 5).map fun j => (oneOpRun.state j, oneOpRun.act j))
        (oneOpRun.state 5) ∧
      ∃ j, 1 ≤ j ∧ (oneOpRun.state j).flushed.flatten[0]? = some 7 := by
  have hsignal : ∀ i, oneOpRun.act i ≠ .signal := by
    intro i
    match i with
    | 0 | 1 | 2 | 3 | 4 | _ + 5 => exact nofun
  have hok : ∀ i, oneOpRun.act i ≠ .flushErr := by
    intro i
    match i with
    | 0 | 1 | 2 | 3 | 4 | _ + 5 => exact nofun
  constructor
  · exact ((batcherLoop_survives_iff 1).1 _ _ (oneOpRun.exec 5)
      (oneOpRun.steps hsignal 5)).mpr (oneOpRun.steps hok 5)
  · exact (((batcherLoop_survives_iff 1).2 oneOpRun hsignal oneOpRun_fair.1
      oneOpRun_fair.2).mpr hok).2 1 0 (by decide)

/-- One failed flush ends the loop before any shutdown. The op that was sent after it is
accepted, and no continuation of the run passes it to a flush. -/
theorem batcherLoop_exits :
    ∃ h t, Exec (Pipeline.next 1) (Pipeline.init : Pipeline Nat) h t ∧
      Steps (fun _ a => a ≠ .signal) h ∧ t.batcher = .exited ∧ t.sent = [1, 2] ∧
      ∀ h' u, Exec (Pipeline.next 1) t h' u → u.flushed = [[1]] := by
  have hrun : runActions (Pipeline.next 1) (Pipeline.init : Pipeline Nat)
      [.send 1, .workerRecv, .workerForward, .batcherRecv, .flushErr, .send 2, .workerRecv,
        .workerForwardErr]
      = some { Pipeline.init with
          worker := .joining, batcher := .exited, sent := [1, 2], flushed := [[1]] } := rfl
  obtain ⟨h, hexec, hacts⟩ := exec_of_run hrun
  refine ⟨h, _, hexec, ?_, rfl, rfl, ?_⟩
  · refine steps_of_actions hacts fun a ha _ hsig => ?_
    rw [hsig] at ha
    simp at ha
  · intro h' u hrest
    exact (hrest.invariant (I := fun s => s.batcher = .exited ∧ s.flushed = [[1]])
      (fun _ _ _ hn hI =>
        ⟨(exited_step hn hI.1).1, (exited_step hn hI.1).2.trans hI.2⟩) ⟨rfl, rfl⟩).2

end GrafeoLoro.Proofs
