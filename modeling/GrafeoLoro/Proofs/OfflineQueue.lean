import GrafeoLoro.Bridge.Queue
import GrafeoLoro.Lib.Exec

/-!
# `GrafeoLoro.Proofs.OfflineQueue`: what a run of the offline queue keeps

The history of a run tells which ops were accepted and which lists were drained. The queue loses,
repeats and reorders no op that it accepted, and its byte count is the bytes it holds.

* `offlineQueue_law`: the law of every run from an empty queue with any cap.
-/

set_option autoImplicit false

namespace GrafeoLoro.Proofs

open GrafeoLoro GrafeoLoro.Lib

/-- The call is one of the retry counter. -/
def isRetry : QueueCall → Bool
  | .retryBump => true
  | .resetRetry => true
  | _ => false

/-- The op that a step of the queue accepts. -/
def acceptedOp (p : OfflineOpQueue × QueueCall) : Option (List UInt8) :=
  match p.2 with
  | .enqueue opBytes =>
    match (p.1.enqueue opBytes).1 with
    | .ok () => some opBytes
    | .error _ => none
  | _ => none

/-- The list that a step of the queue drains. -/
def drainedList (p : OfflineOpQueue × QueueCall) : Option (List (List UInt8)) :=
  match p.2 with
  | .drain => some p.1.drain.1
  | _ => none

/-- The ops that were accepted in a run, in order. -/
def acceptedOps (h : List (OfflineOpQueue × QueueCall)) : List (List UInt8) :=
  h.filterMap acceptedOp

/-- The lists that were drained in a run, in order. -/
def drainedLists (h : List (OfflineOpQueue × QueueCall)) : List (List (List UInt8)) :=
  h.filterMap drainedList

/-- The sum of the lengths of the ops. -/
def opBytesSum : List (List UInt8) → Nat
  | [] => 0
  | opBytes :: rest => opBytes.length + opBytesSum rest

/-! ### One call -/

/-- The op does not fit: the byte count would go over the cap, or not fit into a `usize`. -/
def Overflows (q : OfflineOpQueue) (opBytes : List UInt8) : Prop :=
  q.capBytes < q.bytesUsed + opBytes.length ∨
    OfflineOpQueue.usizeSize ≤ q.bytesUsed + opBytes.length

/-- An op that does not fit is refused and changes nothing, and an op that fits is appended. -/
theorem enqueue_spec (q : OfflineOpQueue) (opBytes : List UInt8) :
    (Overflows q opBytes ∧ ∃ e, q.enqueue opBytes = (.error e, q)) ∨
    (¬ Overflows q opBytes ∧ q.enqueue opBytes = (.ok (), { q with
      totalBytes := q.totalBytes + opBytes.length, ops := q.ops ++ [opBytes] })) := by
  unfold OfflineOpQueue.enqueue Overflows OfflineOpQueue.bytesUsed
  by_cases hsize : OfflineOpQueue.usizeSize ≤ q.totalBytes + opBytes.length
  · simp [hsize]
  · by_cases hcap : q.capBytes < q.totalBytes + opBytes.length
    · simp [hsize, hcap]
    · simp [hsize, hcap]

/-- The bytes are those of the ops, and they are under the cap. -/
structure QueueOk (cap : Nat) (q : OfflineOpQueue) : Prop where
  capBytes : q.capBytes = cap
  bytes : q.bytesUsed = opBytesSum q.ops
  fits : q.bytesUsed ≤ cap

/-- What a call does: it appends an op that fits, refuses one that does not, takes all ops, or
changes the retry counter alone. -/
theorem queue_next_cases {q u : OfflineOpQueue} {a : QueueCall} (h : q.next a = some u) :
    (∃ opBytes, a = .enqueue opBytes ∧ ¬ Overflows q opBytes ∧
      acceptedOp (q, a) = some opBytes ∧
      u = { q with totalBytes := q.totalBytes + opBytes.length, ops := q.ops ++ [opBytes] }) ∨
    (∃ opBytes, a = .enqueue opBytes ∧ Overflows q opBytes ∧ acceptedOp (q, a) = none ∧ u = q) ∨
    (a = .drain ∧ u = { q with ops := [], totalBytes := 0 }) ∨
    (isRetry a = true ∧ ∃ retryCount, u = { q with retryCount }) := by
  cases a with
  | enqueue opBytes =>
    have hu : (q.enqueue opBytes).2 = u := Option.some.inj h
    rcases enqueue_spec q opBytes with ⟨hover, e, heq⟩ | ⟨hfits, heq⟩
    · refine .inr (.inl ⟨opBytes, rfl, hover, ?_, ?_⟩)
      · simp [acceptedOp, heq]
      · rw [← hu, heq]
    · refine .inl ⟨opBytes, rfl, hfits, ?_, ?_⟩
      · simp [acceptedOp, heq]
      · rw [← hu, heq]
  | drain => exact .inr (.inr (.inl ⟨rfl, (Option.some.inj h).symm⟩))
  | retryBump => exact .inr (.inr (.inr ⟨rfl, _, (Option.some.inj h).symm⟩))
  | resetRetry => exact .inr (.inr (.inr ⟨rfl, _, (Option.some.inj h).symm⟩))

theorem opBytesSum_snoc (ops : List (List UInt8)) (opBytes : List UInt8) :
    opBytesSum (ops ++ [opBytes]) = opBytesSum ops + opBytes.length := by
  induction ops with
  | nil => simp [opBytesSum]
  | cons first rest ih =>
    simp only [List.cons_append, opBytesSum, ih]
    omega

/-- Every call keeps the byte count. -/
theorem queueOk_step {cap : Nat} {q u : OfflineOpQueue} {a : QueueCall} (hstep : q.next a = some u)
    (hok : QueueOk cap q) : QueueOk cap u := by
  rcases queue_next_cases hstep with ⟨opBytes, -, hfits, -, rfl⟩ | ⟨-, -, -, -, rfl⟩ |
    ⟨-, rfl⟩ | ⟨-, retryCount, rfl⟩
  · have hbytes : q.totalBytes = opBytesSum q.ops := hok.bytes
    have hcap : ¬ q.capBytes < q.totalBytes + opBytes.length := fun hlt => hfits (.inl hlt)
    constructor
    case capBytes => exact hok.capBytes
    case bytes => simp [OfflineOpQueue.bytesUsed, hbytes, opBytesSum_snoc]
    case fits =>
      show q.totalBytes + opBytes.length ≤ cap
      rw [← hok.capBytes]
      omega
  · exact hok
  · exact ⟨hok.capBytes, rfl, Nat.zero_le _⟩
  · exact ⟨hok.capBytes, hok.bytes, hok.fits⟩

/-! ### Runs -/

theorem filterMap_snoc {α β : Type} (f : α → Option β) (l : List α) (a : α) :
    (l ++ [a]).filterMap f = l.filterMap f ++ (f a).toList := by
  cases hf : f a with
  | none => simp [hf]
  | some b => simp [hf]

/-- The accepted ops of a run are those that were drained, in the order of the drains, and then
those that are queued. -/
theorem queue_fifo {q t : OfflineOpQueue} {h : List (OfflineOpQueue × QueueCall)}
    (hrun : Exec OfflineOpQueue.next q h t) (hempty : q.ops = []) :
    (drainedLists h).flatten ++ t.ops = acceptedOps h := by
  induction hrun with
  | nil => simp [drainedLists, acceptedOps, hempty]
  | @snoc h t u a prev hstep ih =>
    rw [drainedLists, acceptedOps, filterMap_snoc, filterMap_snoc]
    rw [drainedLists, acceptedOps] at ih
    rw [← ih]
    rcases queue_next_cases hstep with ⟨opBytes, rfl, -, haccepted, rfl⟩ |
      ⟨opBytes, rfl, -, haccepted, rfl⟩ | ⟨rfl, rfl⟩ | ⟨hretry, retryCount, rfl⟩
    · simp [haccepted, drainedList]
    · simp [haccepted, drainedList]
    · -- a drain moves the queued ops to the end of the drained ones
      simp [drainedList, acceptedOp, OfflineOpQueue.drain]
    · cases a with
      | enqueue opBytes => cases hretry
      | drain => cases hretry
      | retryBump => simp [drainedList, acceptedOp]
      | resetRetry => simp [drainedList, acceptedOp]

/-- The retry counter does not matter to a call: what it accepts, drains and leaves is the same. -/
theorem queue_retryCount {q u : OfflineOpQueue} {a : QueueCall} (hstep : q.next a = some u)
    (retryCount : UInt32) :
    (∃ r, ({ q with retryCount } : OfflineOpQueue).next a = some { u with retryCount := r }) ∧
      acceptedOp ({ q with retryCount }, a) = acceptedOp (q, a) ∧
      drainedList ({ q with retryCount }, a) = drainedList (q, a) := by
  cases a with
  | enqueue opBytes =>
    have hu : (q.enqueue opBytes).2 = u := Option.some.inj hstep
    subst hu
    rcases enqueue_spec q opBytes with ⟨hover, e, heq⟩ | ⟨hfits, heq⟩
    · have hover' : Overflows { q with retryCount } opBytes := hover
      rcases enqueue_spec { q with retryCount } opBytes with ⟨-, e', heq'⟩ | ⟨hfits', -⟩
      · simp [OfflineOpQueue.next, acceptedOp, drainedList, heq, heq']
      · exact absurd hover' hfits'
    · have hfits' : ¬ Overflows { q with retryCount } opBytes := hfits
      rcases enqueue_spec { q with retryCount } opBytes with ⟨hover', -⟩ | ⟨-, heq'⟩
      · exact absurd hover' hfits'
      · simp [OfflineOpQueue.next, acceptedOp, drainedList, heq, heq']
  | drain =>
    obtain rfl := Option.some.inj hstep
    exact ⟨⟨retryCount, rfl⟩, rfl, rfl⟩
  | retryBump =>
    obtain rfl := Option.some.inj hstep
    exact ⟨⟨_, rfl⟩, rfl, rfl⟩
  | resetRetry =>
    obtain rfl := Option.some.inj hstep
    exact ⟨⟨_, rfl⟩, rfl, rfl⟩

/-- The calls of the retry counter can be left out of a run. The rest accepts and drains the same
ops, and leaves the same ops queued. -/
theorem queue_without_retry {q t : OfflineOpQueue} {h : List (OfflineOpQueue × QueueCall)}
    (hrun : Exec OfflineOpQueue.next q h t) :
    ∃ h' r, Exec OfflineOpQueue.next q h' { t with retryCount := r } ∧
      h'.map Prod.snd = (h.map Prod.snd).filter (fun a => !isRetry a) ∧
      acceptedOps h' = acceptedOps h ∧ drainedLists h' = drainedLists h := by
  induction hrun with
  | nil => exact ⟨[], q.retryCount, .nil, rfl, rfl, rfl⟩
  | @snoc h t u a prev hstep ih =>
    obtain ⟨h', r, hrun', hcalls, haccepted, hdrained⟩ := ih
    obtain ⟨⟨r', hstep'⟩, hsame⟩ := queue_retryCount hstep r
    cases hretry : isRetry a with
    | false =>
      refine ⟨h' ++ [({ t with retryCount := r }, a)], r', hrun'.snoc hstep', ?_, ?_, ?_⟩
      · simp [hcalls, hretry]
      · rw [acceptedOps, acceptedOps, filterMap_snoc, filterMap_snoc, hsame.1]
        exact congrArg (· ++ _) haccepted
      · rw [drainedLists, drainedLists, filterMap_snoc, filterMap_snoc, hsame.2]
        exact congrArg (· ++ _) hdrained
    | true =>
      -- a call of the counter accepts and drains nothing
      have hnone : acceptedOp (t, a) = none ∧ drainedList (t, a) = none ∧
          ∃ r'', u = { t with retryCount := r'' } := by
        cases a with
        | enqueue opBytes => cases hretry
        | drain => cases hretry
        | retryBump => exact ⟨rfl, rfl, _, (Option.some.inj hstep).symm⟩
        | resetRetry => exact ⟨rfl, rfl, _, (Option.some.inj hstep).symm⟩
      obtain ⟨hnoOp, hnoList, r'', rfl⟩ := hnone
      refine ⟨h', r, hrun', ?_, ?_, ?_⟩
      · simp [hcalls, hretry]
      · rw [acceptedOps, acceptedOps, filterMap_snoc, hnoOp]
        simpa [acceptedOps] using haccepted
      · rw [drainedLists, drainedLists, filterMap_snoc, hnoList]
        simpa [drainedLists] using hdrained

/-- After any calls on an empty queue with any cap: the byte count is the bytes of the queued ops
and within the cap; an op is refused exactly when it does not fit, and then nothing changes; the
drained ops and then the queued ones are the accepted ops in order; and the run without its retry
calls accepts, drains and leaves the same ops. -/
theorem offlineQueue_law {cap : Nat} {t : OfflineOpQueue}
    {h : List (OfflineOpQueue × QueueCall)}
    (hrun : Exec OfflineOpQueue.next (.withCap cap) h t) :
    (t.bytesUsed = opBytesSum t.ops ∧ t.bytesUsed ≤ cap) ∧
    (∀ opBytes,
      ((∃ e, (t.enqueue opBytes).1 = .error e) ↔
        cap < t.bytesUsed + opBytes.length ∨
          OfflineOpQueue.usizeSize ≤ t.bytesUsed + opBytes.length) ∧
      ∀ e, (t.enqueue opBytes).1 = .error e → (t.enqueue opBytes).2 = t) ∧
    (drainedLists h).flatten ++ t.ops = acceptedOps h ∧
    ∃ h' r, Exec OfflineOpQueue.next (.withCap cap) h' { t with retryCount := r } ∧
      h'.map Prod.snd = (h.map Prod.snd).filter (fun a => !isRetry a) ∧
      acceptedOps h' = acceptedOps h ∧ drainedLists h' = drainedLists h := by
  have hok : QueueOk cap t := hrun.invariant (fun q a u hstep => queueOk_step hstep)
    ⟨rfl, rfl, Nat.zero_le _⟩
  refine ⟨⟨hok.bytes, hok.fits⟩, fun opBytes => ?_, queue_fifo hrun rfl, queue_without_retry hrun⟩
  rw [← hok.capBytes]
  show ((∃ e, (t.enqueue opBytes).1 = .error e) ↔ Overflows t opBytes) ∧ _
  rcases enqueue_spec t opBytes with ⟨hover, e, heq⟩ | ⟨hfits, heq⟩
  · simp [heq, hover]
  · simp [heq, hfits]

/-- A queue with a cap of three bytes: the second op is refused, and the empty one fits. -/
theorem offlineQueue_law_three_bytes : ∃ h t,
    Exec OfflineOpQueue.next (.withCap 3) h t ∧
    h.map Prod.snd = [.enqueue [1, 2], .enqueue [3, 4], .retryBump, .drain, .enqueue [],
      .enqueue [5, 6, 7]] ∧
    drainedLists h = [[[1, 2]]] ∧ acceptedOps h = [[1, 2], [], [5, 6, 7]] ∧
    t.bytesUsed = 3 ∧ (drainedLists h).flatten ++ t.ops = acceptedOps h := by
  have hrun : Exec OfflineOpQueue.next (.withCap 3) _ _ :=
    Exec.snoc (Exec.snoc (Exec.snoc (Exec.snoc (Exec.snoc (Exec.snoc .nil
      (a := .enqueue [1, 2]) rfl) (a := .enqueue [3, 4]) rfl) (a := .retryBump) rfl)
      (a := .drain) rfl) (a := .enqueue []) rfl) (a := .enqueue [5, 6, 7]) rfl
  exact ⟨_, _, hrun, rfl, rfl, rfl, rfl, (offlineQueue_law hrun).2.2.1⟩

end GrafeoLoro.Proofs
