import GrafeoLoro.Proofs.CeilingCalls
import Mathlib.Order.Bounds.Basic

/-!
# `GrafeoLoro.Proofs.SharedCeiling`: how far threads together exceed a memory budget

`try_alloc` compares first and adds later, so threads that have compared before one of them adds
can exceed the budget together. `SharedAccount` is the invariant of all runs in which no thread
releases or registers more than is held: the counter is the bytes held and the bytes idle, and the
allocations that have passed their check are those of a `Reserve`.

* `sharedCeiling_exact`: in all these runs no operation of the counter wraps around, and the
  counter is exact.
* `sharedCeiling_peak`: the largest value of the counter in these runs.
-/

set_option autoImplicit false

namespace GrafeoLoro.Proofs

open GrafeoLoro GrafeoLoro.Lib

variable {w : Nat} {T : Type} [Fintype T] [DecidableEq T]

/-! ### The account -/

/-- The bytes that a thread has checked and adds next. -/
def pendingBytes (budget : BitVec w) : CeilingPhase w → Nat
  | .loaded bytes current _ => if current + bytes ≤ budget then bytes.toNat else 0
  | _ => 0

/-- The counter and the allocations that have passed their check. -/
def reserve (s : SharedCeiling w T) : Reserve T :=
  ⟨s.ceiling.currentBytes.toNat, fun t => pendingBytes s.ceiling.budgetBytes (s.phases t)⟩

/-- What a thread has in hand: an allocation is at most `most`, its sum with the counter does not
wrap around, and neither does the sum of what an eviction has freed and what is idle. -/
def PhaseOk (most : Nat) (idle : List (IdleDoc w)) : CeilingPhase w → Prop
  | .ready _ => True
  | .loaded bytes current _ => bytes.toNat ≤ most ∧ current.toNat + bytes.toNat < 2 ^ w
  | .lock bytes => bytes.toNat ≤ most
  | .evicting bytes freed => bytes.toNat ≤ most ∧ freed.toNat + idleBytes idle < 2 ^ w
  | .evictFirst bytes freed => bytes.toNat ≤ most ∧ freed.toNat + idleBytes idle < 2 ^ w
  | .reload bytes => bytes.toNat ≤ most
  | .reset => False

/-- The invariant. No operation of the counter has wrapped around, and the counter is the bytes
that are held and the bytes that are idle. -/
structure SharedAccount (budget : BitVec w) (most : Nat) (s : SharedCeiling w T) : Prop where
  lock : LockOk s
  budgetBytes : s.ceiling.budgetBytes = budget
  phases : ∀ t, PhaseOk most s.ceiling.idle (s.phases t)
  bounded : (reserve s).Bounded budget.toNat most
  used : s.ceiling.currentUsage.toNat = s.held + idleBytes s.ceiling.idle
  wrapped : s.ceiling.wrapped = false
  clamped : s.ceiling.clamped = false

/-- The threads keep to what they have: no allocation is over `most`, and no more is released or
registered than is held. A document that is registered again gives back its old size first. -/
def KeepsToHeld (most : Nat) (s : SharedCeiling w T) : ThreadAction w T → Prop
  | .tryAlloc _ bytes => bytes.toNat ≤ most
  | .release _ bytes => bytes.toNat ≤ s.held
  | .registerIdle _ key sizeBytes _ => sizeBytes.toNat ≤ s.held + s.ceiling.slotBytes key
  | _ => True

instance (most : Nat) (s : SharedCeiling w T) :
    (a : ThreadAction w T) → Decidable (KeepsToHeld most s a)
  | .tryAlloc _ bytes => inferInstanceAs (Decidable (bytes.toNat ≤ most))
  | .release _ bytes => inferInstanceAs (Decidable (bytes.toNat ≤ s.held))
  | .registerIdle _ key sizeBytes _ =>
    inferInstanceAs (Decidable (sizeBytes.toNat ≤ s.held + s.ceiling.slotBytes key))
  | .evictIdle _ => .isTrue trivial
  | .advance _ => .isTrue trivial

omit [DecidableEq T] in
/-- The threads but one, and that one. -/
theorem card_sub_one_mul_add (t : T) (most : Nat) :
    (Fintype.card T - 1) * most + most = Fintype.card T * most := by
  have hpos : 0 < Fintype.card T := Fintype.card_pos_iff.mpr ⟨t⟩
  rw [← Nat.succ_mul, Nat.succ_eq_add_one, Nat.sub_add_cancel hpos]

section
variable {budget : BitVec w} {most : Nat} {s : SharedCeiling w T}

omit [DecidableEq T] in
/-- There is room for one allocation more before the end of a `usize`. -/
theorem SharedAccount.room (h : SharedAccount budget most s) (t : T)
    (hroom : budget.toNat + Fintype.card T * most < 2 ^ w) {bytes : BitVec w}
    (hbytes : bytes.toNat ≤ most) : s.ceiling.currentBytes.toNat + bytes.toNat < 2 ^ w := by
  have htotal := h.bounded.total
  have hcard := card_sub_one_mul_add t most
  unfold Reserve.total at htotal
  simp only [reserve] at htotal
  omega

/-- A slot gives back its old size. -/
theorem idleBytes_set (key : UInt64) (doc : IdleDoc w) (idle : List (IdleDoc w)) :
    ∀ i d, idle.findIdx? (fun d => d.key == key) = some i →
      idle.find? (fun d => d.key == key) = some d →
      idleBytes (idle.set i doc) + d.sizeBytes.toNat = idleBytes idle + doc.sizeBytes.toNat := by
  induction idle with
  | nil => simp
  | cons first rest ih =>
    intro i d hindex hfind
    rw [List.findIdx?_cons] at hindex
    rw [List.find?_cons] at hfind
    cases hkey : first.key == key with
    | true =>
      simp only [hkey, if_true] at hindex hfind
      obtain rfl := Option.some.inj hindex
      obtain rfl := Option.some.inj hfind
      simp only [List.set_cons_zero, idleBytes]
      omega
    | false =>
      simp only [hkey, Bool.false_eq_true, if_false] at hindex hfind
      obtain ⟨j, hj, rfl⟩ := Option.map_eq_some_iff.mp hindex
      have hrest := ih j d hj hfind
      simp only [List.set_cons_succ, idleBytes]
      omega

/-- A document that is registered takes the place of the one with its key, or a new one. -/
theorem idleBytes_registerIdle (c : MemoryCeiling w) (key : UInt64) (sizeBytes : BitVec w)
    (lastAccessMs : UInt64) :
    idleBytes (c.registerIdle key sizeBytes lastAccessMs).idle + c.slotBytes key
      = idleBytes c.idle + sizeBytes.toNat := by
  have hboth : (c.idle.findIdx? fun d => d.key == key).isSome
      = (c.idle.find? fun d => d.key == key).isSome := by
    rw [List.findIdx?_isSome, Bool.eq_iff_iff, List.find?_isSome, List.any_eq_true]
  unfold MemoryCeiling.registerIdle MemoryCeiling.slotBytes
  cases hindex : c.idle.findIdx? fun d => d.key == key with
  | some i =>
    cases hfind : c.idle.find? fun d => d.key == key with
    | some d => exact idleBytes_set key ⟨key, sizeBytes, lastAccessMs⟩ c.idle i d hindex hfind
    | none => simp [hindex, hfind] at hboth
  | none =>
    cases hfind : c.idle.find? fun d => d.key == key with
    | some d => simp [hindex, hfind] at hboth
    | none => simp [idleBytes_append, idleBytes]

omit [Fintype T] [DecidableEq T] in
/-- Only the loop of `evict_to_fit` looks at the idle documents. -/
theorem PhaseOk.of_idle {idle idle' : List (IdleDoc w)} {phase : CeilingPhase w}
    (h : PhaseOk most idle phase) (hloop : ¬ InLoop phase) : PhaseOk most idle' phase := by
  cases phase with
  | evicting bytes freed => exact absurd trivial hloop
  | evictFirst bytes freed => exact absurd trivial hloop
  | _ => exact h

omit [Fintype T] in
/-- The counter and the allocations that have passed their check, after one thread has gone on. -/
theorem reserve_goto (ceiling : MemoryCeiling w) (lock : Option T) (held : Nat) (t : T)
    (phase : CeilingPhase w) (hbudget : ceiling.budgetBytes = s.ceiling.budgetBytes) :
    reserve (SharedCeiling.goto ⟨ceiling, lock, s.phases, held⟩ t phase)
      = ⟨ceiling.currentBytes.toNat, Function.update (reserve s).pending t
          (pendingBytes s.ceiling.budgetBytes phase)⟩ := by
  unfold reserve
  simp only [goto_ceiling, goto_phases, hbudget]
  congr 1
  exact Function.comp_update (pendingBytes s.ceiling.budgetBytes) s.phases t phase

/-- One thread goes on, and the others keep what they have in hand. -/
theorem SharedAccount.goto (h : SharedAccount budget most s) {ceiling : MemoryCeiling w}
    {lock : Option T} {held : Nat} {t : T} {phase : CeilingPhase w}
    (hlock : LockOk (SharedCeiling.goto ⟨ceiling, lock, s.phases, held⟩ t phase))
    (hbudget : ceiling.budgetBytes = s.ceiling.budgetBytes)
    (hothers : ceiling.idle = s.ceiling.idle ∨ s.lock = none ∨ s.lock = some t)
    (hphase : PhaseOk most ceiling.idle phase)
    (hbounded : (reserve (SharedCeiling.goto ⟨ceiling, lock, s.phases, held⟩ t phase)).Bounded
      budget.toNat most)
    (hused : ceiling.currentBytes.toNat = held + idleBytes ceiling.idle)
    (hwrapped : ceiling.wrapped = false) (hclamped : ceiling.clamped = false) :
    SharedAccount budget most (SharedCeiling.goto ⟨ceiling, lock, s.phases, held⟩ t phase) where
  lock := hlock
  budgetBytes := hbudget.trans h.budgetBytes
  phases := by
    intro i
    rcases eq_or_ne i t with rfl | hne
    · simpa using hphase
    · simp only [goto_phases, goto_ceiling, Function.update_of_ne hne]
      rcases hothers with hsame | hfree
      · exact hsame ▸ h.phases i
      · refine (h.phases i).of_idle fun hloop => ?_
        have howner := (h.lock.owner i).mp hloop
        rcases hfree with hnone | hself
        · simp [hnone] at howner
        · exact hne (Option.some.inj (howner.symm.trans hself))
  bounded := hbounded
  used := hused
  wrapped := hwrapped
  clamped := hclamped

omit [DecidableEq T] in
/-- What a thread has in hand before a step. -/
theorem SharedAccount.phaseOk (h : SharedAccount budget most s) {t : T}
    {phase : CeilingPhase w} (hphase : s.phases t = phase) : PhaseOk most s.ceiling.idle phase :=
  hphase ▸ h.phases t

/-- A thread takes `n` of what is held or idle from the counter, or nothing, and no allocation
passes its check or is added. -/
theorem SharedAccount.take (h : SharedAccount budget most s) {ceiling : MemoryCeiling w}
    {lock : Option T} {held n : Nat} {t : T} {phase : CeilingPhase w}
    (hlock : LockOk (SharedCeiling.goto ⟨ceiling, lock, s.phases, held⟩ t phase))
    (hbudget : ceiling.budgetBytes = s.ceiling.budgetBytes)
    (hothers : ceiling.idle = s.ceiling.idle ∨ s.lock = none ∨ s.lock = some t)
    (hphase : PhaseOk most ceiling.idle phase)
    (hpending : pendingBytes s.ceiling.budgetBytes phase
      = pendingBytes s.ceiling.budgetBytes (s.phases t))
    (hcurrent : ceiling.currentBytes.toNat = s.ceiling.currentBytes.toNat - n)
    (htaken : held + idleBytes ceiling.idle + n = s.held + idleBytes s.ceiling.idle)
    (hwrapped : ceiling.wrapped = false) (hclamped : ceiling.clamped = false) :
    SharedAccount budget most (SharedCeiling.goto ⟨ceiling, lock, s.phases, held⟩ t phase) := by
  have hused : s.ceiling.currentBytes.toNat = s.held + idleBytes s.ceiling.idle := h.used
  have hn : n ≤ s.ceiling.currentBytes.toNat := by omega
  have hsame : Function.update (reserve s).pending t
      (pendingBytes s.ceiling.budgetBytes (s.phases t)) = (reserve s).pending :=
    Function.update_eq_self t (reserve s).pending
  refine h.goto hlock hbudget hothers hphase ?_ (by omega) hwrapped hclamped
  rw [reserve_goto ceiling lock held t phase hbudget, hpending, hcurrent, hsame]
  exact (Reserve.Step.take hn).bounded h.bounded

/-- A step that leaves the counter, the idle documents and what is held. -/
theorem SharedAccount.stay (h : SharedAccount budget most s) {lock : Option T} {t : T}
    {phase : CeilingPhase w}
    (hlock : LockOk (SharedCeiling.goto ⟨s.ceiling, lock, s.phases, s.held⟩ t phase))
    (hphase : PhaseOk most s.ceiling.idle phase)
    (hpending : pendingBytes s.ceiling.budgetBytes phase
      = pendingBytes s.ceiling.budgetBytes (s.phases t)) :
    SharedAccount budget most (SharedCeiling.goto ⟨s.ceiling, lock, s.phases, s.held⟩ t phase) :=
  h.take hlock rfl (.inl rfl) hphase hpending (Nat.sub_zero _).symm rfl h.wrapped h.clamped

/-- A call loads the counter, and its allocation passes the check or not. -/
theorem SharedAccount.load (h : SharedAccount budget most s) {t : T} {bytes : BitVec w}
    {retry : Bool} (hlock : LockOk (s.goto t (.loaded bytes s.ceiling.currentUsage retry)))
    (hfree : pendingBytes s.ceiling.budgetBytes (s.phases t) = 0) (hbytes : bytes.toNat ≤ most)
    (hroom : s.ceiling.currentBytes.toNat + bytes.toNat < 2 ^ w) :
    SharedAccount budget most (s.goto t (.loaded bytes s.ceiling.currentUsage retry)) := by
  by_cases hfits : s.ceiling.currentBytes + bytes ≤ s.ceiling.budgetBytes
  · have hsum : s.ceiling.currentBytes.toNat + bytes.toNat ≤ budget.toNat := by
      rw [← h.budgetBytes, ← BitVec.toNat_add_of_lt hroom]
      exact hfits
    have hpending : pendingBytes s.ceiling.budgetBytes
        (.loaded bytes s.ceiling.currentUsage retry) = bytes.toNat := by
      simp [pendingBytes, MemoryCeiling.currentUsage, hfits]
    have hreserve := reserve_goto s.ceiling s.lock s.held t
      (.loaded bytes s.ceiling.currentUsage retry) rfl
    rw [hpending] at hreserve
    exact h.goto hlock rfl (.inl rfl) ⟨hbytes, hroom⟩
      (hreserve ▸ (Reserve.Step.check hfree hbytes hsum).bounded h.bounded) h.used h.wrapped
      h.clamped
  · refine h.stay hlock ⟨hbytes, hroom⟩ ?_
    rw [hfree]
    simp [pendingBytes, MemoryCeiling.currentUsage, hfits]

omit [Fintype T] [DecidableEq T] in
/-- An addition within a `usize`. -/
theorem uaddOverflow_eq_false {a b : BitVec w} (h : a.toNat + b.toNat < 2 ^ w) :
    a.uaddOverflow b = false := by
  simpa [BitVec.uaddOverflow] using h

omit [Fintype T] [DecidableEq T] in
/-- A subtraction of no more than there is. -/
theorem usubOverflow_eq_false {a b : BitVec w} (h : b.toNat ≤ a.toNat) :
    a.usubOverflow b = false := by
  simpa [BitVec.usubOverflow] using h

/-- A thread adds what has passed its check. -/
theorem SharedAccount.add (h : SharedAccount budget most s) {t : T} {bytes current : BitVec w}
    {retry : Bool} (hphase : s.phases t = .loaded bytes current retry)
    (hfits : current + bytes ≤ s.ceiling.budgetBytes)
    (hroom : s.ceiling.currentBytes.toNat + bytes.toNat < 2 ^ w)
    (hlock : LockOk (SharedCeiling.goto
      ⟨{ s.ceiling with currentBytes := s.ceiling.currentBytes + bytes }, s.lock, s.phases,
        s.held + bytes.toNat⟩ t (.ready (some true)))) :
    SharedAccount budget most (SharedCeiling.goto
      ⟨{ s.ceiling with currentBytes := s.ceiling.currentBytes + bytes }, s.lock, s.phases,
        s.held + bytes.toNat⟩ t (.ready (some true))) := by
  have hsum := BitVec.toNat_add_of_lt hroom
  have hpending : (reserve s).pending t = bytes.toNat := by
    simp only [reserve, hphase, pendingBytes, if_pos hfits]
  have hbounded := (Reserve.Step.add (r := reserve s) (t := t)).bounded h.bounded
  have hused : s.ceiling.currentBytes.toNat = s.held + idleBytes s.ceiling.idle := h.used
  rw [hpending] at hbounded
  refine h.goto hlock rfl (.inl rfl) trivial ?_ ?_ h.wrapped h.clamped
  · rw [reserve_goto _ _ _ t _ (by rfl)]
    simp only [hsum]
    exact hbounded
  · simp only [hsum]
    omega

/-- The eviction of the first idle document takes its size from the counter. -/
theorem SharedAccount.evict (h : SharedAccount budget most s) {lock : Option T} {t : T}
    {phase : CeilingPhase w} {d : IdleDoc w} {rest : List (IdleDoc w)}
    (hidle : idleBytes s.ceiling.idle = idleBytes (d :: rest))
    (hmine : s.lock = none ∨ s.lock = some t)
    (hlock : LockOk (SharedCeiling.goto
      ⟨{ s.ceiling.evict d.sizeBytes with idle := rest }, lock, s.phases, s.held⟩ t phase))
    (hphase : PhaseOk most rest phase)
    (hpending : pendingBytes s.ceiling.budgetBytes phase
      = pendingBytes s.ceiling.budgetBytes (s.phases t)) :
    SharedAccount budget most (SharedCeiling.goto
      ⟨{ s.ceiling.evict d.sizeBytes with idle := rest }, lock, s.phases, s.held⟩ t phase) := by
  have hused : s.ceiling.currentBytes.toNat = s.held + idleBytes s.ceiling.idle := h.used
  simp only [idleBytes] at hidle
  have hcovered : d.sizeBytes.toNat ≤ s.ceiling.currentBytes.toNat := by omega
  refine h.take hlock rfl (.inr hmine) hphase hpending (evict_toNat hcovered) ?_ ?_ h.clamped
  · simp only [hidle]
    omega
  · simp [h.wrapped, usubOverflow_eq_false hcovered]

/-- A release of no more than is held. -/
theorem SharedAccount.release (h : SharedAccount budget most s) {t : T} {bytes : BitVec w}
    {result : Option Bool} (hphase : s.phases t = .ready result) (hheld : bytes.toNat ≤ s.held)
    (hlock : LockOk (SharedCeiling.goto
      ⟨{ s.ceiling with currentBytes := s.ceiling.currentBytes - bytes }, s.lock, s.phases,
        s.held - bytes.toNat⟩ t (.ready none))) :
    SharedAccount budget most (SharedCeiling.goto
      ⟨{ s.ceiling with currentBytes := s.ceiling.currentBytes - bytes }, s.lock, s.phases,
        s.held - bytes.toNat⟩ t (.ready none)) := by
  have hused : s.ceiling.currentBytes.toNat = s.held + idleBytes s.ceiling.idle := h.used
  have hcovered : bytes ≤ s.ceiling.currentBytes := BitVec.le_def.mpr (by omega)
  refine h.take hlock rfl (.inl rfl) trivial (by simp [hphase, pendingBytes])
    (BitVec.toNat_sub_of_le hcovered) ?_ h.wrapped h.clamped
  simp only
  omega

/-- A document is registered with no more than is held. -/
theorem SharedAccount.registerIdle (h : SharedAccount budget most s) {t : T} {key : UInt64}
    {sizeBytes : BitVec w} {lastAccessMs : UInt64} {result : Option Bool}
    (hphase : s.phases t = .ready result) (hfree : s.lock = none)
    (hheld : sizeBytes.toNat ≤ s.held + s.ceiling.slotBytes key)
    (hlock : LockOk (SharedCeiling.goto ⟨s.ceiling.registerIdle key sizeBytes lastAccessMs, s.lock,
      s.phases, s.held + s.ceiling.slotBytes key - sizeBytes.toNat⟩ t (.ready none))) :
    SharedAccount budget most (SharedCeiling.goto
      ⟨s.ceiling.registerIdle key sizeBytes lastAccessMs, s.lock, s.phases,
        s.held + s.ceiling.slotBytes key - sizeBytes.toNat⟩ t (.ready none)) := by
  have hidle := idleBytes_registerIdle s.ceiling key sizeBytes lastAccessMs
  obtain ⟨idle, hceiling⟩ := registerIdle_frame s.ceiling key sizeBytes lastAccessMs
  rw [hceiling] at hidle hlock ⊢
  refine h.take hlock rfl (.inr (.inl hfree)) trivial (by simp [hphase, pendingBytes])
    (Nat.sub_zero _).symm ?_ h.wrapped h.clamped
  simp only at hidle ⊢
  omega

/-- The account is right after every step of a thread that keeps to what is held. -/
theorem sharedAccount_step {u : SharedCeiling w T} {a : ThreadAction w T}
    (hroom : budget.toNat + Fintype.card T * most < 2 ^ w) (hstep : s.next a = some u)
    (hkeeps : KeepsToHeld most s a) (h : SharedAccount budget most s) :
    SharedAccount budget most u := by
  have hlock := lockOk_step hstep h.lock
  cases ceiling_next_cases hstep with
  | @call t bytes result hphase =>
    exact h.load hlock (by simp [hphase, pendingBytes]) hkeeps (h.room t hroom hkeeps)
  | @alloc t bytes current retry hphase hfits =>
    have hok := h.phaseOk hphase
    have hsum := h.room t hroom hok.1
    simp only [uaddOverflow_eq_false hok.2, uaddOverflow_eq_false hsum, note_false] at hlock ⊢
    exact h.add hphase hfits hsum hlock
  | @refuse t bytes current retry hphase hfits =>
    have hok := h.phaseOk hphase
    rw [uaddOverflow_eq_false hok.2, note_false] at hlock ⊢
    cases retry with
    | true => exact h.stay hlock trivial (by simp [hphase, pendingBytes, hfits])
    | false => exact h.stay hlock hok.1 (by simp [hphase, pendingBytes, hfits])
  | @lockEmpty t bytes hphase hfree =>
    have hok : bytes.toNat ≤ most := h.phaseOk hphase
    exact h.stay hlock hok (by simp [hphase, pendingBytes])
  | @lockTake t bytes hphase hfree =>
    have hsorted := idleBytes_perm (sortedIdle_perm s.ceiling)
    have hused := h.used
    have hlt := s.ceiling.currentUsage.isLt
    have hzero : (0 : BitVec w).toNat = 0 := by simp
    refine h.take hlock rfl (.inr (.inl hfree)) ⟨h.phaseOk hphase, ?_⟩
      (by simp [hphase, pendingBytes]) (Nat.sub_zero _).symm ?_ h.wrapped h.clamped
    · simp only [hzero, hsorted]
      omega
    · simp only [hsorted, Nat.add_zero]
  | @evictEmpty t bytes freed hphase =>
    exact h.stay hlock (h.phaseOk hphase).1 (by simp [hphase, pendingBytes])
  | @evictMore t bytes freed hphase hidle =>
    have hok := h.phaseOk hphase
    have hsum : s.ceiling.currentUsage.toNat + bytes.toNat < 2 ^ w := h.room t hroom hok.1
    rw [uaddOverflow_eq_false hsum, note_false] at hlock ⊢
    exact h.stay hlock hok (by simp [hphase, pendingBytes])
  | @evictFits t bytes freed hphase =>
    have hok := h.phaseOk hphase
    have hsum : s.ceiling.currentUsage.toNat + bytes.toNat < 2 ^ w := h.room t hroom hok.1
    rw [uaddOverflow_eq_false hsum, note_false] at hlock ⊢
    exact h.stay hlock hok.1 (by simp [hphase, pendingBytes])
  | @evictFirst t bytes freed evicted rest hphase hidle =>
    obtain ⟨hbytes, hfreed⟩ := h.phaseOk hphase
    have howner := (h.lock.owner t).mp (by rw [hphase]; trivial)
    have hused := h.used
    rw [hidle] at hfreed hused
    simp only [idleBytes, MemoryCeiling.currentUsage] at hfreed hused
    -- the document is part of the counter, so all of it is freed
    have hnot : ¬ s.ceiling.currentBytes < evicted.sizeBytes := by
      rw [BitVec.lt_def]
      omega
    have hsum : freed.toNat + evicted.sizeBytes.toNat < 2 ^ w := by omega
    simp only [if_neg hnot, uaddOverflow_eq_false hsum, note_false] at hlock ⊢
    refine h.evict (by rw [hidle]) (.inr howner) hlock ⟨hbytes, ?_⟩
      (by simp [hphase, pendingBytes])
    rw [BitVec.toNat_add_of_lt hsum]
    omega
  | @reload t bytes hphase =>
    have hok := h.phaseOk hphase
    exact h.load hlock (by simp [hphase, pendingBytes]) hok (h.room t hroom hok)
  | @release t bytes result hphase =>
    have hheld : bytes.toNat ≤ s.held := hkeeps
    have hused := h.used
    simp only [MemoryCeiling.currentUsage] at hused
    have hnot : ¬ s.ceiling.currentBytes < bytes := by
      rw [BitVec.lt_def]
      omega
    simp only [if_neg hnot, decide_eq_false hnot, Bool.or_false] at hlock ⊢
    exact h.release hphase hheld hlock
  | @reset t hphase => exact (h.phaseOk hphase).elim
  | @registerIdle t key sizeBytes lastAccessMs result hphase hfree =>
    exact h.registerIdle hphase hfree hkeeps hlock
  | @evictIdle t result hphase hfree =>
    rcases evictIdle_spec (c := s.ceiling) with ⟨hnone, hsame⟩ | ⟨d, rest, hsorted, hevicted⟩
    · rw [hsame] at hlock ⊢
      exact h.stay hlock trivial (by simp [hphase, pendingBytes])
    · rw [hevicted] at hlock ⊢
      have hbytes := idleBytes_perm (sortedIdle_perm s.ceiling)
      exact h.evict (by rw [← hsorted, hbytes]) (.inl hfree) hlock trivial
        (by simp [hphase, pendingBytes])

/-- The counter starts at zero. -/
theorem sharedAccount_start (T : Type) [Fintype T] (budget : BitVec w) (most : Nat) :
    SharedAccount budget most (SharedCeiling.start T budget) where
  lock := lockOk_start budget
  budgetBytes := rfl
  phases _ := trivial
  bounded := by
    refine ⟨fun t => Nat.zero_le _, ?_⟩
    simp [Reserve.total, reserve, SharedCeiling.start, MemoryCeiling.new, pendingBytes]
  used := by simp [SharedCeiling.start, MemoryCeiling.new, MemoryCeiling.currentUsage, idleBytes]
  wrapped := rfl
  clamped := rfl

/-- The account is right in all states of a run of threads that keep to what is held. -/
theorem sharedAccount_run {h : List (SharedCeiling w T × ThreadAction w T)}
    (hroom : budget.toNat + Fintype.card T * most < 2 ^ w)
    (hrun : Exec SharedCeiling.next (.start T budget) h s) (hkeeps : Steps (KeepsToHeld most) h) :
    Always (SharedAccount budget most) h s :=
  hrun.invariant_of_steps (fun _ _ _ hstep hkeep => sharedAccount_step hroom hstep hkeep)
    (sharedAccount_start T budget most) hkeeps

omit [DecidableEq T] in
/-- The counter is within the budget but for what the other threads have checked meanwhile. -/
theorem SharedAccount.usage_le (h : SharedAccount budget most s) :
    s.ceiling.currentUsage.toNat ≤ budget.toNat + (Fintype.card T - 1) * most := by
  have htotal := h.bounded.total
  unfold Reserve.total at htotal
  exact Nat.le_trans (Nat.le_add_right _ _) htotal

end

/-- In every interleaving of threads that release and register no more than is held: in all states
no operation of the counter has wrapped around, and the counter is the bytes that are held and the
bytes that are idle. The threads can overcommit, and a `usize` has room for that. -/
theorem sharedCeiling_exact {budget : BitVec w} {most : Nat} {s : SharedCeiling w T}
    {h : List (SharedCeiling w T × ThreadAction w T)}
    (hroom : budget.toNat + Fintype.card T * most < 2 ^ w)
    (hrun : Exec SharedCeiling.next (.start T budget) h s) (hkeeps : Steps (KeepsToHeld most) h) :
    Always (fun s => s.ceiling.wrapped = false ∧ s.ceiling.clamped = false ∧
      s.ceiling.currentUsage.toNat = s.held + idleBytes s.ceiling.idle) h s := by
  obtain ⟨hbefore, hlast⟩ := sharedAccount_run hroom hrun hkeeps
  exact ⟨fun p hp => ⟨(hbefore p hp).wrapped, (hbefore p hp).clamped, (hbefore p hp).used⟩,
    hlast.wrapped, hlast.clamped, hlast.used⟩

/-- Two threads overcommit by four bytes, one registers its document as idle, and the other one
evicts it. -/
theorem sharedCeiling_exact_two : ∃ h s,
    Exec SharedCeiling.next (.start Bool (10 : BitVec 64)) h s ∧
    h.map Prod.snd = [.tryAlloc true 7, .tryAlloc false 7, .advance true, .advance false,
      .registerIdle true 1 7 100, .evictIdle false] ∧
    Always (fun s => s.ceiling.wrapped = false ∧ s.ceiling.clamped = false ∧
      s.ceiling.currentUsage.toNat = s.held + idleBytes s.ceiling.idle) h s := by
  have hrun : Exec SharedCeiling.next (.start Bool (10 : BitVec 64)) _ _ :=
    Exec.snoc (Exec.snoc (Exec.snoc (Exec.snoc (Exec.snoc (Exec.snoc .nil
      (a := .tryAlloc true 7) rfl) (a := .tryAlloc false 7) rfl) (a := .advance true) rfl)
      (a := .advance false) rfl) (a := .registerIdle true 1 7 100) rfl) (a := .evictIdle false) rfl
  have hroom : (10 : BitVec 64).toNat + Fintype.card Bool * 7 < 2 ^ 64 := by decide
  refine ⟨_, _, hrun, rfl, sharedCeiling_exact hroom hrun ?_⟩
  intro p hp
  simp only [List.nil_append, List.cons_append, List.mem_cons, List.not_mem_nil, or_false] at hp
  rcases hp with rfl | rfl | rfl | rfl | rfl | rfl
  all_goals decide

/-! ### The worst case -/

section
variable {budget : BitVec w} {most : Nat}

/-- A run of threads that keep to what is held reaches this state. -/
def Reaches (budget : BitVec w) (most : Nat) (s : SharedCeiling w T) : Prop :=
  ∃ h, Exec SharedCeiling.next (.start T budget) h s ∧ Steps (KeepsToHeld most) h

omit [Fintype T] in
/-- One step more. -/
theorem Reaches.step {s u : SharedCeiling w T} {a : ThreadAction w T} (h : Reaches budget most s)
    (hstep : s.next a = some u) (hkeeps : KeepsToHeld most s a) : Reaches budget most u := by
  obtain ⟨hist, hrun, hall⟩ := h
  exact ⟨hist ++ [(s, a)], hrun.snoc hstep, steps_snoc.mpr ⟨hall, hkeeps⟩⟩

/-- The counter is `used`. The threads in `passed` have passed the check for an allocation of
`bytes`, and the others are in no call. -/
structure PassedBy (budget bytes : BitVec w) (used : Nat) (passed : Finset T)
    (s : SharedCeiling w T) : Prop where
  budgetBytes : s.ceiling.budgetBytes = budget
  used : s.ceiling.currentBytes.toNat = used
  mem : ∀ t ∈ passed, ∃ current, s.phases t = .loaded bytes current false ∧
    current + bytes ≤ budget
  not_mem : ∀ t ∉ passed, ∃ result, s.phases t = .ready result

variable {s : SharedCeiling w T} {bytes : BitVec w} {used : Nat} {passed : Finset T}

omit [Fintype T] in
/-- One thread more passes the check. -/
theorem passedBy_insert (h : PassedBy budget bytes used passed s) {t : T} (ht : t ∉ passed)
    (hreaches : Reaches budget most s) (hbytes : bytes.toNat ≤ most)
    (hfits : used + bytes.toNat ≤ budget.toNat) :
    ∃ u, Reaches budget most u ∧ PassedBy budget bytes used (insert t passed) u := by
  obtain ⟨result, hphase⟩ := h.not_mem t ht
  have hstep : s.next (.tryAlloc t bytes)
      = some (s.goto t (.loaded bytes s.ceiling.currentUsage false)) := by
    simp [SharedCeiling.next, hphase]
  refine ⟨_, hreaches.step hstep hbytes, h.budgetBytes, h.used, fun i hi => ?_, fun i hi => ?_⟩
  · rcases eq_or_ne i t with rfl | hne
    · refine ⟨s.ceiling.currentUsage, by simp, ?_⟩
      have hused : s.ceiling.currentUsage.toNat = used := h.used
      rw [BitVec.le_def, BitVec.toNat_add_of_lt (by omega), hused]
      exact hfits
    · simpa [hne] using h.mem i ((Finset.mem_insert.mp hi).resolve_left hne)
  · have hne : i ≠ t := fun heq => hi (heq ▸ Finset.mem_insert_self i passed)
    simpa [hne] using h.not_mem i fun hmem => hi (Finset.mem_insert_of_mem hmem)

omit [Fintype T] in
/-- One of the threads that have passed the check adds its bytes. -/
theorem passedBy_erase {t : T} (ht : t ∉ passed)
    (h : PassedBy budget bytes used (insert t passed) s) (hreaches : Reaches budget most s)
    (hroom : used + bytes.toNat < 2 ^ w) :
    ∃ u, Reaches budget most u ∧ PassedBy budget bytes (used + bytes.toNat) passed u := by
  obtain ⟨current, hphase, hfits⟩ := h.mem t (Finset.mem_insert_self t passed)
  have hsum : s.ceiling.currentBytes.toNat + bytes.toNat < 2 ^ w := by rw [h.used]; exact hroom
  have hstep : ∃ c lock held, s.next (.advance t)
      = some (SharedCeiling.goto ⟨c, lock, s.phases, held⟩ t (.ready (some true))) ∧
      c.budgetBytes = budget ∧ c.currentBytes.toNat = used + bytes.toNat := by
    rw [← h.budgetBytes] at hfits
    simp only [SharedCeiling.next, SharedCeiling.advance, hphase]
    refine ⟨_, _, _, if_pos hfits, h.budgetBytes, ?_⟩
    rw [← h.used]
    exact BitVec.toNat_add_of_lt hsum
  obtain ⟨c, lock, held, hnext, hbudget, hcurrent⟩ := hstep
  refine ⟨_, hreaches.step hnext trivial, hbudget, hcurrent, fun i hi => ?_, fun i hi => ?_⟩
  · have hne : i ≠ t := fun heq => ht (heq ▸ hi)
    simpa [hne] using h.mem i (Finset.mem_insert_of_mem hi)
  · rcases eq_or_ne i t with rfl | hne
    · exact ⟨some true, by simp⟩
    · simpa [hne] using h.not_mem i fun hmem => hi ((Finset.mem_insert.mp hmem).resolve_left hne)

omit [Fintype T] in
/-- All of these threads pass the check, and then all of them add their bytes. -/
theorem passedBy_round (h : PassedBy budget bytes used (∅ : Finset T) s)
    (hreaches : Reaches budget most s) (hbytes : bytes.toNat ≤ most)
    (hfits : used + bytes.toNat ≤ budget.toNat) (threads : Finset T)
    (hroom : used + threads.card * bytes.toNat < 2 ^ w) :
    ∃ u, Reaches budget most u ∧
      PassedBy budget bytes (used + threads.card * bytes.toNat) (∅ : Finset T) u := by
  have hpass : ∀ passed : Finset T, ∃ u, Reaches budget most u ∧
      PassedBy budget bytes used passed u := by
    intro passed
    induction passed using Finset.induction_on with
    | empty => exact ⟨s, hreaches, h⟩
    | insert t passed ht ih =>
      obtain ⟨u, hu, hpassed⟩ := ih
      exact passedBy_insert hpassed ht hu hbytes hfits
  obtain ⟨u, hu, hpassed⟩ := hpass threads
  clear h hreaches hpass hfits
  induction threads using Finset.induction_on generalizing used u with
  | empty => exact ⟨u, hu, by simpa using hpassed⟩
  | insert t threads ht ih =>
    rw [Finset.card_insert_of_notMem ht, Nat.succ_mul] at hroom ⊢
    obtain ⟨v, hv, hless⟩ := passedBy_erase ht hpassed hu (by omega)
    obtain ⟨x, hx, hdone⟩ := ih (by omega) v hv hless
    refine ⟨x, hx, ?_⟩
    rwa [Nat.add_assoc, Nat.add_comm bytes.toNat] at hdone

omit [Fintype T] in
/-- One thread fills the budget byte by byte. -/
theorem passedBy_fill (t : T) (hmost : 0 < most) (n : Nat) (hn : n ≤ budget.toNat) :
    ∃ u, Reaches budget most u ∧ PassedBy budget (BitVec.ofNat w 1) n (∅ : Finset T) u := by
  induction n with
  | zero =>
    refine ⟨SharedCeiling.start T budget, ⟨[], .nil, steps_nil⟩, rfl, ?_, by simp,
      fun i _ => ⟨none, rfl⟩⟩
    simp [SharedCeiling.start, MemoryCeiling.new]
  | succ n ih =>
    obtain ⟨u, hu, hpassed⟩ := ih (by omega)
    have hlt := budget.isLt
    have hone : (BitVec.ofNat w 1).toNat = 1 := by
      rw [BitVec.toNat_ofNat, Nat.mod_eq_of_lt (by omega)]
    obtain ⟨v, hv, hdone⟩ := passedBy_round hpassed hu (by omega) (by omega) {t}
      (by rw [Finset.card_singleton, hone]; omega)
    rw [Finset.card_singleton, hone] at hdone
    exact ⟨v, hv, hdone⟩

end

/-- The largest value of the counter over all interleavings of threads that keep to what is held,
with allocations of at most `most`: the budget, and `most` for every thread but one. One thread
alone stays within the budget. -/
theorem sharedCeiling_peak [Nonempty T] (budget : BitVec w) (most : Nat) (hmost : 0 < most)
    (hle : most ≤ budget.toNat) (hroom : budget.toNat + Fintype.card T * most < 2 ^ w) :
    IsGreatest {used | ∃ (h : List (SharedCeiling w T × ThreadAction w T)) (s : SharedCeiling w T),
      Exec SharedCeiling.next (.start T budget) h s ∧ Steps (KeepsToHeld most) h ∧
        s.ceiling.currentUsage.toNat = used} (budget.toNat + (Fintype.card T - 1) * most) := by
  constructor
  · -- the budget is filled up to one allocation, and all threads pass the check before one adds
    obtain ⟨t⟩ := ‹Nonempty T›
    have hlt := budget.isLt
    have hbytes : (BitVec.ofNat w most).toNat = most := by
      rw [BitVec.toNat_ofNat, Nat.mod_eq_of_lt (by omega)]
    obtain ⟨u, hu, hfilled⟩ := passedBy_fill t hmost (budget.toNat - most) (Nat.sub_le _ _)
    have hnone : PassedBy budget (BitVec.ofNat w most) (budget.toNat - most) ∅ u :=
      ⟨hfilled.budgetBytes, hfilled.used, by simp, hfilled.not_mem⟩
    obtain ⟨v, ⟨h, hrun, hkeeps⟩, hdone⟩ := passedBy_round hnone hu (by omega) (by omega)
      Finset.univ (by rw [Finset.card_univ, hbytes]; omega)
    have hcard := card_sub_one_mul_add t most
    have hused := hdone.used
    rw [Finset.card_univ, hbytes] at hused
    exact ⟨h, v, hrun, hkeeps, by simp only [MemoryCeiling.currentUsage]; omega⟩
  · rintro used ⟨h, s, hrun, hkeeps, rfl⟩
    exact (sharedAccount_run hroom hrun hkeeps).2.usage_le

/-- Two threads, a budget of 10 and allocations of at most 7. -/
theorem sharedCeiling_peak_two :
    IsGreatest {used | ∃ (h : List (SharedCeiling 64 Bool × ThreadAction 64 Bool))
      (s : SharedCeiling 64 Bool), Exec SharedCeiling.next (.start Bool 10) h s ∧
        Steps (KeepsToHeld 7) h ∧ s.ceiling.currentUsage.toNat = used} 17 :=
  sharedCeiling_peak (T := Bool) (10 : BitVec 64) 7 (by decide) (by decide) (by decide)

end GrafeoLoro.Proofs
