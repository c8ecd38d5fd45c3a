import GrafeoLoro.Runtime.Mailbox

/-!
# `GrafeoLoro.Proofs.Mailbox`: the mailbox over all interleavings

`MailboxStep` lists what a step can do. `MailboxOk` is the invariant of every run. The receiver is
in one place: in the shared `inner` or in the guard of one `recv`. It is gone for good once a
handle was dropped that still had it. So a message is in the channel, between the receiver and one
caller, or with a caller.

* `mailbox_conserves`: the messages arrive in order, once each, and none is lost while the
  `rx_side` lives.
* `mailbox_keeps_receiver`: a cancelled `recv` loses neither the receiver nor a message, and a
  `recv` that starts beside another one has an empty guard and takes nothing.
* `mailbox_ends`: a `None` from the receiver is the end of the stream, and after the receiver is
  gone no `send` succeeds or waits.
-/

set_option autoImplicit false

namespace GrafeoLoro.Proofs

open GrafeoLoro GrafeoLoro.Lib

variable {T : Type}

/-! ### One step -/

/-- The element at a place, with the elements before and after it. -/
theorem exists_split_of_getElem? {α : Type} {l : List α} {i : Nat} {x : α} (h : l[i]? = some x) :
    ∃ before after, l = before ++ x :: after ∧ l.eraseIdx i = before ++ after ∧
      ∀ y, l.set i y = before ++ y :: after := by
  obtain ⟨hi, rfl⟩ := List.getElem?_eq_some_iff.mp h
  refine ⟨l.take i, l.drop (i + 1), ?_, List.eraseIdx_eq_take_drop_succ l i, fun y => ?_⟩
  · rw [List.getElem_cons_drop, List.take_append_drop]
  · rw [List.set_eq_take_append_cons_drop, if_pos hi]

/-- What is left when one element is taken was there before. -/
theorem mem_of_split {α : Type} {l before after : List α} {x y : α} (h : l = before ++ x :: after)
    (hy : y ∈ before ++ after) : y ∈ l := by
  rw [h]
  exact List.mem_append.mpr ((List.mem_append.mp hy).imp_right (List.mem_cons_of_mem x))

/-- What a step of the mailbox can do. -/
inductive MailboxStep : TokioMailbox T → MailboxAction T → TokioMailbox T → Prop where
  | sendStart {s : TokioMailbox T} {role : MailboxRole} {msg : T} (hside : s.side role = true)
      (htx : s.tx = true) :
      MailboxStep s (.sendStart role msg) { s with sends := s.sends ++ [(role, msg)] }
  | sendRefused {s : TokioMailbox T} {role : MailboxRole} {msg : T} (htx : s.tx = false) :
      MailboxStep s (.sendStart role msg) s
  | sendOk {s : TokioMailbox T} {i : Nat} {call : MailboxRole × T}
      {before after : List (MailboxRole × T)} (hcall : s.sends = before ++ call :: after)
      (hreceiver : s.receivers ≠ 0) (hroom : s.queue.length < s.capacity) :
      MailboxStep s (.sendFinish i)
        { s with
          sends := before ++ after
          queue := s.queue ++ [call.2]
          sent := s.sent ++ [call.2] }
  | sendErr {s : TokioMailbox T} {i : Nat} {call : MailboxRole × T}
      {before after : List (MailboxRole × T)} (hcall : s.sends = before ++ call :: after)
      (hreceiver : s.receivers = 0) :
      MailboxStep s (.sendFinish i) { s with sends := before ++ after }
  | sendCancel {s : TokioMailbox T} {i : Nat} {call : MailboxRole × T}
      {before after : List (MailboxRole × T)} (hcall : s.sends = before ++ call :: after) :
      MailboxStep s (.sendCancel i) { s with sends := before ++ after }
  | recvTake {s : TokioMailbox T} {role : MailboxRole} (hside : s.side role = true)
      (hrx : s.rx = true) :
      MailboxStep s (.recvStart role)
        { s with rx := false, recvs := s.recvs ++ [(role, .awaiting)] }
  | recvEmpty {s : TokioMailbox T} {role : MailboxRole} (hside : s.side role = true)
      (hrx : s.rx = false) :
      MailboxStep s (.recvStart role) { s with rx := false, recvs := s.recvs ++ [(role, .empty)] }
  | recvMsg {s : TokioMailbox T} {i : Nat} {role : MailboxRole} {msg : T} {rest : List T}
      {before after : List (MailboxRole × RecvCall T)}
      (hcall : s.recvs = before ++ (role, .awaiting) :: after) (hqueue : s.queue = msg :: rest) :
      MailboxStep s (.recvPoll i)
        { s with queue := rest, recvs := before ++ (role, .polled (some msg)) :: after }
  | recvEnd {s : TokioMailbox T} {i : Nat} {role : MailboxRole}
      {before after : List (MailboxRole × RecvCall T)}
      (hcall : s.recvs = before ++ (role, .awaiting) :: after) (hqueue : s.queue = [])
      (hsender : s.hasSender = false) :
      MailboxStep s (.recvPoll i) { s with recvs := before ++ (role, .polled none) :: after }
  | returnEmpty {s : TokioMailbox T} {i : Nat} {role : MailboxRole}
      {before after : List (MailboxRole × RecvCall T)}
      (hcall : s.recvs = before ++ (role, .empty) :: after) :
      MailboxStep s (.recvReturn i) { s with recvs := before ++ after }
  | returnPolled {s : TokioMailbox T} {i : Nat} {role : MailboxRole} {msg : Option T}
      {before after : List (MailboxRole × RecvCall T)}
      (hcall : s.recvs = before ++ (role, .polled msg) :: after) :
      MailboxStep s (.recvReturn i)
        { s with rx := true, recvs := before ++ after, got := s.got ++ msg.toList }
  | recvCancel {s : TokioMailbox T} {i : Nat} {role : MailboxRole}
      {before after : List (MailboxRole × RecvCall T)}
      (hcall : s.recvs = before ++ (role, .awaiting) :: after) :
      MailboxStep s (.recvCancel i) { s with rx := true, recvs := before ++ after }
  | dropSide {s : TokioMailbox T} {role : MailboxRole} (hside : s.side role = true)
      (hunused : s.unused role = true) : MailboxStep s (.dropSide role) (s.dropHandle role)

/-- The step function does what `MailboxStep` lists. -/
theorem mailbox_next_cases {s u : TokioMailbox T} {a : MailboxAction T} (h : s.next a = some u) :
    MailboxStep s a u := by
  cases a with
  | sendStart role msg =>
    simp only [TokioMailbox.next] at h
    split at h
    · rename_i hside
      split at h <;> cases h
      · exact .sendStart hside ‹_›
      · exact .sendRefused (Bool.eq_false_iff.mpr ‹_›)
    · cases h
  | sendFinish i =>
    simp only [TokioMailbox.next] at h
    split at h
    · rename_i role msg hat
      obtain ⟨before, after, hcall, herase, -⟩ := exists_split_of_getElem? hat
      rw [herase] at h
      split at h
      · cases h
        exact .sendErr hcall ‹_›
      · split at h
        · cases h
          exact .sendOk hcall ‹_› ‹_›
        · cases h
    · cases h
  | sendCancel i =>
    simp only [TokioMailbox.next] at h
    split at h
    · rename_i hi
      obtain ⟨before, after, hcall, herase, -⟩ :=
        exists_split_of_getElem? (List.getElem?_eq_getElem hi)
      rw [herase] at h
      cases h
      exact .sendCancel hcall
    · cases h
  | recvStart role =>
    simp only [TokioMailbox.next] at h
    split at h
    · rename_i hside
      cases hrx : s.rx with
      | true =>
        simp only [hrx, if_true] at h
        cases h
        exact .recvTake hside hrx
      | false =>
        simp only [hrx, Bool.false_eq_true, if_false] at h
        cases h
        exact .recvEmpty hside hrx
    · cases h
  | recvPoll i =>
    simp only [TokioMailbox.next] at h
    split at h
    · rename_i role msg rest hat hqueue
      obtain ⟨before, after, hcall, -, hset⟩ := exists_split_of_getElem? hat
      rw [hset] at h
      cases h
      exact .recvMsg hcall hqueue
    · rename_i role hat hqueue
      obtain ⟨before, after, hcall, -, hset⟩ := exists_split_of_getElem? hat
      rw [hset] at h
      split at h <;> cases h
      exact .recvEnd hcall hqueue (Bool.eq_false_iff.mpr ‹_›)
    · cases h
  | recvReturn i =>
    simp only [TokioMailbox.next] at h
    split at h
    · rename_i role hat
      obtain ⟨before, after, hcall, herase, -⟩ := exists_split_of_getElem? hat
      rw [herase] at h
      cases h
      exact .returnEmpty hcall
    · rename_i role msg hat
      obtain ⟨before, after, hcall, herase, -⟩ := exists_split_of_getElem? hat
      rw [herase] at h
      cases h
      exact .returnPolled hcall
    · cases h
  | recvCancel i =>
    simp only [TokioMailbox.next] at h
    split at h
    · rename_i role hat
      obtain ⟨before, after, hcall, herase, -⟩ := exists_split_of_getElem? hat
      rw [herase] at h
      cases h
      exact .recvCancel hcall
    · cases h
  | dropSide role =>
    simp only [TokioMailbox.next] at h
    split at h
    · rename_i hdrop
      obtain ⟨hside, hunused⟩ := (Bool.and_eq_true _ _).mp hdrop
      cases h
      exact .dropSide hside hunused
    · cases h

/-! ### Where the receiver and the messages are -/

/-- The calls that have a receiver. -/
def holders (recvs : List (MailboxRole × RecvCall T)) : Nat :=
  recvs.countP fun call => call.2.holds

/-- The messages in the hands of the calls. -/
def inHand (recvs : List (MailboxRole × RecvCall T)) : List T :=
  recvs.flatMap fun call => call.2.hand

@[simp] theorem holders_append (l₁ l₂ : List (MailboxRole × RecvCall T)) :
    holders (l₁ ++ l₂) = holders l₁ + holders l₂ := List.countP_append

@[simp] theorem holders_cons (role : MailboxRole) (call : RecvCall T)
    (l : List (MailboxRole × RecvCall T)) :
    holders ((role, call) :: l) = holders l + call.holds.toNat := by
  unfold holders
  rw [List.countP_cons]
  cases call.holds <;> rfl

@[simp] theorem holders_nil : holders ([] : List (MailboxRole × RecvCall T)) = 0 := rfl

@[simp] theorem inHand_append (l₁ l₂ : List (MailboxRole × RecvCall T)) :
    inHand (l₁ ++ l₂) = inHand l₁ ++ inHand l₂ := List.flatMap_append

@[simp] theorem inHand_cons (role : MailboxRole) (call : RecvCall T)
    (l : List (MailboxRole × RecvCall T)) :
    inHand ((role, call) :: l) = call.hand ++ inHand l := List.flatMap_cons

@[simp] theorem inHand_nil : inHand ([] : List (MailboxRole × RecvCall T)) = [] := rfl

/-- A call without a receiver has no message in hand. -/
theorem hand_of_not_holds {call : RecvCall T} (h : call.holds = false) : call.hand = [] := by
  cases call with
  | empty => rfl
  | awaiting | polled => cases h

/-- Without a receiver in any guard, no message is in hand. -/
theorem inHand_of_holders_zero {l : List (MailboxRole × RecvCall T)} (h : holders l = 0) :
    inHand l = [] := by
  induction l with
  | nil => rfl
  | cons p l ih =>
    obtain ⟨role, call⟩ := p
    rw [holders_cons] at h
    have hcall : call.holds = false := by
      cases hholds : call.holds with
      | false => rfl
      | true => rw [hholds] at h; exact absurd h (Nat.succ_ne_zero _)
    rw [inHand_cons, hand_of_not_holds hcall, ih (by omega), List.nil_append]

theorem receivers_eq (s : TokioMailbox T) : s.receivers = s.rx.toNat + holders s.recvs := rfl

theorem hand_eq (s : TokioMailbox T) : s.hand = inHand s.recvs := rfl

/-- The invariant of the mailbox. -/
structure MailboxOk (capacity : Nat) (s : TokioMailbox T) : Prop where
  /-- There is at most one receiver. -/
  custody : s.receivers ≤ 1
  /-- It lives at least as long as the `rx_side`. -/
  kept : s.rxSide = true → s.receivers = 1
  conserved : s.sent = s.got ++ s.hand ++ s.queue ++ s.lost
  bounded : s.queue.length ≤ capacity
  size : s.capacity = capacity
  /-- A receiver that is gone has taken the messages in the channel with it. -/
  gone : s.receivers = 0 → s.queue = []
  lost : s.receivers = 1 → s.lost = []
  /-- A `None` from the receiver means that the channel is closed and empty. -/
  ended : ∀ role, (role, .polled none) ∈ s.recvs → s.queue = [] ∧ s.hasSender = false
  /-- Without the `tx_side` there is no sender in `inner`. -/
  txGone : s.txSide = false → s.tx = false

namespace MailboxOk

variable {capacity : Nat} {s : TokioMailbox T}

/-- When a call has the receiver, no other place has it. -/
theorem others (h : MailboxOk capacity s) {role : MailboxRole} {call : RecvCall T}
    {before after : List (MailboxRole × RecvCall T)}
    (hcall : s.recvs = before ++ (role, call) :: after)
    (hholds : call.holds = true) : s.rx = false ∧ holders before = 0 ∧ holders after = 0 := by
  have hcustody := h.custody
  rw [receivers_eq, hcall, holders_append, holders_cons, hholds, Bool.toNat_true] at hcustody
  refine ⟨?_, by omega, by omega⟩
  cases hrx : s.rx with
  | false => rfl
  | true => rw [hrx, Bool.toNat_true] at hcustody; omega

/-- When `inner` has the receiver, no call has it. -/
theorem noHolder (h : MailboxOk capacity s) (hrx : s.rx = true) : holders s.recvs = 0 := by
  have hcustody := h.custody
  rw [receivers_eq, hrx, Bool.toNat_true] at hcustody
  omega

/-- A step of a `send` that adds no sender to a closed channel. -/
theorem sendChange (h : MailboxOk capacity s) {sends : List (MailboxRole × T)}
    (hsender : s.hasSender = false → sends = []) :
    MailboxOk capacity { s with sends := sends } := by
  refine { h with ended := fun role hmem => ?_ }
  obtain ⟨hqueue, hnone⟩ := h.ended role hmem
  refine ⟨hqueue, ?_⟩
  have htx : s.tx = false := (Bool.or_eq_false_iff.mp hnone).1
  show (s.tx || !sends.isEmpty) = false
  rw [htx, hsender hnone]
  rfl

/-- A step of a `recv` that keeps the number of receivers and the messages in a row. -/
theorem recvChange (h : MailboxOk capacity s) {rx : Bool}
    {recvs : List (MailboxRole × RecvCall T)} {queue got : List T}
    (hreceivers : rx.toNat + holders recvs = s.receivers)
    (hmsgs : got ++ inHand recvs ++ queue = s.got ++ s.hand ++ s.queue)
    (hlength : queue.length ≤ s.queue.length)
    (hended : ∀ role, (role, .polled none) ∈ recvs →
      (role, .polled none) ∈ s.recvs ∨ s.queue = [] ∧ s.hasSender = false) :
    MailboxOk capacity { s with rx := rx, recvs := recvs, queue := queue, got := got } := by
  -- a queue that was empty stays so
  have hempty : s.queue = [] → queue = [] := fun hq =>
    List.eq_nil_of_length_eq_zero (by rw [hq] at hlength; exact Nat.le_zero.mp hlength)
  constructor
  case custody => exact Nat.le_trans (Nat.le_of_eq hreceivers) h.custody
  case kept => exact fun hside => hreceivers.trans (h.kept hside)
  case conserved =>
    show s.sent = got ++ inHand recvs ++ queue ++ s.lost
    rw [hmsgs]
    exact h.conserved
  case bounded => exact Nat.le_trans hlength h.bounded
  case size => exact h.size
  case gone => exact fun hzero => hempty (h.gone (hreceivers.symm.trans hzero))
  case lost => exact fun hone => h.lost (hreceivers.symm.trans hone)
  case ended =>
    intro role hmem
    have hold : s.queue = [] ∧ s.hasSender = false :=
      (hended role hmem).elim (h.ended role) id
    exact ⟨hempty hold.1, hold.2⟩
  case txGone => exact h.txGone

/-- Handles that are dropped, and the sender with them. -/
theorem handleChange (h : MailboxOk capacity s) {tx txSide rxSide : Bool}
    (hrx : rxSide = true → s.rxSide = true) (htx : tx = true → s.tx = true)
    (hside : txSide = false → tx = false) :
    MailboxOk capacity { s with tx := tx, txSide := txSide, rxSide := rxSide } := by
  refine { h with kept := fun hr => h.kept (hrx hr), ended := fun role hmem => ?_, txGone := hside }
  obtain ⟨hqueue, hnone⟩ := h.ended role hmem
  obtain ⟨hstx, hsends⟩ := Bool.or_eq_false_iff.mp hnone
  refine ⟨hqueue, ?_⟩
  have hfalse : tx = false := by
    cases htx' : tx with
    | false => rfl
    | true => rw [htx htx'] at hstx; cases hstx
  show (tx || !s.sends.isEmpty) = false
  rw [hfalse, hsends]
  rfl

/-- The receiver in `inner` goes with the `rx_side`. -/
theorem dropReceiver (h : MailboxOk capacity s) (hside : s.rxSide = false) :
    MailboxOk capacity s.dropReceiver := by
  unfold TokioMailbox.dropReceiver
  split
  · rename_i hrx
    have hzero := h.noHolder hrx
    have hone : s.receivers = 1 := by rw [receivers_eq, hrx, hzero]; rfl
    have hnone : (false : Bool).toNat + holders s.recvs = 0 := by rw [hzero]; rfl
    constructor
    case custody => exact Nat.le_trans (Nat.le_of_eq hnone) (Nat.zero_le 1)
    case kept => exact fun hr => absurd hr (by simp [hside])
    case conserved =>
      show s.sent = s.got ++ s.hand ++ [] ++ (s.lost ++ s.queue)
      rw [h.conserved, h.lost hone]
      simp
    case bounded => exact Nat.zero_le _
    case size => exact h.size
    case gone => exact fun _ => rfl
    case lost => exact fun hr => absurd (hnone.symm.trans hr) Nat.zero_ne_one
    case ended => exact fun role hmem => ⟨rfl, (h.ended role hmem).2⟩
    case txGone => exact h.txGone
  · exact h

end MailboxOk

/-- A new mailbox. -/
theorem mailboxOk_new {capacity : Nat} {s : TokioMailbox T}
    (h : TokioMailbox.new capacity = some s) : MailboxOk capacity s := by
  unfold TokioMailbox.new at h
  split at h <;> cases h
  constructor
  case custody => exact Nat.le_refl 1
  case kept => exact fun _ => rfl
  case conserved => rfl
  case bounded => exact Nat.zero_le _
  case size => rfl
  case gone => exact fun _ => rfl
  case lost => exact fun _ => rfl
  case ended => exact fun _ hmem => absurd hmem List.not_mem_nil
  case txGone => exact fun htx => absurd htx (by simp)

/-- One step keeps the invariant. -/
theorem mailboxOk_step {capacity : Nat} {s u : TokioMailbox T} {a : MailboxAction T}
    (hstep : s.next a = some u) (h : MailboxOk capacity s) : MailboxOk capacity u := by
  cases mailbox_next_cases hstep with
  | sendStart _ htx =>
    refine h.sendChange fun hnone => ?_
    rw [TokioMailbox.hasSender, htx] at hnone
    cases hnone
  | sendRefused => exact h
  | sendErr hcall | sendCancel hcall =>
    refine h.sendChange fun hnone => ?_
    rw [TokioMailbox.hasSender, hcall] at hnone
    simp at hnone
  | @sendOk _ call before after hcall hreceiver hroom =>
    -- the channel takes the message, and it was not closed
    have hsender : s.hasSender = true := by
      rw [TokioMailbox.hasSender, hcall]
      simp
    have hone : s.receivers = 1 := Nat.le_antisymm h.custody (Nat.one_le_iff_ne_zero.mpr hreceiver)
    constructor
    case custody => exact h.custody
    case kept => exact h.kept
    case conserved =>
      show s.sent ++ [call.2] = s.got ++ s.hand ++ (s.queue ++ [call.2]) ++ s.lost
      rw [h.conserved, h.lost hone]
      simp
    case bounded =>
      show (s.queue ++ [call.2]).length ≤ capacity
      rw [List.length_append, List.length_singleton, ← h.size]
      exact hroom
    case size => exact h.size
    case gone => exact fun hzero => absurd hzero hreceiver
    case lost => exact h.lost
    case ended =>
      intro role hmem
      rw [(h.ended role hmem).2] at hsender
      cases hsender
    case txGone => exact h.txGone
  | recvTake _ hrx =>
    have hzero := h.noHolder hrx
    refine h.recvChange ?_ ?_ (Nat.le_refl _) fun role hmem => .inl ?_
    · rw [receivers_eq, hrx, holders_append, hzero]
      rfl
    · rw [inHand_append, hand_eq]
      simp [RecvCall.hand]
    · simpa using hmem
  | recvEmpty _ hrx =>
    refine h.recvChange ?_ ?_ (Nat.le_refl _) fun role hmem => .inl ?_
    · rw [receivers_eq, hrx, holders_append]
      rfl
    · rw [inHand_append, hand_eq]
      simp [RecvCall.hand]
    · simpa using hmem
  | @recvMsg _ role msg rest before after hcall hqueue =>
    obtain ⟨hrx, hbefore, hafter⟩ := h.others hcall rfl
    refine h.recvChange ?_ ?_ ?_ fun role' hmem => .inl ?_
    · rw [receivers_eq, hcall, holders_append, holders_append, holders_cons, holders_cons]
      rfl
    · rw [hand_eq, hcall, hqueue, inHand_append, inHand_append, inHand_cons, inHand_cons,
        inHand_of_holders_zero hbefore, inHand_of_holders_zero hafter]
      simp [RecvCall.hand]
    · rw [hqueue]
      exact Nat.le_succ _
    · rw [hcall]
      simpa using hmem
  | @recvEnd _ role before after hcall hqueue hsender =>
    refine h.recvChange ?_ ?_ (Nat.le_refl _) fun _ _ => .inr ⟨hqueue, hsender⟩
    · rw [receivers_eq, hcall, holders_append, holders_append, holders_cons, holders_cons]
      rfl
    · rw [hand_eq, hcall, inHand_append, inHand_append, inHand_cons, inHand_cons]
      simp [RecvCall.hand]
  | returnEmpty hcall =>
    refine h.recvChange ?_ ?_ (Nat.le_refl _) fun role' hmem => .inl ?_
    · rw [receivers_eq, hcall, holders_append, holders_append, holders_cons]
      rfl
    · rw [hand_eq, hcall, inHand_append, inHand_append, inHand_cons]
      simp [RecvCall.hand]
    · exact mem_of_split hcall hmem
  | @returnPolled _ role msg before after hcall =>
    obtain ⟨hrx, hbefore, hafter⟩ := h.others hcall rfl
    refine h.recvChange ?_ ?_ (Nat.le_refl _) fun role' hmem => .inl ?_
    · rw [receivers_eq, hcall, hrx, holders_append, holders_append, holders_cons, hbefore, hafter]
      rfl
    · rw [hand_eq, hcall, inHand_append, inHand_append, inHand_cons,
        inHand_of_holders_zero hbefore, inHand_of_holders_zero hafter]
      cases msg <;> simp [RecvCall.hand]
    · exact mem_of_split hcall hmem
  | @recvCancel _ role before after hcall =>
    obtain ⟨hrx, hbefore, hafter⟩ := h.others hcall rfl
    refine h.recvChange ?_ ?_ (Nat.le_refl _) fun role' hmem => .inl ?_
    · rw [receivers_eq, hcall, hrx, holders_append, holders_append, holders_cons, hbefore, hafter]
      rfl
    · rw [hand_eq, hcall, inHand_append, inHand_append, inHand_cons]
      simp [RecvCall.hand]
    · exact mem_of_split hcall hmem
  | @dropSide role =>
    cases role with
    | tx =>
      have hdrop : MailboxOk capacity { s with tx := false, txSide := false } :=
        h.handleChange id (fun htx => Bool.noConfusion htx) fun _ => rfl
      simp only [TokioMailbox.dropHandle]
      split
      · exact hdrop
      · exact hdrop.dropReceiver (Bool.eq_false_iff.mpr ‹_›)
    | rx =>
      have hdrop : MailboxOk capacity { s with rxSide := false } :=
        h.handleChange (fun hr => Bool.noConfusion hr) id h.txGone
      exact hdrop.dropReceiver rfl

/-- Every run keeps the invariant. -/
theorem mailboxOk_run {capacity : Nat} {m s : TokioMailbox T}
    {h : List (TokioMailbox T × MailboxAction T)} (hnew : TokioMailbox.new capacity = some m)
    (hrun : Exec TokioMailbox.next m h s) : MailboxOk capacity s :=
  hrun.invariant (I := MailboxOk capacity) (fun _ _ _ => mailboxOk_step) (mailboxOk_new hnew)

/-- There are no more messages in hand than receivers in guards. -/
theorem length_inHand_le (l : List (MailboxRole × RecvCall T)) :
    (inHand l).length ≤ holders l := by
  induction l with
  | nil => exact Nat.le_refl 0
  | cons p l ih =>
    obtain ⟨role, call⟩ := p
    rw [inHand_cons, List.length_append, holders_cons]
    have hcall : call.hand.length ≤ call.holds.toNat := by
      cases call with
      | empty | awaiting => exact Nat.zero_le _
      | polled msg => cases msg <;> simp [RecvCall.hand, RecvCall.holds]
    omega

/-! ### The order of the messages -/

/-- In every run the messages of the successful `send`s are those that were received, the one in
hand, those in the channel and those lost, in this order. The channel is never over its capacity,
at most one message is in hand, and none is lost while the `rx_side` lives. -/
theorem mailbox_conserves (capacity : Nat) {m s : TokioMailbox T}
    {h : List (TokioMailbox T × MailboxAction T)} (hnew : TokioMailbox.new capacity = some m)
    (hrun : Exec TokioMailbox.next m h s) :
    s.sent = s.got ++ s.hand ++ s.queue ++ s.lost ∧ s.queue.length ≤ capacity ∧
      s.hand.length ≤ 1 ∧ (s.rxSide = true → s.lost = []) := by
  have hok := mailboxOk_run hnew hrun
  refine ⟨hok.conserved, hok.bounded, ?_, fun hside => hok.lost (hok.kept hside)⟩
  have hcustody := hok.custody
  rw [receivers_eq] at hcustody
  have hhand := length_inHand_le s.recvs
  rw [hand_eq]
  omega

/-- Two messages through a channel for one, with a `recv` that is cancelled in between. -/
def twoMessages : List (MailboxAction Nat) :=
  [.sendStart .tx 7, .sendFinish 0, .recvStart .rx, .recvCancel 0, .sendStart .tx 8, .recvStart .rx,
    .recvPoll 0, .sendFinish 0, .recvReturn 0]

/-- The first message is received and the second one is in the channel. -/
theorem mailbox_conserves_two :
    ∃ m s h, TokioMailbox.new 1 = some m ∧ Exec TokioMailbox.next m h s ∧ s.sent = [7, 8] ∧
      s.got = [7] ∧ s.queue = [8] ∧ s.lost = [] := by
  have hacts : runActions TokioMailbox.next ⟨1, [], true, true, true, true, [], [], [], [], []⟩
      twoMessages = some ⟨1, [8], true, true, true, true, [], [], [7, 8], [7], []⟩ := rfl
  obtain ⟨h, hrun, -⟩ := exec_of_run hacts
  exact ⟨_, _, h, rfl, hrun, rfl, rfl, rfl, (mailbox_conserves 1 rfl hrun).2.2.2 rfl⟩

/-! ### The receiver -/

/-- Without a receiver in `inner` there is nothing to drop. -/
theorem dropReceiver_of_rx {s : TokioMailbox T} (h : s.rx = false) : s.dropReceiver = s := by
  rw [TokioMailbox.dropReceiver, h]
  rfl

/-- A handle that is dropped drops the receiver in `inner` at most. -/
theorem dropHandle_receivers {s : TokioMailbox T} (h : s.rx = false) (role : MailboxRole) :
    (s.dropHandle role).receivers = s.receivers := by
  cases role with
  | tx =>
    simp only [TokioMailbox.dropHandle]
    split
    · rfl
    · rw [dropReceiver_of_rx (s := { s with txSide := false, tx := false }) h]
      rfl
  | rx =>
    simp only [TokioMailbox.dropHandle]
    rw [dropReceiver_of_rx (s := { s with rxSide := false }) h]
    rfl

/-- A receiver that is gone does not come back. -/
theorem receivers_step {s u : TokioMailbox T} {a : MailboxAction T} (hstep : s.next a = some u)
    (h : s.receivers = 0) : u.receivers = 0 := by
  rw [receivers_eq] at h
  have hrx : s.rx = false := by
    cases hs : s.rx with
    | false => rfl
    | true => rw [hs, Bool.toNat_true] at h; omega
  have hholders : holders s.recvs = 0 := by omega
  cases mailbox_next_cases hstep with
  | sendStart | sendRefused | sendOk | sendErr | sendCancel => exact h
  | recvTake _ htake =>
    rw [hrx] at htake
    cases htake
  | recvEmpty =>
    rw [receivers_eq, holders_append, hholders]
    rfl
  | recvMsg hcall | recvEnd hcall | returnPolled hcall | recvCancel hcall =>
    -- a call that has the receiver is one too many
    rw [hcall, holders_append, holders_cons] at hholders
    simp [RecvCall.holds] at hholders
  | returnEmpty hcall =>
    rw [hcall, holders_append, holders_cons] at hholders
    rw [receivers_eq, holders_append, hrx]
    simp only [Bool.toNat_false]
    omega
  | @dropSide role => exact (dropHandle_receivers hrx role).trans h

/-- The step takes no message, gives none to a caller and leaves the receiver where it is. -/
def TakesNothing (s u : TokioMailbox T) : Prop :=
  u.queue = s.queue ∧ u.got = s.got ∧ u.hand = s.hand ∧ u.rx = s.rx

/-- A `recv` that starts while the receiver is not in `inner` has an empty guard. -/
theorem recvStart_beside {s u : TokioMailbox T} {role : MailboxRole}
    (hstep : s.next (.recvStart role) = some u) (hrx : s.rx = false) :
    u.recvs = s.recvs ++ [(role, .empty)] ∧ TakesNothing s u := by
  cases mailbox_next_cases hstep with
  | recvTake _ htake =>
    rw [hrx] at htake
    cases htake
  | recvEmpty =>
    have hhand : inHand (s.recvs ++ [(role, .empty)]) = inHand s.recvs := by
      rw [inHand_append, inHand_cons]
      exact List.append_nil _
    exact ⟨rfl, rfl, rfl, hhand, hrx.symm⟩

/-- A `recv` with an empty guard returns, and that is all it does. -/
theorem emptyCall_takes_nothing {s : TokioMailbox T} {i : Nat} {role : MailboxRole}
    (hcall : s.recvs[i]? = some (role, .empty)) :
    s.next (.recvPoll i) = none ∧ s.next (.recvCancel i) = none ∧
      ∃ u, s.next (.recvReturn i) = some u ∧ TakesNothing s u := by
  refine ⟨by simp [TokioMailbox.next, hcall], by simp [TokioMailbox.next, hcall],
    { s with recvs := s.recvs.eraseIdx i }, by simp [TokioMailbox.next, hcall], rfl, rfl, ?_, rfl⟩
  obtain ⟨before, after, hsplit, herase, -⟩ := exists_split_of_getElem? hcall
  show inHand (s.recvs.eraseIdx i) = inHand s.recvs
  rw [herase, hsplit, inHand_append, inHand_append, inHand_cons]
  rfl

/-- In every run, while the `rx_side` lives the receiver is in `inner` or with exactly one `recv`,
and a new `recv` finds none only when another one has it. A `recv` that starts while another one
has it gets an empty guard: it takes no message when it starts, it is never polled, and it takes
none when it returns. A `recv` that is cancelled puts the receiver back and takes no message.
There are never two receivers, and one that is gone does not come back. -/
theorem mailbox_keeps_receiver (capacity : Nat) {m s : TokioMailbox T}
    {h : List (TokioMailbox T × MailboxAction T)} (hnew : TokioMailbox.new capacity = some m)
    (hrun : Exec TokioMailbox.next m h s) :
    (s.rxSide = true → holders s.recvs = if s.rx then 0 else 1) ∧
      (∀ role u, s.next (.recvStart role) = some u → s.rxSide = true →
        u.recvs = s.recvs ++ [(role, .empty)] → ∃ call ∈ s.recvs, call.2.holds = true) ∧
      (∀ role u, s.next (.recvStart role) = some u → (∃ call ∈ s.recvs, call.2.holds = true) →
        u.recvs = s.recvs ++ [(role, .empty)] ∧ TakesNothing s u) ∧
      (∀ (i : Nat) role, s.recvs[i]? = some (role, .empty) →
        s.next (.recvPoll i) = none ∧ s.next (.recvCancel i) = none ∧
          ∃ u, s.next (.recvReturn i) = some u ∧ TakesNothing s u) ∧
      (∀ i u, s.next (.recvCancel i) = some u →
        u.rx = true ∧ u.hand = s.hand ∧ u.queue = s.queue ∧ u.got = s.got) ∧
      s.receivers ≤ 1 ∧
      (s.receivers = 0 → ∀ h' t, Exec TokioMailbox.next s h' t → t.receivers = 0) := by
  have hok := mailboxOk_run hnew hrun
  have hplace : s.rxSide = true → holders s.recvs = if s.rx then 0 else 1 := by
    intro hside
    have hone := hok.kept hside
    rw [receivers_eq] at hone
    cases hrx : s.rx with
    | true => rw [hrx, Bool.toNat_true] at hone; simp only [if_true]; omega
    | false => rw [hrx, Bool.toNat_false] at hone; simp only [Bool.false_eq_true, if_false]; omega
  refine ⟨hplace, fun role u hstep hside hempty => ?_, fun role u hstep hholder => ?_,
    fun i role hcall => emptyCall_takes_nothing hcall, fun i u hstep => ?_, hok.custody, ?_⟩
  · cases mailbox_next_cases hstep with
    | recvTake _ hrx => simp at hempty
    | recvEmpty _ hrx =>
      have hone := hplace hside
      rw [hrx] at hone
      exact List.countP_pos_iff.mp (by
        show 0 < holders s.recvs
        rw [hone]
        exact Nat.one_pos)
  · obtain ⟨⟨other, call⟩, hmem, hholds⟩ := hholder
    obtain ⟨before, after, hcall⟩ := List.append_of_mem hmem
    exact recvStart_beside hstep (hok.others hcall hholds).1
  · cases mailbox_next_cases hstep with
    | recvCancel hcall =>
      refine ⟨rfl, ?_, rfl, rfl⟩
      rw [hand_eq, hand_eq, hcall, inHand_append, inHand_append, inHand_cons]
      rfl
  · intro hzero h' t hrun'
    exact hrun'.invariant (I := fun t => t.receivers = 0) (fun _ _ _ => receivers_step) hzero

/-- The receiver of a cancelled `recv` is back, and the next `recv` has it. A third one that
starts beside it takes nothing. -/
theorem mailbox_keeps_receiver_cancelled :
    ∃ m s h u, TokioMailbox.new 1 = some m ∧
      Exec TokioMailbox.next m h s ∧ s.rx = false ∧ holders s.recvs = 1 ∧ s.queue = [7] ∧
      s.next (.recvStart .rx) = some u ∧
      u.recvs = [(.rx, .awaiting), (.rx, .empty)] ∧ TakesNothing s u := by
  have hacts : runActions TokioMailbox.next ⟨1, [], true, true, true, true, [], [], [], [], []⟩
      [.sendStart .tx 7, .sendFinish 0, .recvStart .rx, .recvCancel 0, .recvStart .rx]
      = some ⟨1, [7], true, false, true, true, [], [(.rx, .awaiting)], [7], [], []⟩ := rfl
  obtain ⟨h, hrun, -⟩ := exec_of_run hacts
  have hkeeps := mailbox_keeps_receiver 1 rfl hrun
  have hbeside := hkeeps.2.2.1 .rx _ rfl ⟨(.rx, .awaiting), List.mem_singleton.mpr rfl, rfl⟩
  exact ⟨_, _, h, _, rfl, hrun, rfl, hkeeps.1 rfl, rfl, rfl, hbeside⟩

/-! ### The end of the stream -/

/-- The drop of a handle sends nothing, receives nothing and adds no sender. -/
theorem dropHandle_keeps (s : TokioMailbox T) (role : MailboxRole) :
    (s.dropHandle role).sent = s.sent ∧ (s.dropHandle role).got = s.got ∧
      (s.hasSender = false → (s.dropHandle role).hasSender = false) := by
  have hdrop : ∀ t : TokioMailbox T, t.dropReceiver.sent = t.sent ∧
      t.dropReceiver.got = t.got ∧ t.dropReceiver.hasSender = t.hasSender := by
    intro t
    unfold TokioMailbox.dropReceiver
    split <;> exact ⟨rfl, rfl, rfl⟩
  cases role with
  | tx =>
    have hclosed : s.hasSender = false →
        ({ s with txSide := false, tx := false } : TokioMailbox T).hasSender = false :=
      fun h => (Bool.or_eq_false_iff.mp h).2
    simp only [TokioMailbox.dropHandle]
    split
    · exact ⟨rfl, rfl, hclosed⟩
    · obtain ⟨hsent, hgot, hsender⟩ := hdrop { s with txSide := false, tx := false }
      exact ⟨hsent, hgot, fun h => hsender.trans (hclosed h)⟩
  | rx =>
    obtain ⟨hsent, hgot, hsender⟩ := hdrop { s with rxSide := false }
    exact ⟨hsent, hgot, fun h => hsender.trans h⟩

/-- A closed channel stays closed and accepts nothing. -/
theorem closed_step {s u : TokioMailbox T} {a : MailboxAction T} (hstep : s.next a = some u)
    (h : s.hasSender = false) : u.hasSender = false ∧ u.sent = s.sent := by
  obtain ⟨htx, hsends⟩ := Bool.or_eq_false_iff.mp h
  have hnil : s.sends = [] := by simpa using hsends
  have hsplit : ∀ {before after : List (MailboxRole × T)} {call : MailboxRole × T},
      s.sends ≠ before ++ call :: after := by
    intro before after call hcall
    rw [hnil] at hcall
    simp at hcall
  cases mailbox_next_cases hstep with
  | sendStart _ hopen =>
    rw [htx] at hopen
    cases hopen
  | sendOk hcall | sendErr hcall | sendCancel hcall => exact absurd hcall hsplit
  | sendRefused | recvTake | recvEmpty | recvMsg | recvEnd | returnEmpty | returnPolled
  | recvCancel => exact ⟨h, rfl⟩
  | @dropSide role => exact ⟨(dropHandle_keeps s role).2.2 h, (dropHandle_keeps s role).1⟩

/-- What is received stays received. -/
theorem got_step {s u : TokioMailbox T} {a : MailboxAction T} (hstep : s.next a = some u) :
    s.got <+: u.got := by
  cases mailbox_next_cases hstep with
  | returnPolled => exact List.prefix_append _ _
  | @dropSide role => exact (dropHandle_keeps s role).2.1.symm ▸ List.prefix_rfl
  | _ => exact List.prefix_rfl

/-- Without a receiver no `send` succeeds. -/
theorem mailboxSent_step {s u : TokioMailbox T} {a : MailboxAction T} (hstep : s.next a = some u)
    (h : s.receivers = 0) : u.sent = s.sent := by
  cases mailbox_next_cases hstep with
  | sendOk _ hreceiver => exact absurd h hreceiver
  | @dropSide role => exact (dropHandle_keeps s role).1
  | _ => rfl

/-- After a `None` from the receiver no sender is left and every message is received, in every
later state too. -/
theorem drained_run {capacity : Nat} {s t : TokioMailbox T}
    {h : List (TokioMailbox T × MailboxAction T)} (hok : MailboxOk capacity s)
    {role : MailboxRole} (hend : (role, .polled none) ∈ s.recvs)
    (hrun : Exec TokioMailbox.next s h t) :
    t.hasSender = false ∧ t.sent = s.sent ∧ t.got = s.sent := by
  obtain ⟨hqueue, hsender⟩ := hok.ended role hend
  obtain ⟨before, after, hcall⟩ := List.append_of_mem hend
  -- the call that has the receiver has no message, and no other call has one
  obtain ⟨-, hbefore, hafter⟩ := hok.others hcall rfl
  have hhand : s.hand = [] := by
    rw [hand_eq, hcall, inHand_append, inHand_cons, inHand_of_holders_zero hbefore,
      inHand_of_holders_zero hafter]
    rfl
  have hone : s.receivers = 1 := by
    have hcustody := hok.custody
    rw [receivers_eq, hcall, holders_append, holders_cons] at hcustody ⊢
    simp only [RecvCall.holds, Bool.toNat_true] at hcustody ⊢
    omega
  have hall : s.got = s.sent := by
    rw [hok.conserved, hhand, hqueue, hok.lost hone]
    simp
  have hlater : s.got <+: t.got ∧ t.hasSender = false ∧ t.sent = s.sent :=
    hrun.invariant (I := fun t => s.got <+: t.got ∧ t.hasSender = false ∧ t.sent = s.sent)
      (fun _ _ _ hstep hi =>
        ⟨hi.1.trans (got_step hstep), (closed_step hstep hi.2.1).1,
          (closed_step hstep hi.2.1).2.trans hi.2.2⟩)
      ⟨List.prefix_rfl, hsender, rfl⟩
  have hokt : MailboxOk capacity t :=
    hrun.invariant (I := MailboxOk capacity) (fun _ _ _ => mailboxOk_step) hok
  have hprefix : t.got <+: s.sent := by
    rw [← hlater.2.2, hokt.conserved, List.append_assoc, List.append_assoc]
    exact List.prefix_append _ _
  refine ⟨hlater.2.1, hlater.2.2, ?_⟩
  have hlength := hlater.1.length_le
  rw [hall] at hlength
  exact hprefix.eq_of_length_le hlength

/-- In every run a `None` that the receiver gives is the end of the stream: no sender is left and
none comes back, all messages are received, and no later step sends one. A `recv` on a closed channel does not wait. Once the
receiver is gone, no later step sends a message, and no `send` waits. -/
theorem mailbox_ends (capacity : Nat) {m s : TokioMailbox T}
    {h : List (TokioMailbox T × MailboxAction T)} (hnew : TokioMailbox.new capacity = some m)
    (hrun : Exec TokioMailbox.next m h s) :
    (∀ role, (role, .polled none) ∈ s.recvs →
      s.hasSender = false ∧ ∀ h' t, Exec TokioMailbox.next s h' t →
        t.hasSender = false ∧ t.sent = s.sent ∧ t.got = s.sent) ∧
      (s.hasSender = false → ∀ (i : Nat) role, s.recvs[i]? = some (role, .awaiting) →
        (s.next (.recvPoll i)).isSome) ∧
      (s.receivers = 0 →
        (∀ h' t, Exec TokioMailbox.next s h' t → t.sent = s.sent) ∧
          ∀ i < s.sends.length, (s.next (.sendFinish i)).isSome) := by
  have hok := mailboxOk_run hnew hrun
  refine ⟨fun role hend => ⟨(hok.ended role hend).2, fun h' t hrun' => drained_run hok hend hrun'⟩,
    ?_, fun hzero => ⟨?_, ?_⟩⟩
  · intro hsender i role hcall
    simp only [TokioMailbox.next, hcall, hsender]
    cases s.queue <;> rfl
  · intro h' t hrun'
    have hlater := hrun'.invariant (I := fun t => t.receivers = 0 ∧ t.sent = s.sent)
      (fun _ _ _ hstep hi =>
        ⟨receivers_step hstep hi.1, (mailboxSent_step hstep hi.1).trans hi.2⟩) ⟨hzero, rfl⟩
    exact hlater.2
  · intro i hi
    simp only [TokioMailbox.next, List.getElem?_eq_getElem hi, hzero, if_true]
    rfl

/-- A message, the drop of the `tx_side`, and two `recv`s: the second one gives `None`. -/
theorem mailbox_ends_one :
    ∃ m s h, TokioMailbox.new 1 = some m ∧
      Exec TokioMailbox.next m h s ∧ (MailboxRole.rx, RecvCall.polled none) ∈ s.recvs ∧
      s.hasSender = false ∧ s.sent = [7] ∧ s.got = [7] := by
  have hacts : runActions TokioMailbox.next ⟨1, [], true, true, true, true, [], [], [], [], []⟩
      [.sendStart .tx 7, .sendFinish 0, .dropSide .tx, .recvStart .rx, .recvPoll 0, .recvReturn 0,
        .recvStart .rx, .recvPoll 0]
      = some ⟨1, [], false, false, false, true, [], [(.rx, .polled none)], [7], [7], []⟩ := rfl
  obtain ⟨h, hrun, -⟩ := exec_of_run hacts
  have hend : (MailboxRole.rx, RecvCall.polled none)
      ∈ [(MailboxRole.rx, (RecvCall.polled none : RecvCall Nat))] := List.mem_singleton.mpr rfl
  obtain ⟨hsender, hlater⟩ := (mailbox_ends 1 rfl hrun).1 .rx hend
  exact ⟨_, _, h, rfl, hrun, hend, hsender, rfl, (hlater [] _ .nil).2.2⟩

end GrafeoLoro.Proofs
