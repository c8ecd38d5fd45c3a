import GrafeoLoro.Lib.Exec

/-!
# `GrafeoLoro.Runtime.Mailbox`: the channel with two handles

The model of `TokioMailbox`, its `ReceiverGuard` and their `Drop`s (`src/runtime/mod.rs`). The two
handles share one `tokio::sync::mpsc` channel. Any number of tasks call `send` and `recv`, on
either handle. One step is one section that no other task can interleave with: a lock section, or
a poll of the channel that completes. A call borrows its handle, so a handle is dropped only when
no call on it is in progress. A call that is cancelled is dropped where it awaits.

The channel is the bounded one that `tokio` documents. Messages leave in the order in which they
were accepted. A `send` waits while the channel is full and fails when there is no receiver. A
`recv` waits while the channel is empty and gives `None` when it is empty and no sender is left.
A receiver that is dropped drops the messages in the channel.

`sent` lists the messages of the `send`s that returned `Ok`, `got` those that a `recv` returned,
and `lost` those that were dropped with the receiver, all from the start.
-/

set_option autoImplicit false

namespace GrafeoLoro

/-- Which half of the channel a handle drops. -/
inductive MailboxRole where
  | tx
  | rx
  deriving DecidableEq

/-- Where a call of `recv` is. -/
inductive RecvCall (T : Type) where
  /-- Its guard has no receiver. -/
  | empty
  /-- Its guard has the receiver and awaits a message. -/
  | awaiting
  /-- The receiver gave this, and the guard is not dropped yet. -/
  | polled (msg : Option T)

/-- The guard of the call has the receiver. -/
def RecvCall.holds {T : Type} : RecvCall T → Bool
  | .empty => false
  | _ => true

/-- The message between the receiver and the caller. -/
def RecvCall.hand {T : Type} : RecvCall T → List T
  | .polled (some msg) => [msg]
  | _ => []

/-- The channel, what the shared `inner` has of it, the handles and the calls in progress. -/
structure TokioMailbox (T : Type) where
  capacity : Nat
  queue : List T
  /-- `inner.tx` is `Some`. -/
  tx : Bool
  /-- `inner.rx` is `Some`. -/
  rx : Bool
  /-- The `tx_side` is not dropped. -/
  txSide : Bool
  /-- The `rx_side` is not dropped. -/
  rxSide : Bool
  /-- The `send`s that await, each with its handle and its own clone of the sender. -/
  sends : List (MailboxRole × T)
  recvs : List (MailboxRole × RecvCall T)
  sent : List T
  got : List T
  lost : List T

/-- One step of a task. `i` is the place of a call among those in progress. -/
inductive MailboxAction (T : Type) where
  /-- `send`, up to its await. -/
  | sendStart (role : MailboxRole) (msg : T)
  /-- `send` returns. -/
  | sendFinish (i : Nat)
  | sendCancel (i : Nat)
  /-- `recv`, up to its await. -/
  | recvStart (role : MailboxRole)
  /-- The receiver of a `recv` gives its result. -/
  | recvPoll (i : Nat)
  /-- The guard of a `recv` is dropped, and the call returns. -/
  | recvReturn (i : Nat)
  | recvCancel (i : Nat)
  | dropSide (role : MailboxRole)

namespace TokioMailbox

variable {T : Type}

/-- `new`. A channel without capacity panics. -/
def new (capacity : Nat) : Option (TokioMailbox T) :=
  if 0 < capacity then some ⟨capacity, [], true, true, true, true, [], [], [], [], []⟩ else none

/-- The handle is not dropped. -/
def side (s : TokioMailbox T) : MailboxRole → Bool
  | .tx => s.txSide
  | .rx => s.rxSide

/-- How many receivers there are, in `inner` and in guards. -/
def receivers (s : TokioMailbox T) : Nat :=
  s.rx.toNat + s.recvs.countP fun call => call.2.holds

/-- A sender is left: the one in `inner`, or the clone of a `send`. -/
def hasSender (s : TokioMailbox T) : Bool := s.tx || !s.sends.isEmpty

/-- The messages that a receiver gave and no `recv` has returned yet. -/
def hand (s : TokioMailbox T) : List T := s.recvs.flatMap fun call => call.2.hand

/-- No call on the handle is in progress. -/
def unused (s : TokioMailbox T) (role : MailboxRole) : Bool :=
  (s.sends.all fun call => call.1 != role) && s.recvs.all fun call => call.1 != role

/-- The receiver in `inner` is dropped, if there is one. -/
def dropReceiver (s : TokioMailbox T) : TokioMailbox T :=
  if s.rx then { s with rx := false, queue := [], lost := s.lost ++ s.queue } else s

/-- The `Drop` of a handle. The last handle drops `inner` too. -/
def dropHandle (role : MailboxRole) (s : TokioMailbox T) : TokioMailbox T :=
  match role with
  | .tx =>
    let s := { s with txSide := false, tx := false }
    if s.rxSide then s else s.dropReceiver
  | .rx => { s with rxSide := false }.dropReceiver

/-- The steps of all tasks. -/
def next (s : TokioMailbox T) : MailboxAction T → Option (TokioMailbox T)
  | .sendStart role msg =>
    if s.side role then
      -- without a sender in `inner` the call returns `MailboxClosed`
      if s.tx then some { s with sends := s.sends ++ [(role, msg)] } else some s
    else none
  | .sendFinish i =>
    match s.sends[i]? with
    | some (_, msg) =>
      let sends := s.sends.eraseIdx i
      if s.receivers = 0 then
        -- without a receiver the call returns `MailboxClosed`
        some { s with sends := sends }
      else if s.queue.length < s.capacity then
        some { s with sends := sends, queue := s.queue ++ [msg], sent := s.sent ++ [msg] }
      else none
    | none => none
  | .sendCancel i =>
    if i < s.sends.length then some { s with sends := s.sends.eraseIdx i } else none
  | .recvStart role =>
    if s.side role then
      let call := if s.rx then .awaiting else .empty
      some { s with rx := false, recvs := s.recvs ++ [(role, call)] }
    else none
  | .recvPoll i =>
    match s.recvs[i]?, s.queue with
    | some (role, .awaiting), msg :: rest =>
      some { s with queue := rest, recvs := s.recvs.set i (role, .polled (some msg)) }
    | some (role, .awaiting), [] =>
      if s.hasSender then none
      else some { s with recvs := s.recvs.set i (role, .polled none) }
    | _, _ => none
  | .recvReturn i =>
    match s.recvs[i]? with
    | some (_, .empty) => some { s with recvs := s.recvs.eraseIdx i }
    | some (_, .polled msg) =>
      some { s with rx := true, recvs := s.recvs.eraseIdx i, got := s.got ++ msg.toList }
    | _ => none
  | .recvCancel i =>
    match s.recvs[i]? with
    | some (_, .awaiting) => some { s with rx := true, recvs := s.recvs.eraseIdx i }
    | _ => none
  | .dropSide role => if s.side role && s.unused role then some (s.dropHandle role) else none

end TokioMailbox

end GrafeoLoro
