import GrafeoLoro.Constants
import GrafeoLoro.Lib.Exec
import Mathlib.Data.Finset.Basic

/-!
# `GrafeoLoro.Bridge.EpochChannel`: the epoch side channel of the outbound path

Grafeo's change events carry the epoch of their commit and no origin. To tell its own commits
apart, the bridge keeps the set `bridge_origin_epochs`: an inbound flush inserts the epoch of
its commit, the CDC poller drops the events whose epoch is in the set, and the outbound worker
checks again before it applies an event to Loro. The model of these three parties, from
`flush_inner` (`src/bridge/batcher.rs`), `spawn_cdc_poller` and `spawn_outbound_worker`
(`src/bridge/sync_engine.rs`), is a step function over what they share.

The commit of a flush and the insert of its epoch are two steps. A flush that timed out goes
on in the background, so several flushes can be between the two. `inclusive` tells whether
`changes_between` returns the events of its start epoch. A `changes_between` that fails ends
the cycle.

`inboundEpochs`, `handed` and `applied` are logs: the epochs that inbound flushes produced,
the events that the poller's filter has seen, and the events that were applied to Loro.
-/

set_option autoImplicit false

namespace GrafeoLoro

/-- `grafeo::EpochId`. -/
abbrev EpochId : Type := Nat

/-- A change event of Grafeo's CDC log. -/
structure ChangeEvent (Payload : Type) where
  epoch : EpochId
  payload : Payload

/-- Where the CDC poller is. -/
inductive CdcPoller (Payload : Type) where
  /-- Not started. -/
  | starting
  | sleeping
  /-- `current_epoch` was read, and the events are still to be fetched. -/
  | fetching (current : EpochId)
  /-- In the loop over the fetched events. -/
  | filtering (current : EpochId) (events : List (ChangeEvent Payload))
  /-- Awaiting `outbound_tx.send`. -/
  | sending (current : EpochId) (event : ChangeEvent Payload)
      (events : List (ChangeEvent Payload))

/-- What the flushes, the poller and the outbound worker share. -/
structure EpochChannel (Payload : Type) where
  currentEpoch : EpochId
  cdc : List (ChangeEvent Payload)
  inboundEpochs : List EpochId
  /-- Epochs of inbound flushes that are between the commit and the insert. -/
  unrecorded : List EpochId
  bridgeOriginEpochs : Finset EpochId
  lastEpoch : EpochId
  poller : CdcPoller Payload
  handed : List (ChangeEvent Payload)
  outbound : List (ChangeEvent Payload)
  /-- The event between the worker's check and its application. -/
  worker : Option (ChangeEvent Payload)
  applied : List (ChangeEvent Payload)

/-- One atomic step of one party. -/
inductive EpochAction (Payload : Type) where
  /-- `prepared.commit()` of an inbound flush. -/
  | inboundCommit (changes : List Payload)
  /-- `epochs.write().insert(epoch)` of an inbound flush. -/
  | inboundInsert (epoch : EpochId)
  /-- A commit of anyone else. -/
  | otherCommit (changes : List Payload)
  | pollerStart
  | pollerWake
  | pollerFetch
  | pollerFetchErr
  | pollerFilter
  | pollerSend
  | pollerPrune
  | workerCheck
  | workerApply

/-- `Session::changes_between`, in the order of the log. -/
def changesBetween {Payload : Type} (inclusive : Bool) (start stop : EpochId)
    (cdc : List (ChangeEvent Payload)) : List (ChangeEvent Payload) :=
  cdc.filter fun ev =>
    (if inclusive then decide (start ≤ ev.epoch) else decide (start < ev.epoch))
      && decide (ev.epoch ≤ stop)

namespace EpochChannel

variable {Payload : Type}

/-- An empty database, and no party has moved. -/
def init : EpochChannel Payload := ⟨0, [], [], [], ∅, 0, .starting, [], [], none, []⟩

/-- A commit takes the next epoch and logs its changes under it. -/
def commit (changes : List Payload) (s : EpochChannel Payload) : EpochChannel Payload :=
  { s with
      currentEpoch := s.currentEpoch + 1
      cdc := s.cdc ++ changes.map fun p => ⟨s.currentEpoch + 1, p⟩ }

/-- The steps of the three parties. -/
def next (inclusive : Bool) (s : EpochChannel Payload) :
    EpochAction Payload → Option (EpochChannel Payload)
  | .inboundCommit changes =>
    some { s.commit changes with
      inboundEpochs := s.inboundEpochs ++ [s.currentEpoch + 1]
      unrecorded := s.unrecorded ++ [s.currentEpoch + 1] }
  | .inboundInsert epoch =>
    if epoch ∈ s.unrecorded then
      some { s with
        unrecorded := s.unrecorded.erase epoch
        bridgeOriginEpochs := insert epoch s.bridgeOriginEpochs }
    else none
  | .otherCommit changes => some (s.commit changes)
  | .pollerStart =>
    match s.poller with
    | .starting => some { s with lastEpoch := s.currentEpoch, poller := .sleeping }
    | _ => none
  | .pollerWake =>
    match s.poller with
    | .sleeping =>
      -- no new epoch: the cycle ends before the fetch
      if s.currentEpoch ≤ s.lastEpoch then some s
      else some { s with poller := .fetching s.currentEpoch }
    | _ => none
  | .pollerFetch =>
    match s.poller with
    | .fetching current =>
      some { s with
        poller := .filtering current (changesBetween inclusive s.lastEpoch current s.cdc) }
    | _ => none
  | .pollerFetchErr =>
    -- the window stays, so the next cycle fetches it again
    match s.poller with
    | .fetching _ => some { s with poller := .sleeping }
    | _ => none
  | .pollerFilter =>
    match s.poller with
    | .filtering current (ev :: events) =>
      if ev.epoch ∈ s.bridgeOriginEpochs then
        some { s with poller := .filtering current events, handed := s.handed ++ [ev] }
      else some { s with poller := .sending current ev events, handed := s.handed ++ [ev] }
    | _ => none
  | .pollerSend =>
    match s.poller with
    | .sending current ev events =>
      if s.outbound.length < channelCapacity then
        some { s with poller := .filtering current events, outbound := s.outbound ++ [ev] }
      else none
    | _ => none
  | .pollerPrune =>
    match s.poller with
    | .filtering current [] =>
      some { s with
        -- the cut is at the old `last_epoch`, and it saturates at 0
        bridgeOriginEpochs :=
          s.bridgeOriginEpochs.filter fun e => s.lastEpoch - epochRetention < e
        lastEpoch := current
        poller := .sleeping }
    | _ => none
  | .workerCheck =>
    -- the worker checks the set a second time, as it is by then
    match s.worker, s.outbound with
    | none, ev :: outbound =>
      if ev.epoch ∈ s.bridgeOriginEpochs then some { s with outbound }
      else some { s with outbound, worker := some ev }
    | _, _ => none
  | .workerApply =>
    match s.worker with
    | some ev => some { s with worker := none, applied := s.applied ++ [ev] }
    | none => none

end EpochChannel

end GrafeoLoro
