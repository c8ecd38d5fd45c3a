import GrafeoLoro.Bridge.Pipeline
import GrafeoLoro.Bridge.SyncEngine

/-!
# `GrafeoLoro.Bridge.Subscriber`: the handler of Loro commits

The handler that `init_loro_subscriber` (`src/bridge/sync_engine.rs`) registers. It drops the
events of the bridge's own commits, translates any other event, and puts the ops into the inbound
channel with one `try_send` each. It does not wait: on a channel that is full or closed it logs
a warning and returns.

The handler runs while the tasks of the inbound path and other senders go on. So its loop is a
step function over the `Pipeline`, one step for each `try_send`, with the steps of the pipeline
in between.
-/

set_option autoImplicit false

namespace GrafeoLoro

/-- The handler of one event and the inbound path that it sends to. -/
structure Subscriber where
  pipeline : Pipeline LoroOp
  /-- The ops of the event that the loop has not come to. -/
  todo : List LoroOp
  /-- The ops of the event that the inbound channel has accepted. -/
  enqueued : List LoroOp
  inboundEventCount : Nat
  inboundFilteredCount : Nat

/-- One step of the handler, or one of the inbound path and its other senders. -/
inductive SubscriberAction where
  /-- `inbound_tx.try_send` on the next op of the event. -/
  | trySend
  | pipeline (a : PipelineAction LoroOp)

namespace Subscriber

/-- Whether the bridge has made the commit itself. -/
def isBridgeOrigin (origin : String) : Bool :=
  origin = originGrafeoBridge || origin = originLoroBridge

/-- The start of the handler: the origin filter and the translation. -/
def handle (event : DiffEvent) (s : Subscriber) : Subscriber :=
  if isBridgeOrigin event.origin then
    { s with todo := [], enqueued := [], inboundFilteredCount := s.inboundFilteredCount + 1 }
  else { s with todo := translateDiffEvent event, enqueued := [] }

/-- The steps of the handler's loop and of the inbound path. -/
def next (batchSize : Nat) (s : Subscriber) : SubscriberAction → Option Subscriber
  | .trySend =>
    match s.todo with
    | [] => none
    | op :: rest =>
      match s.pipeline.next batchSize (.send op) with
      | some pipeline =>
        some { s with
          pipeline
          todo := rest
          enqueued := s.enqueued ++ [op]
          inboundEventCount := s.inboundEventCount + 1 }
      | none =>
        -- full or closed: the handler returns, and the rest of the event is not sent
        some { s with todo := [] }
  | .pipeline a => (s.pipeline.next batchSize a).map fun pipeline => { s with pipeline }

end Subscriber

end GrafeoLoro
