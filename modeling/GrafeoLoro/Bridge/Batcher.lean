import GrafeoLoro.Bridge.GrafeoTx

/-!
# `GrafeoLoro.Bridge.Batcher`: one batch in one Grafeo transaction

The blocking closure of `MutationBatcher::flush_inner` (`src/bridge/batcher.rs`): begin, the
ops of the batch in order, prepare, commit. The chunks of `src/hydration` have the same
shape, with a vertex to read before each op, so the loop takes the reading as an argument.

The closure returns at the first error. The session is dropped then, and Grafeo undoes its
writes (`Store.rollback`). The id maps are shared state that the transaction does not own, and
no code resets them.
-/

set_option autoImplicit false

namespace GrafeoLoro

section
variable (fault : Nat → Bool)

/-- `Session::begin_transaction`. -/
def beginTransaction (s : Store) : SessionResult Unit := call fault s () id

/-- The loop of a transaction: make the op of an item and apply it. The first error ends the
loop. -/
def applyEach {α : Type} (toOp : α → Except GrafeoLoroError LoroOp) :
    List α → Bridge → BridgeResult
  | [], b => (.ok (), b)
  | item :: rest, b =>
    match toOp item with
    | .error e => (.error e, b)
    | .ok op =>
      match applyLoroOp fault op b with
      | (.ok _, b') => applyEach toOp rest b'
      | (.error e, b') => (.error e, b')

/-- The bridge after the session that started at `before` was dropped at `after`. -/
def dropSession (before : Store) (after : Bridge) : Bridge :=
  { after with store := Store.rollback before after.store }

/-- One transaction around a loop. -/
def inTransaction (body : Bridge → BridgeResult) (b : Bridge) : BridgeResult :=
  match beginTransaction fault b.store with
  | (.error e, store) => (.error e, { b with store })
  | (.ok _, store) =>
    match body { b with store } with
    | (.error e, after) => (.error e, dropSession b.store after)
    | (.ok _, after) =>
      match prepareCommit fault after.store with
      | (.error e, store) => (.error e, dropSession b.store { after with store })
      | (.ok _, store) =>
        match commit fault store with
        | (.error e, store) => (.error e, dropSession b.store { after with store })
        | (.ok _, store) => (.ok (), { after with store })

/-- The blocking closure of `flush_inner`. -/
def flushInner (ops : List LoroOp) (b : Bridge) : BridgeResult :=
  inTransaction fault (applyEach fault .ok ops) b

end

end GrafeoLoro
