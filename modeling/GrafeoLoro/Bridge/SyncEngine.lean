import GrafeoLoro.Constants
import GrafeoLoro.Types.Events

/-!
# `GrafeoLoro.Bridge.SyncEngine`: from Loro events to ops

`translate_diff_event` of `src/bridge/sync_engine.rs`. It walks the container diffs of one
commit and turns the changed entries of the root maps `V` and `E` into ops. An entry that it
cannot translate is logged and skipped.
-/

set_option autoImplicit false

namespace GrafeoLoro

/-- `loro::event::Diff`. Only map diffs are translated. -/
inductive Diff where
  /-- The changed keys, each with its new value or `none` for a deletion. -/
  | map (updated : Table String (Option ValueOrContainer))
  | other

/-- `loro::event::ContainerDiff`. -/
structure ContainerDiff where
  target : ContainerID
  diff : Diff

/-- `loro::event::DiffEvent`: the origin and the diffs of one commit. -/
structure DiffEvent where
  origin : String
  events : List ContainerDiff

/-- The part before the first `sep` and the part after it. `none` means no `sep`. -/
def splitFirst (sep : Char) : List Char → List Char × Option (List Char)
  | [] => ([], none)
  | c :: rest =>
    if c = sep then ([], some rest)
    else (c :: (splitFirst sep rest).1, (splitFirst sep rest).2)

/-- `parse_edge_key`: `splitn(3, '|')`, and the third part must not be empty. -/
def parseEdgeKey (s : String) : Option EdgeKey :=
  match splitFirst '|' s.toList with
  | (src, some rest) =>
    match splitFirst '|' rest with
    | (dst, some label) =>
      if label = [] then none
      else some (String.ofList src, String.ofList dst, String.ofList label)
    | (_, none) => none
  | (_, none) => none

/-- `encode_edge_key`. -/
def encodeEdgeKey (key : EdgeKey) : String := key.1 ++ "|" ++ key.2.1 ++ "|" ++ key.2.2

/-- The loop over the entries of a vertex or edge map, into the properties so far. The first
value without a graph value ends it with `none`. -/
def translateProperties :
    List (String × LoroValue) → Table String GraphValue → Option (Table String GraphValue)
  | [], props => some props
  | (k, v) :: rest, props =>
    match lvalToGval v with
    | .ok gv => translateProperties rest (props.insert k gv)
    | .error _ => none

/-- The op for one changed entry of the root map `V`. -/
def translateVertex (key : String) : Option ValueOrContainer → Option LoroOp
  | some (.value (.map m)) => (translateProperties m ∅).map fun props => .upsertNode key [] props
  | some (.value _) => none
  | none => some (.deleteNode key)
  | some (.container _) => none

/-- The op for one changed entry of the root map `E`. -/
def translateEdge (key : String) (val : Option ValueOrContainer) : Option LoroOp :=
  match parseEdgeKey key with
  | none => none
  | some (srcKey, dstKey, label) =>
    match val with
    | some (.value (.map m)) =>
      (translateProperties m ∅).map fun props => .upsertEdge srcKey dstKey label props
    | none => some (.deleteEdge srcKey dstKey label)
    | some _ => none

/-- The ops for one container diff. The name of the root container decides, not its type. -/
def translateContainerDiff (cd : ContainerDiff) : List LoroOp :=
  match cd.target, cd.diff with
  | .root name _, .map updated =>
    if name = rootVertices then updated.entries.filterMap fun e => translateVertex e.1 e.2
    else if name = rootEdges then updated.entries.filterMap fun e => translateEdge e.1 e.2
    else []
  | _, _ => []

/-- `translate_diff_event`. -/
def translateDiffEvent (event : DiffEvent) : List LoroOp :=
  event.events.flatMap translateContainerDiff

/-- The event of a commit that changed one entry of the root map `V`. -/
def vertexEvent (origin key : String) (updated : Option ValueOrContainer) : DiffEvent :=
  ⟨origin, [⟨.root rootVertices .map, .map (AList.singleton key updated)⟩]⟩

/-- Such an event has at most one op. -/
theorem translateDiffEvent_vertexEvent (origin key : String)
    (updated : Option ValueOrContainer) :
    translateDiffEvent (vertexEvent origin key updated)
      = (translateVertex key updated).toList := by
  let entry : Σ _ : String, Option ValueOrContainer := ⟨key, updated⟩
  show [entry].filterMap (fun e => translateVertex e.1 e.2) ++ [] = _
  rw [List.append_nil, List.filterMap_cons]
  cases translateVertex key updated <;> rfl

/-- The label takes the separators that are left, and must not be empty. -/
example : parseEdgeKey "a|b|x|y" = some ("a", "b", "x|y") ∧ parseEdgeKey "a|b|" = none := by
  decide

end GrafeoLoro
