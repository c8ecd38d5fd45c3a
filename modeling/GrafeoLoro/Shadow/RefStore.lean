import GrafeoLoro.Lib.LinkedStack
import GrafeoLoro.Types.Values

/-!
# `GrafeoLoro.Shadow.RefStore`: the shadow commits and the tips of the peers

The model of `ShadowRefStore` (`src/shadow/mod.rs`). One table holds the commits of all peers under
their hashes, and a peer's ref is the hash of the top of its undo stack.

`digest` is `DefaultHasher` on a salt and the fields of a commit, and the timestamp that `commit`
reads from the clock is an argument. The walk of `reset_to` has no bound, so `fuel` bounds its
rounds, and `none` says that they were not enough.

`UndoStacks` is what the store is for: a stack of commits for each peer.
-/

set_option autoImplicit false

namespace GrafeoLoro

open GrafeoLoro.Lib

/-- A hash of 32 bytes. -/
abbrev CommitId : Type := Vector UInt8 32

/-- `ShadowCommit`. -/
structure ShadowCommit where
  id : CommitId
  parents : List CommitId
  peerId : String
  timestampMs : UInt64
  stateVector : List UInt8
  deriving DecidableEq

/-- `ShadowError`. -/
inductive ShadowError where
  | commitNotFound (commitId : CommitId)
  | notInPeerHistory (commitId : CommitId) (peerId : String)
  deriving DecidableEq

/-- `DefaultHasher` fed with a salt, a peer, the parents, a timestamp and a state vector. -/
abbrev CommitDigest : Type :=
  UInt64 → String → List CommitId → UInt64 → List UInt8 → UInt64

/-- The four salts of `hash_commit`. -/
def commitSalts : Vector UInt64 4 :=
  #v[0x51736861646f7753, 0x6861646f77533147, 0x646f775332476861, 0x6f77533347686164]

/-- `hash_commit`: the lane of each salt in little-endian bytes. -/
def hashCommit (digest : CommitDigest) (peerId : String) (parents : List CommitId)
    (timestampMs : UInt64) (stateVector : List UInt8) : CommitId :=
  Vector.ofFn fun i =>
    let lane := digest (commitSalts.get ⟨i / 8, by omega⟩) peerId parents timestampMs stateVector
    UInt8.ofNat (lane.toNat / 256 ^ (i.val % 8))

/-- The commit object with its hash. -/
def shadowCommit (digest : CommitDigest) (peerId : String) (parents : List CommitId)
    (timestampMs : UInt64) (stateVector : List UInt8) : ShadowCommit :=
  { id := hashCommit digest peerId parents timestampMs stateVector
    parents, peerId, timestampMs, stateVector }

/-- `ShadowRefStore`. -/
structure ShadowRefStore where
  refs : HashMap String CommitId
  commits : HashMap CommitId ShadowCommit

namespace ShadowRefStore

/-- `ShadowRefStore::new`. -/
def new : ShadowRefStore := ⟨∅, ∅⟩

/-- `tip`. -/
def tip (store : ShadowRefStore) (peerId : String) : Option CommitId := store.refs.lookup peerId

/-- The commit that `commit` makes: without parents, the tip of the peer is its parent. -/
def newCommit (digest : CommitDigest) (store : ShadowRefStore) (peerId : String)
    (parents : List CommitId) (timestampMs : UInt64) (stateVector : List UInt8) : ShadowCommit :=
  let parents := if parents.isEmpty then
    match store.refs.lookup peerId with
    | some tip => [tip]
    | none => []
  else parents
  shadowCommit digest peerId parents timestampMs stateVector

/-- `commit`. -/
def commit (digest : CommitDigest) (peerId : String) (parents : List CommitId)
    (timestampMs : UInt64) (stateVector : List UInt8) (store : ShadowRefStore) :
    CommitId × ShadowRefStore :=
  let commit := store.newCommit digest peerId parents timestampMs stateVector
  (commit.id,
    { commits := store.commits.insert commit.id commit
      refs := store.refs.insert peerId commit.id })

/-- The first parent of a commit. -/
def firstParent (commit : ShadowCommit) : Option CommitId := commit.parents.head?

/-- `history`. -/
def history (store : ShadowRefStore) (peerId : String) (limit : Nat) : List ShadowCommit :=
  match store.refs.lookup peerId with
  | some id => walk store.commits.lookup firstParent limit id
  | none => []

/-- `reset_to`: the previous tip. -/
def resetTo (fuel : Nat) (peerId : String) (commitId : CommitId) (store : ShadowRefStore) :
    Option (Except ShadowError CommitId × ShadowRefStore) :=
  let moved : ShadowRefStore := { store with refs := store.refs.insert peerId commitId }
  match store.commits.lookup commitId with
  | none => some (.error (.commitNotFound commitId), store)
  | some _ =>
    match store.refs.lookup peerId with
    | none => some (.ok commitId, moved)
    | some tip =>
      match climb (link store.commits.lookup firstParent) commitId fuel tip with
      | none => none
      | some true => some (.ok tip, moved)
      | some false => some (.error (.notInPeerHistory commitId peerId), store)

/-- `commit_count`. -/
def commitCount (store : ShadowRefStore) : Nat := store.commits.keys.card

end ShadowRefStore

/-- A call that changes a store, with the parents that a commit names. -/
inductive ShadowRefCall where
  | commit (peerId : String) (parents : List CommitId) (timestampMs : UInt64)
      (stateVector : List UInt8)
  | resetTo (fuel : Nat) (peerId : String) (commitId : CommitId)

/-- The store after a call that returns. -/
def ShadowRefStore.call (digest : CommitDigest) (store : ShadowRefStore) :
    ShadowRefCall → Option ShadowRefStore
  | .commit peerId parents timestampMs stateVector =>
    some (store.commit digest peerId parents timestampMs stateVector).2
  | .resetTo fuel peerId commitId => (store.resetTo fuel peerId commitId).map Prod.snd

/-- A call that changes a store, where a commit names no parents. -/
inductive ShadowCall where
  | commit (peerId : String) (timestampMs : UInt64) (stateVector : List UInt8)
  | resetTo (fuel : Nat) (peerId : String) (commitId : CommitId)

/-- The store after a call that returns. -/
def ShadowRefStore.next (digest : CommitDigest) (store : ShadowRefStore) :
    ShadowCall → Option ShadowRefStore
  | .commit peerId timestampMs stateVector =>
    some (store.commit digest peerId [] timestampMs stateVector).2
  | .resetTo fuel peerId commitId => (store.resetTo fuel peerId commitId).map Prod.snd

/-! ### The stacks -/

/-- The undo stack of each peer, the newest commit first. -/
abbrev UndoStacks : Type := String → List ShadowCommit

/-- A commit goes on top of its peer's stack. A reset takes off what is above its target, if the
target is in the peer's stack. -/
def UndoStacks.next (digest : CommitDigest) (undo : UndoStacks) : ShadowCall → UndoStacks
  | .commit peerId timestampMs stateVector =>
    let parents := ((undo peerId).head?.map ShadowCommit.id).toList
    Function.update undo peerId
      (shadowCommit digest peerId parents timestampMs stateVector :: undo peerId)
  | .resetTo _ peerId commitId =>
    if commitId ∈ (undo peerId).map ShadowCommit.id then
      Function.update undo peerId ((undo peerId).dropWhile fun c => c.id != commitId)
    else undo

/-- The stacks after a list of calls. -/
def UndoStacks.after (digest : CommitDigest) (calls : List ShadowCall) : UndoStacks :=
  calls.foldl (UndoStacks.next digest) fun _ => []

end GrafeoLoro
