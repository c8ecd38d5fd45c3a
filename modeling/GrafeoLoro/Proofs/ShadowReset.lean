import GrafeoLoro.Proofs.ShadowStore

/-!
# `GrafeoLoro.Proofs.ShadowReset`: the walk of a reset and the walk of a history

`reset_to` and `history` follow the first parents, each with a loop of its own. `history` stops
after a number of commits. `reset_to` has no bound, so it may run for ever on a cycle. The commits
here have any parents, also parents that the store does not have.

* `resetTo_agrees_history`: without a cycle among the commits, a reset of a peer that has a tip
  returns, and it succeeds exactly on the commits of a history as long as the store.
-/

set_option autoImplicit false

namespace GrafeoLoro.Proofs

open GrafeoLoro GrafeoLoro.Lib ShadowRefStore
open Relation (ReflTransGen)

variable {digest : CommitDigest}

/-- The commit `y` names `x` as a parent. -/
def ParentOf (store : ShadowRefStore) (x y : CommitId) : Prop :=
  ∃ c, store.commits.lookup y = some c ∧ x ∈ c.parents

/-- The hash of a new commit is new, or the commit is there already. -/
def NoCollision (digest : CommitDigest) (store : ShadowRefStore) : ShadowRefCall → Prop
  | .commit peerId parents timestampMs stateVector =>
    let made := store.newCommit digest peerId parents timestampMs stateVector
    ∀ c, store.commits.lookup made.id = some c → c = made
  | .resetTo _ _ _ => True

/-- The commits of the first store are in the second one. -/
def Grows (store after : ShadowRefStore) : Prop :=
  ∀ id c, store.commits.lookup id = some c → after.commits.lookup id = some c

/-- Every commit is under its own id. -/
def UnderOwnId (store : ShadowRefStore) : Prop :=
  ∀ id c, store.commits.lookup id = some c → c.id = id

/-! ### One call -/

section
variable {store after : ShadowRefStore} {a : ShadowRefCall}

/-- A reset leaves the commits as they are. -/
theorem resetTo_commits {fuel : Nat} {peerId : String} {commitId : CommitId}
    {out : Except ShadowError CommitId}
    (h : store.resetTo fuel peerId commitId = some (out, after)) :
    after.commits = store.commits := by
  unfold resetTo at h
  split at h
  · obtain rfl := congrArg Prod.snd (Option.some.inj h)
    rfl
  · split at h
    · obtain rfl := congrArg Prod.snd (Option.some.inj h)
      rfl
    · split at h
      · cases h
      · obtain rfl := congrArg Prod.snd (Option.some.inj h)
        rfl
      · obtain rfl := congrArg Prod.snd (Option.some.inj h)
        rfl

/-- A reset that returns an error leaves the store as it is. -/
theorem resetTo_error {fuel : Nat} {peerId : String} {commitId : CommitId} {e : ShadowError}
    (h : store.resetTo fuel peerId commitId = some (.error e, after)) : after = store := by
  unfold resetTo at h
  split at h
  · exact (congrArg Prod.snd (Option.some.inj h)).symm
  · split at h
    · cases h
    · split at h
      · cases h
      · cases h
      · exact (congrArg Prod.snd (Option.some.inj h)).symm

/-- What a call does to the commits: `commit` writes its commit under its id, and `reset_to` leaves
them as they are. -/
theorem call_commits (hcall : store.call digest a = some after) :
    (∃ peerId parents timestampMs stateVector,
      a = .commit peerId parents timestampMs stateVector ∧
      after.commits = store.commits.insert
        (store.newCommit digest peerId parents timestampMs stateVector).id
        (store.newCommit digest peerId parents timestampMs stateVector)) ∨
    after.commits = store.commits := by
  cases a with
  | commit peerId parents timestampMs stateVector =>
    obtain rfl := Option.some.inj hcall
    exact .inl ⟨peerId, parents, timestampMs, stateVector, rfl, rfl⟩
  | resetTo fuel peerId commitId =>
    obtain ⟨⟨out, after⟩, hreset, rfl⟩ := Option.map_eq_some_iff.mp hcall
    exact .inr (resetTo_commits hreset)

/-- A call that collides with no commit keeps all of them. -/
theorem call_grows (hcall : store.call digest a = some after)
    (hfree : NoCollision digest store a) : Grows store after := by
  intro id c hc
  rcases call_commits hcall with ⟨peerId, parents, timestampMs, stateVector, rfl, heq⟩ | heq
  · rw [heq, finmap_lookup_insert]
    split
    · rename_i hid
      rw [hfree c (hid ▸ hc)]
    · exact hc
  · rw [heq]
    exact hc

/-- A call keeps the commits under their own ids. -/
theorem UnderOwnId.call (hown : UnderOwnId store) (hcall : store.call digest a = some after) :
    UnderOwnId after := by
  intro id c hc
  rcases call_commits hcall with ⟨peerId, parents, timestampMs, stateVector, -, heq⟩ | heq
  · rw [heq, finmap_lookup_insert] at hc
    split at hc
    · rename_i hid
      rw [← Option.some.inj hc, hid]
    · exact hown id c hc
  · rw [heq] at hc
    exact hown id c hc

end

/-! ### Runs -/

section
variable {h : List (ShadowRefStore × ShadowRefCall)} {t : ShadowRefStore}

/-- In every run the commits are under their own ids. -/
theorem underOwnId_run (hrun : Exec (ShadowRefStore.call digest) .new h t) : UnderOwnId t := by
  refine hrun.invariant (fun _ _ _ hcall hown => hown.call hcall) fun id c hc => ?_
  cases hc

/-- A run without collisions keeps the commits of all its stores. -/
theorem grows_run (hrun : Exec (ShadowRefStore.call digest) .new h t)
    (hfree : Steps (NoCollision digest) h) : ∀ p ∈ h, Grows p.1 t := by
  induction hrun with
  | nil => exact fun p hp => absurd hp List.not_mem_nil
  | @snoc h t u a prev hcall ih =>
    obtain ⟨hbefore, hlast⟩ := steps_snoc.mp hfree
    have hgrows := call_grows hcall hlast
    intro p hp
    rcases List.mem_append.mp hp with hp | hp
    · exact fun id c hc => hgrows id c (ih hbefore p hp id c hc)
    · rw [List.mem_singleton.mp hp]
      exact hgrows

end

/-! ### The two walks -/

section
variable {store : ShadowRefStore}

/-- The first parent is a parent. -/
theorem acyclic_firstParent (hacyclic : Acyclic (ParentOf store)) :
    Acyclic (Above (link store.commits.lookup firstParent)) := by
  refine hacyclic.mono fun x y habove => ?_
  obtain ⟨c, hc, hfirst⟩ := Option.bind_eq_some_iff.mp habove
  exact ⟨c, hc, List.mem_of_head? hfirst⟩

/-- Only the commits of the store have a first parent. -/
theorem firstParents_finite (store : ShadowRefStore) :
    {x | link store.commits.lookup firstParent x ≠ none}.Finite := by
  refine store.commits.keys.finite_toSet.subset fun x hx => ?_
  obtain ⟨p, hp⟩ := Option.ne_none_iff_exists'.mp hx
  obtain ⟨c, hc, -⟩ := Option.bind_eq_some_iff.mp hp
  exact Finmap.mem_keys.mpr (Finmap.mem_of_lookup_eq_some hc)

/-- A history as long as the store has the commits that the first parents lead to. -/
theorem mem_history_iff (hown : UnderOwnId store) (hacyclic : Acyclic (ParentOf store))
    {peerId : String} {top commitId : CommitId} (htop : store.refs.lookup peerId = some top) :
    commitId ∈ (store.history peerId store.commitCount).map ShadowCommit.id ↔
      store.commits.lookup commitId ≠ none ∧
        ReflTransGen (Above (link store.commits.lookup firstParent)) commitId top := by
  have hdomain : ∀ k, store.commits.lookup k ≠ none → k ∈ store.commits.keys := by
    intro k hk
    rw [Finmap.mem_keys, ← Finmap.lookup_isSome]
    exact Option.isSome_iff_ne_none.mpr hk
  rw [history, htop]
  exact mem_walk_iff hown (acyclic_firstParent hacyclic) hdomain (Nat.le_refl _)

/-- A reset of a peer that has a tip returns, and it succeeds on the commits that the first parents
lead to. -/
theorem resetTo_settles (hacyclic : Acyclic (ParentOf store)) {peerId : String} {top : CommitId}
    (commitId : CommitId) (htop : store.refs.lookup peerId = some top) :
    ∃ out, Settles (fun fuel => store.resetTo fuel peerId commitId) out ∧
      (store.commits.lookup commitId ≠ none ∧
          ReflTransGen (Above (link store.commits.lookup firstParent)) commitId top →
        out = (.ok top, { store with refs := store.refs.insert peerId commitId })) ∧
      (¬ (store.commits.lookup commitId ≠ none ∧
          ReflTransGen (Above (link store.commits.lookup firstParent)) commitId top) →
        ∃ e, out = (.error e, store)) := by
  cases hlookup : store.commits.lookup commitId with
  | none =>
    refine ⟨(.error (.commitNotFound commitId), store), ⟨0, fun more _ => ?_⟩,
      fun hfound => absurd rfl hfound.1, fun _ => ⟨_, rfl⟩⟩
    simp only [resetTo, hlookup]
  | some c =>
    obtain ⟨fuel, found, hfuel, hfound⟩ := climb_returns_of_acyclic (firstParents_finite store)
      (acyclic_firstParent hacyclic) commitId top
    cases found with
    | true =>
      refine ⟨(.ok top, { store with refs := store.refs.insert peerId commitId }),
        ⟨fuel, fun more hmore => ?_⟩, fun _ => rfl, fun hnot => ?_⟩
      · simp only [resetTo, hlookup, htop, hfuel more hmore]
      · exact absurd ⟨Option.some_ne_none c, hfound.mp rfl⟩ hnot
    | false =>
      refine ⟨(.error (.notInPeerHistory commitId peerId), store),
        ⟨fuel, fun more hmore => ?_⟩, fun hpath => ?_, fun _ => ⟨_, rfl⟩⟩
      · simp only [resetTo, hlookup, htop, hfuel more hmore]
      · cases hfound.mpr hpath.2

end

/-- In every run of commits and resets without a hash collision, to a store in which no commit is
among its own ancestors: a reset of a peer that has a tip returns. If the commit is in the history
of the peer, it moves the tip there and returns the old tip. If not, it returns an error. An error
leaves the store as it is, and no call takes a commit away. -/
theorem resetTo_agrees_history {h : List (ShadowRefStore × ShadowRefCall)} {t : ShadowRefStore}
    (hrun : Exec (ShadowRefStore.call digest) .new h t) (hfree : Steps (NoCollision digest) h)
    (hacyclic : Acyclic (ParentOf t)) :
    (∀ peerId top commitId, t.tip peerId = some top →
      ∃ out, Settles (fun fuel => t.resetTo fuel peerId commitId) out ∧
        (commitId ∈ (t.history peerId t.commitCount).map ShadowCommit.id →
          out = (.ok top, { t with refs := t.refs.insert peerId commitId })) ∧
        (commitId ∉ (t.history peerId t.commitCount).map ShadowCommit.id →
          ∃ e, out = (.error e, t))) ∧
    (∀ fuel peerId commitId e after,
      t.resetTo fuel peerId commitId = some (.error e, after) → after = t) ∧
    ∀ p ∈ h, ∀ id c, p.1.commits.lookup id = some c → t.commits.lookup id = some c := by
  refine ⟨?agree, fun _ _ _ _ _ hreset => resetTo_error hreset, grows_run hrun hfree⟩
  case agree =>
    intro peerId top commitId htop
    rw [mem_history_iff (underOwnId_run hrun) hacyclic htop]
    exact resetTo_settles hacyclic commitId htop

/-- The id of a commit under `clockDigest`. -/
def clockId (timestampMs : UInt64) : CommitId := hashCommit clockDigest "" [] timestampMs []

/-- A merge with a parent that the store does not have, and a reset to its first parent. The merge
is then in the store, but not in the history of the peer. -/
theorem resetTo_agrees_history_merge : ∃ h t fuel e,
    Exec (ShadowRefStore.call clockDigest) .new h t ∧
    h.map Prod.snd = [.commit "a" [] 1 [10], .commit "a" [clockId 1, clockId 0] 2 [11],
      .resetTo 2 "a" (clockId 1)] ∧
    t.resetTo fuel "a" (clockId 2) = some (.error e, t) ∧
    t.commits.lookup (clockId 2) ≠ none := by
  let s1 : ShadowRefStore := (ShadowRefStore.new.commit clockDigest "a" [] 1 [10]).2
  let s2 : ShadowRefStore := (s1.commit clockDigest "a" [clockId 1, clockId 0] 2 [11]).2
  let s3 : ShadowRefStore := { s2 with refs := s2.refs.insert "a" (clockId 1) }
  have hreset : s2.call clockDigest (.resetTo 2 "a" (clockId 1)) = some s3 := by
    have hclimb : climb (link s2.commits.lookup firstParent) (clockId 1) 2 (clockId 2)
        = some true := by decide +kernel
    have hthere : (s2.commits.lookup (clockId 1)).isSome := by decide +kernel
    have htop : s2.refs.lookup "a" = some (clockId 2) := by decide +kernel
    obtain ⟨c, hc⟩ := Option.isSome_iff_exists.mp hthere
    simp only [ShadowRefStore.call, resetTo, hc, htop, hclimb]
    rfl
  have hrun : Exec (ShadowRefStore.call clockDigest) .new
      [(.new, .commit "a" [] 1 [10]), (s1, .commit "a" [clockId 1, clockId 0] 2 [11]),
        (s2, .resetTo 2 "a" (clockId 1))] s3 :=
    ((Exec.nil.snoc rfl).snoc rfl).snoc hreset
  have hfree : Steps (NoCollision clockDigest)
      [(.new, .commit "a" [] 1 [10]), (s1, .commit "a" [clockId 1, clockId 0] 2 [11]),
        (s2, .resetTo 2 "a" (clockId 1))] := by
    -- the id of the merge is not in the table yet
    have hfresh : s1.commits.lookup (clockId 2) = none := by decide +kernel
    intro step hstep
    simp only [List.mem_cons, List.not_mem_nil, or_false] at hstep
    rcases hstep with rfl | rfl | rfl
    · intro c hc
      cases hc
    · intro c hc
      cases hfresh.symm.trans hc
    · trivial
  have hacyclic : Acyclic (ParentOf s3) := by
    have hkeys : s3.commits.keys = {clockId 1, clockId 2} := by decide +kernel
    have hfirst : (s3.commits.lookup (clockId 1)).map ShadowCommit.parents = some [] := by
      decide +kernel
    have hmerge : (s3.commits.lookup (clockId 2)).map ShadowCommit.parents
        = some [clockId 1, clockId 0] := by decide +kernel
    have holder : ∀ x ∈ [clockId 1, clockId 0], x.get 0 < (clockId 2).get 0 := by decide +kernel
    -- the first byte of an id is its timestamp, and the parents are older
    refine .of_rank (fun id => (id.get 0).toNat) fun x y hparent => ?_
    obtain ⟨c, hc, hx⟩ := hparent
    have hy : y ∈ s3.commits.keys := Finmap.mem_keys.mpr (Finmap.mem_of_lookup_eq_some hc)
    rw [hkeys, Finset.mem_insert, Finset.mem_singleton] at hy
    rcases hy with rfl | rfl
    · rw [hc] at hfirst
      rw [Option.some.inj hfirst] at hx
      cases hx
    · rw [hc] at hmerge
      rw [Option.some.inj hmerge] at hx
      exact UInt8.lt_iff_toNat_lt.mp (holder x hx)
  have hin : s3.commits.lookup (clockId 2) ≠ none := by decide +kernel
  have hout : clockId 2 ∉ (s3.history "a" s3.commitCount).map ShadowCommit.id := by decide +kernel
  obtain ⟨out, ⟨fuel, hfuel⟩, -, herror⟩ :=
    (resetTo_agrees_history hrun hfree hacyclic).1 "a" (clockId 1) (clockId 2) rfl
  obtain ⟨e, rfl⟩ := herror hout
  exact ⟨_, s3, fuel, e, hrun, rfl, hfuel fuel (Nat.le_refl fuel), hin⟩

end GrafeoLoro.Proofs
