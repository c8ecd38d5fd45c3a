import GrafeoLoro.Lib.Exec
import GrafeoLoro.Lib.Maps
import GrafeoLoro.Shadow.RefStore

/-!
# `GrafeoLoro.Proofs.ShadowStore`: the undo stacks in the shared commit table

`Represents store undo` says that the store holds the stack of each peer: the ref is the hash of the
top, and the parents link the commits. A commit adds a record to the table, so it keeps the stacks
of the other peers, unless its hash is that of another commit. `CollisionFree` excludes that.

* `shadowStore_represents`: in every run of commits and of resets by peers that have a tip, the
  store represents the stacks after the calls.
* `undoStacks_isolated`: in every run of commits, a history is the peer's own commits, the newest
  first, and a reset to the tip before the last commit touches no other peer.
-/

set_option autoImplicit false

namespace GrafeoLoro.Proofs

open GrafeoLoro GrafeoLoro.Lib ShadowRefStore
open Relation (ReflTransGen)

variable {digest : CommitDigest}

/-- The commits are a stack in the table. -/
abbrev CommitStack (commits : HashMap CommitId ShadowCommit) : List ShadowCommit → Prop :=
  Stacked commits.lookup ShadowCommit.id firstParent

/-- The store holds the stack of every peer. -/
structure Represents (store : ShadowRefStore) (undo : UndoStacks) : Prop where
  tips : ∀ p, store.refs.lookup p = (undo p).head?.map ShadowCommit.id
  linked : ∀ p, CommitStack store.commits (undo p)
  nodup : ∀ p, ((undo p).map ShadowCommit.id).Nodup
  own : ∀ p, ∀ c ∈ undo p, c.peerId = p

/-- The hash of a new commit is new, or the commit is there already. -/
def CollisionFree (digest : CommitDigest) (store : ShadowRefStore) : ShadowCall → Prop
  | .commit peerId timestampMs stateVector =>
    let made := store.newCommit digest peerId [] timestampMs stateVector
    ∀ c, store.commits.lookup made.id = some c → c = made
  | .resetTo _ _ _ => True

/-- Only a peer that has a tip is reset. -/
def ResetsOwnTip (store : ShadowRefStore) : ShadowCall → Prop
  | .commit _ _ _ => True
  | .resetTo _ peerId _ => store.refs.lookup peerId ≠ none

/-! ### What a store that represents the stacks returns -/

section
variable {store : ShadowRefStore} {undo : UndoStacks} {peerId : String}

/-- A history is the top of the stack. -/
theorem Represents.history_eq (h : Represents store undo) (limit : Nat) :
    store.history peerId limit = (undo peerId).take limit := by
  unfold history
  cases htip : store.refs.lookup peerId with
  | none =>
    have hempty : undo peerId = [] := by simpa [htip] using (h.tips peerId).symm
    simp [hempty]
  | some top => exact walk_stacked (h.linked peerId) ((h.tips peerId).symm.trans htip) limit

/-- The commit that a peer makes is the one that goes on its stack. -/
theorem Represents.newCommit_eq (h : Represents store undo) (timestampMs : UInt64)
    (stateVector : List UInt8) :
    store.newCommit digest peerId [] timestampMs stateVector
      = shadowCommit digest peerId ((undo peerId).head?.map ShadowCommit.id).toList timestampMs
          stateVector := by
  unfold newCommit
  rw [h.tips peerId]
  cases (undo peerId).head?.map ShadowCommit.id with
  | none => rfl
  | some top => rfl

/-- A reset to a commit of the own stack succeeds, with fuel enough. -/
theorem Represents.resetTo_own (h : Represents store undo) {top commitId : CommitId}
    (htop : store.refs.lookup peerId = some top)
    (hmem : commitId ∈ (undo peerId).map ShadowCommit.id) :
    ∃ fuel, ∀ more, fuel ≤ more → store.resetTo more peerId commitId
      = some (.ok top, { store with refs := store.refs.insert peerId commitId }) := by
  have hhead := (h.tips peerId).symm.trans htop
  obtain ⟨fuel, hfuel⟩ := climb_true_of_above ((above_iff_mem (h.linked peerId) hhead).mpr hmem)
  obtain ⟨c, hc, rfl⟩ := List.mem_map.mp hmem
  refine ⟨fuel, fun more hmore => ?_⟩
  simp [resetTo, (h.linked peerId).get_eq hc, htop, hfuel more hmore]

/-- A reset of a peer that has a tip moves the ref to a commit of the own stack, or it fails and
changes nothing. -/
theorem Represents.resetTo_cases (h : Represents store undo) {fuel : Nat} {commitId : CommitId}
    {out : Except ShadowError CommitId} {after : ShadowRefStore}
    (htip : store.refs.lookup peerId ≠ none)
    (hreset : store.resetTo fuel peerId commitId = some (out, after)) :
    (commitId ∈ (undo peerId).map ShadowCommit.id ∧
      after = { store with refs := store.refs.insert peerId commitId }) ∨
    (commitId ∉ (undo peerId).map ShadowCommit.id ∧ after = store) := by
  obtain ⟨top, htop⟩ := Option.ne_none_iff_exists'.mp htip
  have hhead := (h.tips peerId).symm.trans htop
  have habove : ReflTransGen (Above (link store.commits.lookup firstParent)) commitId top ↔
      commitId ∈ (undo peerId).map ShadowCommit.id :=
    above_iff_mem (h.linked peerId) hhead
  cases hlookup : store.commits.lookup commitId with
  | none =>
    simp only [resetTo, hlookup, Option.some.injEq, Prod.mk.injEq] at hreset
    refine .inr ⟨fun hmem => ?_, hreset.2.symm⟩
    obtain ⟨c, hc, rfl⟩ := List.mem_map.mp hmem
    rw [(h.linked peerId).get_eq hc] at hlookup
    cases hlookup
  | some c =>
    cases hclimb : climb (link store.commits.lookup firstParent) commitId fuel top with
    | none => simp [resetTo, hlookup, htop, hclimb] at hreset
    | some found =>
      cases found with
      | true =>
        refine .inl ⟨habove.mp (climb_eq_true hclimb), ?_⟩
        simp only [resetTo, hlookup, htop, hclimb, Option.some.injEq, Prod.mk.injEq] at hreset
        exact hreset.2.symm
      | false =>
        refine .inr ⟨fun hmem => (climb_eq_false hclimb).1 (habove.mpr hmem), ?_⟩
        simp only [resetTo, hlookup, htop, hclimb, Option.some.injEq, Prod.mk.injEq] at hreset
        exact hreset.2.symm

end

/-! ### The calls -/

section
variable {store : ShadowRefStore} {undo : UndoStacks}

/-- The ref of one peer changes, and its stack is one of own commits with the ref on top. -/
theorem Represents.update (h : Represents store undo) {after : ShadowRefStore} {peerId : String}
    {stack : List ShadowCommit} {top : CommitId}
    (hcommits : ∀ id c, store.commits.lookup id = some c → after.commits.lookup id = some c)
    (hrefs : after.refs = store.refs.insert peerId top)
    (htop : stack.head?.map ShadowCommit.id = some top)
    (hlinked : CommitStack after.commits stack) (hnodup : (stack.map ShadowCommit.id).Nodup)
    (hown : ∀ c ∈ stack, c.peerId = peerId) :
    Represents after (Function.update undo peerId stack) := by
  constructor
  case tips =>
    intro p
    rw [hrefs, finmap_lookup_insert]
    by_cases hp : p = peerId
    · subst hp
      simp [htop]
    · simp [hp, h.tips p]
  case linked =>
    intro p
    by_cases hp : p = peerId
    · subst hp
      simpa using hlinked
    · rw [Function.update_of_ne hp]
      exact (h.linked p).mono fun c _ hc => hcommits _ _ hc
  case nodup =>
    intro p
    by_cases hp : p = peerId
    · subst hp
      simpa using hnodup
    · rw [Function.update_of_ne hp]
      exact h.nodup p
  case own =>
    intro p
    by_cases hp : p = peerId
    · subst hp
      simpa using hown
    · rw [Function.update_of_ne hp]
      exact h.own p

/-- A commit that collides with no other keeps the stacks. -/
theorem Represents.commit (h : Represents store undo) {peerId : String} {timestampMs : UInt64}
    {stateVector : List UInt8}
    (hfree : CollisionFree digest store (.commit peerId timestampMs stateVector)) :
    Represents (store.commit digest peerId [] timestampMs stateVector).2
      (undo.next digest (.commit peerId timestampMs stateVector)) := by
  let made := store.newCommit digest peerId [] timestampMs stateVector
  have hmade : made = shadowCommit digest peerId
      ((undo peerId).head?.map ShadowCommit.id).toList timestampMs stateVector :=
    h.newCommit_eq timestampMs stateVector
  have hup : firstParent made = (undo peerId).head?.map ShadowCommit.id := by
    rw [hmade]
    cases (undo peerId).head? with
    | none => rfl
    | some c => rfl
  -- the commits that are there stay as they are
  have hkeeps : ∀ id c, store.commits.lookup id = some c →
      (store.commits.insert made.id made).lookup id = some c := by
    intro id c hc
    rw [finmap_lookup_insert]
    split
    · rename_i hid
      rw [hfree c (hid ▸ hc)]
    · exact hc
  have hlinked : CommitStack (store.commits.insert made.id made) (made :: undo peerId) := by
    refine ⟨?_, hup, (h.linked peerId).mono fun c _ hc => hkeeps _ _ hc⟩
    simp
  -- the new commit is not in the stack that it goes on
  have hfresh : made.id ∉ (undo peerId).map ShadowCommit.id := by
    intro hmem
    obtain ⟨c, hc, hid⟩ := List.mem_map.mp hmem
    have hsame : c = made := hfree c (hid ▸ (h.linked peerId).get_eq hc)
    exact not_mem_of_up_head (h.linked peerId) (h.nodup peerId) hup (hsame ▸ hc)
  have hown : ∀ c ∈ made :: undo peerId, c.peerId = peerId := by
    intro c hc
    rcases List.mem_cons.mp hc with rfl | hc
    · rw [hmade]
      rfl
    · exact h.own peerId c hc
  have hnext : undo.next digest (.commit peerId timestampMs stateVector)
      = Function.update undo peerId (made :: undo peerId) := by
    rw [hmade]
    rfl
  rw [hnext]
  exact h.update hkeeps rfl rfl hlinked (List.nodup_cons.mpr ⟨hfresh, h.nodup peerId⟩) hown

/-- What is left of a stack after the commits above a target. -/
theorem dropWhile_id {stack : List ShadowCommit} {commitId : CommitId}
    (hmem : commitId ∈ stack.map ShadowCommit.id) :
    ∃ above, stack = above ++ stack.dropWhile (fun c => c.id != commitId) ∧
      (stack.dropWhile fun c => c.id != commitId).head?.map ShadowCommit.id = some commitId := by
  induction stack with
  | nil => cases hmem
  | cons c rest ih =>
    by_cases hc : c.id = commitId
    · refine ⟨[], ?_, ?_⟩
      · simp [hc]
      · simp [hc]
    · have hrest : commitId ∈ rest.map ShadowCommit.id := by
        simpa [Ne.symm hc] using hmem
      obtain ⟨above, hsplit, htop⟩ := ih hrest
      rw [List.dropWhile_cons_of_pos (by simpa using hc)]
      exact ⟨c :: above, congrArg (c :: ·) hsplit, htop⟩

/-- A reset of a peer that has a tip keeps the stacks. -/
theorem Represents.resetTo (digest : CommitDigest) (h : Represents store undo) {fuel : Nat}
    {peerId : String} {commitId : CommitId} {out : Except ShadowError CommitId}
    {after : ShadowRefStore}
    (htip : store.refs.lookup peerId ≠ none)
    (hreset : store.resetTo fuel peerId commitId = some (out, after)) :
    Represents after (undo.next digest (.resetTo fuel peerId commitId)) := by
  rcases h.resetTo_cases htip hreset with ⟨hmem, rfl⟩ | ⟨hmem, rfl⟩
  · obtain ⟨above, hsplit, htop⟩ := dropWhile_id hmem
    have hlinked := h.linked peerId
    have hnodup := h.nodup peerId
    have hown := h.own peerId
    rw [hsplit] at hlinked hnodup hown
    rw [List.map_append] at hnodup
    simp only [UndoStacks.next, if_pos hmem]
    exact h.update (fun _ _ hc => hc) rfl htop hlinked.below (List.nodup_append.mp hnodup).2.1
      fun c hc => hown c (List.mem_append_right _ hc)
  · simp only [UndoStacks.next, if_neg hmem]
    exact h

end

theorem after_snoc (calls : List ShadowCall) (a : ShadowCall) :
    UndoStacks.after digest (calls ++ [a]) = (UndoStacks.after digest calls).next digest a := by
  simp [UndoStacks.after]

/-- In every run of commits and of resets by peers that have a tip, the store represents the
stacks after the calls. -/
theorem shadowStore_represents {h : List (ShadowRefStore × ShadowCall)} {t : ShadowRefStore}
    (hrun : Exec (ShadowRefStore.next digest) .new h t) (hfree : Steps (CollisionFree digest) h)
    (hown : Steps ResetsOwnTip h) : Represents t (UndoStacks.after digest (h.map Prod.snd)) := by
  induction hrun with
  | nil =>
    constructor
    case tips => exact fun _ => rfl
    case linked => exact fun _ => trivial
    case nodup => exact fun _ => List.nodup_nil
    case own => exact fun _ _ hc => absurd hc List.not_mem_nil
  | @snoc h t u a prev hstep ih =>
    obtain ⟨hfree, hlastFree⟩ := steps_snoc.mp hfree
    obtain ⟨hown, hlastOwn⟩ := steps_snoc.mp hown
    have hrep := ih hfree hown
    rw [List.map_append, List.map_singleton, after_snoc]
    cases a with
    | commit peerId timestampMs stateVector =>
      obtain rfl := Option.some.inj hstep
      exact hrep.commit hlastFree
    | resetTo fuel peerId commitId =>
      obtain ⟨⟨out, after⟩, hreset, rfl⟩ := Option.map_eq_some_iff.mp hstep
      exact hrep.resetTo digest hlastOwn hreset

/-! ### Runs of commits -/

/-- The call is a commit. -/
def IsCommit (_ : ShadowRefStore) : ShadowCall → Prop
  | .commit _ _ _ => True
  | .resetTo _ _ _ => False

theorem resetsOwnTip_of_commits {h : List (ShadowRefStore × ShadowCall)}
    (hcommits : Steps IsCommit h) : Steps ResetsOwnTip h := by
  intro step hmem
  have hcommit := hcommits step hmem
  cases hcall : step.2 with
  | commit peerId timestampMs stateVector => trivial
  | resetTo fuel peerId commitId =>
    rw [hcall] at hcommit
    exact absurd hcommit id

/-- The commits that the calls of a peer made, in order. -/
def madeBy (digest : CommitDigest) (p : String) (h : List (ShadowRefStore × ShadowCall)) :
    List ShadowCommit :=
  h.filterMap fun step =>
    match step.2 with
    | .commit peerId timestampMs stateVector =>
      if peerId = p then some (step.1.newCommit digest peerId [] timestampMs stateVector) else none
    | .resetTo _ _ _ => none

/-- The state vectors that a peer committed, in order. -/
def stateVectorsOf (p : String) (calls : List ShadowCall) : List (List UInt8) :=
  calls.filterMap fun call =>
    match call with
    | .commit peerId _ stateVector => if peerId = p then some stateVector else none
    | .resetTo _ _ _ => none

/-- The commits of a peer carry the state vectors of its calls. -/
theorem madeBy_stateVector (p : String) (h : List (ShadowRefStore × ShadowCall)) :
    (madeBy digest p h).map ShadowCommit.stateVector = stateVectorsOf p (h.map Prod.snd) := by
  induction h with
  | nil => rfl
  | cons step rest ih =>
    obtain ⟨s, a⟩ := step
    cases a with
    | resetTo fuel peerId commitId => simpa [madeBy, stateVectorsOf] using ih
    | commit peerId timestampMs stateVector =>
      by_cases hp : peerId = p
      · simpa [madeBy, stateVectorsOf, hp, newCommit, shadowCommit] using ih
      · simpa [madeBy, stateVectorsOf, hp] using ih

/-- A run of commits leaves each peer the stack of its own commits. -/
theorem undoStacks_eq_madeBy {h : List (ShadowRefStore × ShadowCall)} {t : ShadowRefStore}
    (hrun : Exec (ShadowRefStore.next digest) .new h t) (hcommits : Steps IsCommit h)
    (hfree : Steps (CollisionFree digest) h) (p : String) :
    UndoStacks.after digest (h.map Prod.snd) p = (madeBy digest p h).reverse := by
  induction hrun with
  | nil => rfl
  | @snoc h t u a prev hstep ih =>
    obtain ⟨hprevFree, -⟩ := steps_snoc.mp hfree
    obtain ⟨hprevCommits, hlast⟩ := steps_snoc.mp hcommits
    have hrep := shadowStore_represents prev hprevFree (resetsOwnTip_of_commits hprevCommits)
    rw [List.map_append, List.map_singleton, after_snoc]
    cases a with
    | resetTo fuel peerId commitId => exact absurd hlast id
    | commit peerId timestampMs stateVector =>
      simp only [UndoStacks.next]
      rw [← hrep.newCommit_eq timestampMs stateVector]
      by_cases hp : p = peerId
      · subst hp
        rw [Function.update_self, ih hprevCommits hprevFree]
        simp [madeBy]
      · rw [Function.update_of_ne hp, ih hprevCommits hprevFree]
        simp [madeBy, Ne.symm hp]

/-- After any interleaving of commits: a history is the last commits of the peer, the newest
first, with the state vectors of its calls. A reset to the tip before the last commit of a peer
succeeds, and takes off this commit and nothing of another peer. -/
theorem undoStacks_isolated {h : List (ShadowRefStore × ShadowCall)} {t : ShadowRefStore}
    (hrun : Exec (ShadowRefStore.next digest) .new h t) (hcommits : Steps IsCommit h)
    (hfree : Steps (CollisionFree digest) h) (p : String) :
    (∀ n, t.history p n = (madeBy digest p h).reverse.take n) ∧
    (madeBy digest p h).map ShadowCommit.stateVector = stateVectorsOf p (h.map Prod.snd) ∧
    (∀ c ∈ madeBy digest p h, c.peerId = p) ∧
    ∀ earlier previous last, madeBy digest p h = earlier ++ [previous, last] →
      ∃ fuel, ∀ more, fuel ≤ more → ∃ after,
        t.resetTo more p previous.id = some (.ok last.id, after) ∧
        after.tip p = some previous.id ∧
        (∀ n, after.history p n = (earlier ++ [previous]).reverse.take n) ∧
        ∀ q, q ≠ p → after.tip q = t.tip q ∧ ∀ n, after.history q n = t.history q n := by
  have hrep := shadowStore_represents hrun hfree (resetsOwnTip_of_commits hcommits)
  have hstack := undoStacks_eq_madeBy hrun hcommits hfree
  refine ⟨fun n => ?_, madeBy_stateVector p h, fun c hc => ?_, ?_⟩
  · rw [hrep.history_eq, hstack]
  · exact hrep.own p c (by rw [hstack]; exact List.mem_reverse.mpr hc)
  · intro earlier previous last hmade
    have htwo : UndoStacks.after digest (h.map Prod.snd) p
        = last :: previous :: earlier.reverse := by
      rw [hstack, hmade]
      simp
    have htop : t.refs.lookup p = some last.id := by
      rw [hrep.tips p, htwo]
      rfl
    have hmem : previous.id ∈ (UndoStacks.after digest (h.map Prod.snd) p).map ShadowCommit.id := by
      rw [htwo]
      simp
    obtain ⟨fuel, hfuel⟩ := hrep.resetTo_own htop hmem
    refine ⟨fuel, fun more hmore => ⟨_, hfuel more hmore, ?_, fun n => ?_, fun q hq => ?_⟩⟩
    · simp [tip]
    · -- the reset leaves what is below the last commit
      have hafter := hrep.resetTo digest (by rw [htop]; simp) (hfuel more hmore)
      have hne : last.id ≠ previous.id := by
        have hnodup := hrep.nodup p
        rw [htwo] at hnodup
        simp only [List.map_cons, List.nodup_cons, List.mem_cons] at hnodup
        exact fun heq => hnodup.1 (.inl heq)
      rw [hafter.history_eq]
      simp [UndoStacks.next, htwo, hne]
    · constructor
      · simp [tip, hq]
      · intro n
        simp [history, hq]

/-- A digest that tells timestamps apart. -/
def clockDigest : CommitDigest := fun _ _ _ timestampMs _ => timestampMs

/-- Two peers take turns, and one of them takes its last commit back. -/
theorem undoStacks_isolated_two_peers : ∃ h t first last fuel after,
    Exec (ShadowRefStore.next clockDigest) .new h t ∧
    h.map Prod.snd = [.commit "a" 1 [10], .commit "b" 2 [20], .commit "a" 3 [11]] ∧
    madeBy clockDigest "a" h = [first, last] ∧
    (t.history "a" 5).map ShadowCommit.stateVector = [[11], [10]] ∧
    t.resetTo fuel "a" first.id = some (.ok last.id, after) ∧
    ∀ n, after.history "b" n = t.history "b" n := by
  let s1 : ShadowRefStore := (ShadowRefStore.new.commit clockDigest "a" [] 1 [10]).2
  let s2 : ShadowRefStore := (s1.commit clockDigest "b" [] 2 [20]).2
  let s3 : ShadowRefStore := (s2.commit clockDigest "a" [] 3 [11]).2
  have hrun : Exec (ShadowRefStore.next clockDigest) .new
      [(.new, .commit "a" 1 [10]), (s1, .commit "b" 2 [20]), (s2, .commit "a" 3 [11])] s3 :=
    ((Exec.nil.snoc rfl).snoc rfl).snoc rfl
  -- no hash is in the table yet
  have hfresh1 : s1.commits.lookup (s1.newCommit clockDigest "b" [] 2 [20]).id = none := by
    decide +kernel
  have hfresh2 : s2.commits.lookup (s2.newCommit clockDigest "a" [] 3 [11]).id = none := by
    decide +kernel
  have hcommits : Steps IsCommit
      [(.new, .commit "a" 1 [10]), (s1, .commit "b" 2 [20]), (s2, .commit "a" 3 [11])] := by
    simp [Steps, IsCommit]
  have hfree : Steps (CollisionFree clockDigest)
      [(.new, .commit "a" 1 [10]), (s1, .commit "b" 2 [20]), (s2, .commit "a" 3 [11])] := by
    intro step hstep
    simp only [List.mem_cons, List.not_mem_nil, or_false] at hstep
    rcases hstep with rfl | rfl | rfl
    · intro c hc
      cases hc
    · intro c hc
      cases hfresh1.symm.trans hc
    · intro c hc
      cases hfresh2.symm.trans hc
  obtain ⟨hhistory, hvectors, -, hreset⟩ := undoStacks_isolated hrun hcommits hfree "a"
  obtain ⟨fuel, hfuel⟩ := hreset [] _ _ rfl
  obtain ⟨after, hafter, -, -, hothers⟩ := hfuel fuel (Nat.le_refl fuel)
  refine ⟨_, s3, _, _, fuel, after, hrun, rfl, rfl, ?_, hafter, (hothers "b" (by decide)).2⟩
  rw [hhistory, List.map_take, List.map_reverse, hvectors]
  rfl

end GrafeoLoro.Proofs
