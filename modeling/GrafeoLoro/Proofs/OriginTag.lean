import GrafeoLoro.Bridge.OriginTag

/-!
# `GrafeoLoro.Proofs.OriginTag`: which ops carry the worker's origin

`TagStep` lists what a step can do, and `tag_next_cases` says that `TaggedDoc.next` does
nothing else.

`WellTagged s` says that a committed op carries the worker's origin exactly when the worker
wrote it, and that the worker leaves none of its ops pending when it is done with an event.
`CommitsOwn` is the condition on a commit: the worker finds only its own ops pending, another
thread finds none of the worker's.

* `wellTagged_iff`: over every interleaving, all states are well tagged exactly when every
  commit meets the condition.
* `commit_between_sections`: both ways to break it, one run each.
-/

set_option autoImplicit false

namespace GrafeoLoro.Proofs

open GrafeoLoro GrafeoLoro.Lib

variable {Op : Type}

/-- What a step of the worker or of another thread can do. -/
inductive TagStep : TaggedDoc Op → TagAction Op → TaggedDoc Op → Prop where
  | workerApply {s : TaggedDoc Op} (ops : List Op) (hidle : s.applied = false) :
      TagStep s (.workerApply ops)
        { s with pending := s.pending ++ ops.map fun op => (.bridge, op), applied := true }
  | workerCommit {s : TaggedDoc Op} (happlied : s.applied = true) :
      TagStep s .workerCommit
        { (s.setNextCommitOrigin originGrafeoBridge).commit with applied := false }
  | otherWrite {s : TaggedDoc Op} (op : Op) :
      TagStep s (.otherWrite op) { s with pending := s.pending ++ [(.other, op)] }
  | otherSetOrigin {s : TaggedDoc Op} {origin : String} (hne : origin ≠ originGrafeoBridge) :
      TagStep s (.otherSetOrigin origin) (s.setNextCommitOrigin origin)
  | otherCommit {s : TaggedDoc Op} : TagStep s .otherCommit s.commit

/-- The step function does what `TagStep` lists. -/
theorem tag_next_cases {s u : TaggedDoc Op} {a : TagAction Op} (h : s.next a = some u) :
    TagStep s a u := by
  cases a with
  | workerApply ops =>
    simp only [TaggedDoc.next] at h
    split at h
    · cases h
    · rename_i hidle
      cases h
      exact .workerApply ops (Bool.eq_false_iff.mpr hidle)
  | workerCommit =>
    simp only [TaggedDoc.next] at h
    split at h
    · rename_i happlied
      cases h
      exact .workerCommit happlied
    · cases h
  | otherWrite op =>
    cases h
    exact .otherWrite op
  | otherSetOrigin origin =>
    simp only [TaggedDoc.next] at h
    split at h
    · cases h
    · rename_i hne
      cases h
      exact .otherSetOrigin hne
  | otherCommit =>
    cases h
    exact .otherCommit

/-- The worker's origin is on the worker's ops and on no others, and the worker leaves no op
pending between two events. -/
structure WellTagged (s : TaggedDoc Op) : Prop where
  tagged : ∀ c ∈ s.commits, ∀ op ∈ c.ops, op.1 = .bridge ↔ c.origin = some originGrafeoBridge
  settled : s.applied = false → ∀ op ∈ s.pending, op.1 = .other

/-- A commit of the worker finds only its own ops pending, and a commit of another thread
finds none of the worker's. -/
def CommitsOwn (s : TaggedDoc Op) : TagAction Op → Prop
  | .workerCommit => ∀ op ∈ s.pending, op.1 = .bridge
  | .otherCommit => ∀ op ∈ s.pending, op.1 = .other
  | _ => True

/-- The origin of the next commit is never the worker's between two steps. -/
def OriginFree (s : TaggedDoc Op) : Prop := s.nextOrigin ≠ some originGrafeoBridge

/-- Every step keeps it: a commit clears the origin, and no other thread sets the worker's. -/
theorem originFree_step {s u : TaggedDoc Op} {a : TagAction Op} (h : s.next a = some u)
    (hs : OriginFree s) : OriginFree u := by
  cases tag_next_cases h with
  | workerApply | otherWrite => exact hs
  | workerCommit | otherCommit => exact nofun
  | otherSetOrigin hne => exact fun heq => hne (Option.some.inj heq)

/-- One more commit keeps the tags right exactly when its own tags are. -/
theorem tagged_snoc {commits : List (LoroCommit Op)} {c : LoroCommit Op}
    (h : ∀ c ∈ commits, ∀ op ∈ c.ops, op.1 = .bridge ↔ c.origin = some originGrafeoBridge) :
    (∀ c' ∈ commits ++ [c], ∀ op ∈ c'.ops,
        op.1 = .bridge ↔ c'.origin = some originGrafeoBridge) ↔
      ∀ op ∈ c.ops, op.1 = .bridge ↔ c.origin = some originGrafeoBridge := by
  constructor
  · exact fun hall => hall c (List.mem_append_right _ (List.mem_singleton.mpr rfl))
  · intro hc c' hc'
    rcases List.mem_append.mp hc' with hc' | hc'
    · exact h c' hc'
    · rw [List.mem_singleton.mp hc']
      exact hc

/-- A step keeps the document well tagged exactly when it meets the condition. -/
theorem wellTagged_step_iff {s u : TaggedDoc Op} {a : TagAction Op} (h : s.next a = some u)
    (hfree : OriginFree s) (hs : WellTagged s) : WellTagged u ↔ CommitsOwn s a := by
  cases tag_next_cases h with
  | workerApply => exact ⟨fun _ => trivial, fun _ => ⟨hs.tagged, nofun⟩⟩
  | workerCommit =>
    -- the origin is that of the bridge, so the ops have to be the worker's
    constructor
    · intro hu op hop
      exact ((tagged_snoc hs.tagged).mp hu.tagged op hop).mpr rfl
    · intro hown
      exact ⟨(tagged_snoc hs.tagged).mpr fun op hop => ⟨fun _ => rfl, fun _ => hown op hop⟩,
        fun _ op hop => absurd hop List.not_mem_nil⟩
  | otherWrite op =>
    -- nothing is committed, and the new pending op is not the worker's
    refine ⟨fun _ => trivial, fun _ => ⟨hs.tagged, fun hidle p hp => ?_⟩⟩
    rcases List.mem_append.mp hp with hp | hp
    · exact hs.settled hidle p hp
    · rw [List.mem_singleton.mp hp]
  | otherSetOrigin => exact ⟨fun _ => trivial, fun _ => ⟨hs.tagged, hs.settled⟩⟩
  | otherCommit =>
    -- the origin is another one, so none of the ops may be the worker's
    constructor
    · intro hu op hop
      have htag := (tagged_snoc hs.tagged).mp hu.tagged op hop
      cases hw : op.1 with
      | bridge => exact absurd (htag.mp hw) hfree
      | other => rfl
    · intro hown
      refine ⟨(tagged_snoc hs.tagged).mpr fun op hop => ⟨fun hw => ?_, fun ho => absurd ho hfree⟩,
        fun _ op hop => absurd hop List.not_mem_nil⟩
      rw [hown op hop] at hw
      cases hw

/-- Over every interleaving of the worker with the other threads, the origins are right in
every state exactly when every commit of the worker finds only the worker's ops pending and
every other commit finds none of them. -/
theorem wellTagged_iff {h : List (TaggedDoc Op × TagAction Op)} {t : TaggedDoc Op}
    (hrun : Exec TaggedDoc.next TaggedDoc.init h t) :
    Always WellTagged h t ↔ Steps CommitsOwn h :=
  hrun.always_iff (G := fun _ _ => True) (fun _ _ _ hn _ => originFree_step hn) nofun
    ⟨fun _ hc => absurd hc List.not_mem_nil, fun _ _ hop => absurd hop List.not_mem_nil⟩
    (fun _ _ _ hn _ => wellTagged_step_iff hn) fun _ _ => trivial

/-- Another thread writes and commits before an event and after it, and sets its origin between
the two sections. -/
theorem wellTagged_around :
    ∃ h t, Exec TaggedDoc.next (TaggedDoc.init : TaggedDoc Nat) h t ∧
      h.map Prod.snd = [.otherWrite 2, .otherCommit, .workerApply [1], .otherSetOrigin "editor",
        .workerCommit, .otherWrite 3, .otherCommit] ∧
      Always WellTagged h t ∧
      t.commits = [⟨none, [(.other, 2)]⟩, ⟨some originGrafeoBridge, [(.bridge, 1)]⟩,
        ⟨none, [(.other, 3)]⟩] := by
  have hbefore : Exec TaggedDoc.next (TaggedDoc.init : TaggedDoc Nat) _ _ :=
    (Exec.nil.snoc (a := .otherWrite 2) rfl).snoc (a := .otherCommit) rfl
  have hevent := ((hbefore.snoc (a := .workerApply [1]) rfl).snoc
    (a := .otherSetOrigin "editor") rfl).snoc (a := .workerCommit) rfl
  have hafter := (hevent.snoc (a := .otherWrite 3) rfl).snoc (a := .otherCommit) rfl
  -- each commit finds one op, of its own thread
  have hown (w : Writer) (n : Nat) : ∀ op ∈ [(w, n)], op.1 = w :=
    fun op hop => by rw [List.mem_singleton.mp hop]
  refine ⟨_, _, hafter, rfl, (wellTagged_iff hafter).mpr ?_, rfl⟩
  simp only [steps_snoc]
  exact ⟨⟨⟨⟨⟨⟨⟨steps_nil, trivial⟩, hown .other 2⟩, trivial⟩, trivial⟩, hown .bridge 1⟩, trivial⟩,
    hown .other 3⟩

/-- A commit of another thread between the worker's two sections takes the worker's op under
no origin. A write of another thread between them is committed under the worker's origin. -/
theorem commit_between_sections :
    (∃ h t, Exec TaggedDoc.next (TaggedDoc.init : TaggedDoc Nat) h t ∧
      h.map Prod.snd = [.workerApply [1], .otherCommit, .workerCommit] ∧
      ⟨none, [(.bridge, 1)]⟩ ∈ t.commits) ∧
    (∃ h t, Exec TaggedDoc.next (TaggedDoc.init : TaggedDoc Nat) h t ∧
      h.map Prod.snd = [.workerApply [1], .otherWrite 2, .workerCommit] ∧
      ⟨some originGrafeoBridge, [(.bridge, 1), (.other, 2)]⟩ ∈ t.commits) := by
  have hecho : runActions TaggedDoc.next (TaggedDoc.init : TaggedDoc Nat)
      [.workerApply [1], .otherCommit, .workerCommit]
      = some ⟨[], none, [⟨none, [(.bridge, 1)]⟩, ⟨some originGrafeoBridge, []⟩], false⟩ := rfl
  have hhidden : runActions TaggedDoc.next (TaggedDoc.init : TaggedDoc Nat)
      [.workerApply [1], .otherWrite 2, .workerCommit]
      = some ⟨[], none, [⟨some originGrafeoBridge, [(.bridge, 1), (.other, 2)]⟩], false⟩ := rfl
  obtain ⟨h, hexec, hacts⟩ := exec_of_run hecho
  obtain ⟨h', hexec', hacts'⟩ := exec_of_run hhidden
  exact ⟨⟨h, _, hexec, hacts, by simp⟩, ⟨h', _, hexec', hacts', by simp⟩⟩

end GrafeoLoro.Proofs
