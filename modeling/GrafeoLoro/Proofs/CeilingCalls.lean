import GrafeoLoro.Lib.Exec
import GrafeoLoro.Lib.Reserve
import GrafeoLoro.Proofs.TryAlloc
import GrafeoLoro.Runtime.SharedCeiling

/-!
# `GrafeoLoro.Proofs.CeilingCalls`: the calls of threads that share a memory budget

`CeilingStep` lists what a step can do. A thread in the loop of `evict_to_fit` has the lock, so
nothing else changes the idle documents meanwhile (`LockOk`).

* `tryAlloc_steps` and `release_steps`: a call that nothing comes in between is
  `MemoryCeiling.tryAlloc` or `MemoryCeiling.release`.
* `sharedCalls_return`: when no further call begins, every call returns, and the number of steps
  until then is bounded.
-/

set_option autoImplicit false

namespace GrafeoLoro.Proofs

open GrafeoLoro GrafeoLoro.Lib

variable {w : Nat} {T : Type} [DecidableEq T]

/-! ### One step -/

/-- What a step of a thread can do. -/
inductive CeilingStep : SharedCeiling w T → ThreadAction w T → SharedCeiling w T → Prop where
  | call {s : SharedCeiling w T} {t : T} {bytes : BitVec w} {result : Option Bool}
      (hphase : s.phases t = .ready result) :
      CeilingStep s (.tryAlloc t bytes) (s.goto t (.loaded bytes s.ceiling.currentUsage false))
  | alloc {s : SharedCeiling w T} {t : T} {bytes current : BitVec w} {retry : Bool}
      (hphase : s.phases t = .loaded bytes current retry)
      (hfits : current + bytes ≤ s.ceiling.budgetBytes) :
      CeilingStep s (.advance t)
        ({ s with
          ceiling := { (s.ceiling.note (current.uaddOverflow bytes)).note
              (s.ceiling.currentBytes.uaddOverflow bytes) with
            currentBytes := s.ceiling.currentBytes + bytes }
          held := s.held + bytes.toNat }.goto t (.ready (some true)))
  | refuse {s : SharedCeiling w T} {t : T} {bytes current : BitVec w} {retry : Bool}
      (hphase : s.phases t = .loaded bytes current retry)
      (hfits : ¬ current + bytes ≤ s.ceiling.budgetBytes) :
      CeilingStep s (.advance t)
        ({ s with ceiling := s.ceiling.note (current.uaddOverflow bytes) }.goto t
          (if retry then .ready (some false) else .lock bytes))
  | lockEmpty {s : SharedCeiling w T} {t : T} {bytes : BitVec w}
      (hphase : s.phases t = .lock bytes) (hlock : s.lock = none) :
      CeilingStep s (.advance t) (s.goto t (.reload bytes))
  | lockTake {s : SharedCeiling w T} {t : T} {bytes : BitVec w}
      (hphase : s.phases t = .lock bytes) (hlock : s.lock = none) :
      CeilingStep s (.advance t)
        ({ s with
          lock := some t
          ceiling := { s.ceiling with idle := s.ceiling.sortedIdle } }.goto t (.evicting bytes 0))
  | evictEmpty {s : SharedCeiling w T} {t : T} {bytes freed : BitVec w}
      (hphase : s.phases t = .evicting bytes freed) :
      CeilingStep s (.advance t) ({ s with lock := none }.goto t (.reload bytes))
  | evictMore {s : SharedCeiling w T} {t : T} {bytes freed : BitVec w}
      (hphase : s.phases t = .evicting bytes freed) (hidle : s.ceiling.idle ≠ []) :
      CeilingStep s (.advance t)
        ({ s with
          ceiling := s.ceiling.note (s.ceiling.currentUsage.uaddOverflow bytes) }.goto t
          (.evictFirst bytes freed))
  | evictFits {s : SharedCeiling w T} {t : T} {bytes freed : BitVec w}
      (hphase : s.phases t = .evicting bytes freed) :
      CeilingStep s (.advance t)
        ({ s with
          ceiling := s.ceiling.note (s.ceiling.currentUsage.uaddOverflow bytes)
          lock := none }.goto t (.reload bytes))
  | evictFirst {s : SharedCeiling w T} {t : T} {bytes freed : BitVec w} {evicted : IdleDoc w}
      {rest : List (IdleDoc w)} (hphase : s.phases t = .evictFirst bytes freed)
      (hidle : s.ceiling.idle = evicted :: rest) :
      CeilingStep s (.advance t)
        ({ s with
          ceiling := { (s.ceiling.evict evicted.sizeBytes).note (freed.uaddOverflow
              (if s.ceiling.currentBytes < evicted.sizeBytes then s.ceiling.currentBytes
                else evicted.sizeBytes)) with
            idle := rest } }.goto t
          (.evicting bytes (freed + if s.ceiling.currentBytes < evicted.sizeBytes then
            s.ceiling.currentBytes else evicted.sizeBytes)))
  | reload {s : SharedCeiling w T} {t : T} {bytes : BitVec w}
      (hphase : s.phases t = .reload bytes) :
      CeilingStep s (.advance t) (s.goto t (.loaded bytes s.ceiling.currentUsage true))
  | release {s : SharedCeiling w T} {t : T} {bytes : BitVec w} {result : Option Bool}
      (hphase : s.phases t = .ready result) :
      CeilingStep s (.release t bytes)
        ({ s with
          ceiling := { s.ceiling with
            currentBytes := s.ceiling.currentBytes - bytes
            clamped := s.ceiling.clamped || decide (s.ceiling.currentBytes < bytes) }
          held := s.held - bytes.toNat }.goto t
          (if s.ceiling.currentBytes < bytes then .reset else .ready none))
  | reset {s : SharedCeiling w T} {t : T} (hphase : s.phases t = .reset) :
      CeilingStep s (.advance t)
        ({ s with ceiling := { s.ceiling with currentBytes := 0 } }.goto t (.ready none))
  | registerIdle {s : SharedCeiling w T} {t : T} {key : UInt64} {sizeBytes : BitVec w}
      {lastAccessMs : UInt64} {result : Option Bool} (hphase : s.phases t = .ready result)
      (hlock : s.lock = none) :
      CeilingStep s (.registerIdle t key sizeBytes lastAccessMs)
        ({ s with
          ceiling := s.ceiling.registerIdle key sizeBytes lastAccessMs
          held := s.held + s.ceiling.slotBytes key - sizeBytes.toNat }.goto t (.ready none))
  | evictIdle {s : SharedCeiling w T} {t : T} {result : Option Bool}
      (hphase : s.phases t = .ready result) (hlock : s.lock = none) :
      CeilingStep s (.evictIdle t)
        ({ s with ceiling := s.ceiling.evictIdle.2 }.goto t (.ready none))

/-- The next step of a call does what `CeilingStep` lists. -/
theorem advance_cases {s u : SharedCeiling w T} {t : T} (h : s.advance t = some u) :
    CeilingStep s (.advance t) u := by
  unfold SharedCeiling.advance at h
  cases hphase : s.phases t with
  | ready result => simp [hphase] at h
  | loaded bytes current retry =>
    simp only [hphase] at h
    split at h
    · cases h
      exact .alloc hphase ‹_›
    · have hrefuse := CeilingStep.refuse hphase ‹_›
      cases retry
      · cases h
        exact hrefuse
      · cases h
        exact hrefuse
  | lock bytes =>
    simp only [hphase] at h
    split at h
    · cases h
    · split at h
      · cases h
        exact .lockEmpty hphase ‹_›
      · cases h
        exact .lockTake hphase ‹_›
  | evicting bytes freed =>
    simp only [hphase] at h
    split at h
    · cases h
      exact .evictEmpty hphase
    · rename_i hidle
      split at h
      · cases h
        exact .evictMore hphase (by simpa using hidle)
      · cases h
        exact .evictFits hphase
  | evictFirst bytes freed =>
    simp only [hphase] at h
    split at h
    · cases h
    · cases h
      exact .evictFirst hphase ‹_›
  | reload bytes =>
    simp only [hphase] at h
    cases h
    exact .reload hphase
  | reset =>
    simp only [hphase] at h
    cases h
    exact .reset hphase

/-- The step function does what `CeilingStep` lists. -/
theorem ceiling_next_cases {s u : SharedCeiling w T} {a : ThreadAction w T}
    (h : s.next a = some u) : CeilingStep s a u := by
  cases a with
  | tryAlloc t bytes =>
    simp only [SharedCeiling.next] at h
    split at h <;> cases h
    exact .call ‹_›
  | release t bytes =>
    simp only [SharedCeiling.next] at h
    split at h <;> cases h
    exact .release ‹_›
  | registerIdle t key sizeBytes lastAccessMs =>
    simp only [SharedCeiling.next] at h
    split at h <;> cases h
    exact .registerIdle ‹_› ‹_›
  | evictIdle t =>
    simp only [SharedCeiling.next] at h
    split at h <;> cases h
    exact .evictIdle ‹_› ‹_›
  | advance t => exact advance_cases h

section
variable {s : SharedCeiling w T} {t : T} {phase : CeilingPhase w}

@[simp] theorem goto_ceiling : (s.goto t phase).ceiling = s.ceiling := rfl

@[simp] theorem goto_lock : (s.goto t phase).lock = s.lock := rfl

@[simp] theorem goto_held : (s.goto t phase).held = s.held := rfl

@[simp] theorem goto_phases : (s.goto t phase).phases = Function.update s.phases t phase := rfl

/-- A sum over the threads after one of them has gone on. -/
theorem sum_goto [Fintype T] (f : CeilingPhase w → Nat) :
    ∑ i, f ((s.goto t phase).phases i) + f (s.phases t) = ∑ i, f (s.phases i) + f phase := by
  have hupdate : (fun i => f ((s.goto t phase).phases i))
      = Function.update (fun i => f (s.phases i)) t (f phase) :=
    Function.comp_update f s.phases t phase
  rw [hupdate]
  exact sum_update_add (fun i => f (s.phases i)) t (f phase)

end

/-! ### A call without interruption -/

section
variable {s : SharedCeiling w T} {t : T} {bytes freed : BitVec w}

@[simp] theorem goto_mk_goto {phase phase' : CeilingPhase w} {ceiling : MemoryCeiling w}
    {lock : Option T} {held : Nat} :
    SharedCeiling.goto ⟨ceiling, lock, Function.update s.phases t phase', held⟩ t phase
      = SharedCeiling.goto ⟨ceiling, lock, s.phases, held⟩ t phase := by
  unfold SharedCeiling.goto
  rw [Function.update_idem]

/-- The state after a check, with the result of `try_alloc_inner`. -/
def afterInner (s : SharedCeiling w T) (t : T) (bytes : BitVec w) (refused : CeilingPhase w) :
    SharedCeiling w T :=
  let inner := s.ceiling.tryAllocInner bytes
  SharedCeiling.goto ⟨inner.2, s.lock, s.phases, s.held + if inner.1 then bytes.toNat else 0⟩ t
    (if inner.1 then .ready (some true) else refused)

/-- A check of the newest value of the counter is `try_alloc_inner`. -/
theorem advance_loaded {retry : Bool}
    (hphase : s.phases t = .loaded bytes s.ceiling.currentUsage retry) :
    s.next (.advance t)
      = some (afterInner s t bytes (if retry then .ready (some false) else .lock bytes)) := by
  simp only [SharedCeiling.next, SharedCeiling.advance, hphase, afterInner,
    MemoryCeiling.tryAllocInner, MemoryCeiling.currentUsage, note_budgetBytes, note_currentBytes]
  by_cases hfits : s.ceiling.currentBytes + bytes ≤ s.ceiling.budgetBytes
  · simp [hfits, MemoryCeiling.note]
  · cases retry <;> simp [hfits]

/-- The body of the loop of `evict_to_fit`, with the addition in its condition. -/
def evictNext (bytes freed : BitVec w) (c : MemoryCeiling w) (d : IdleDoc w) :
    BitVec w × MemoryCeiling w :=
  let actuallyFreed := if c.currentBytes < d.sizeBytes then c.currentBytes else d.sizeBytes
  (freed + actuallyFreed,
    ((c.note (c.currentUsage.uaddOverflow bytes)).evict d.sizeBytes).note
      (freed.uaddOverflow actuallyFreed))

theorem evictLoop_more {c : MemoryCeiling w} {d : IdleDoc w} {rest : List (IdleDoc w)}
    (hmore : c.budgetBytes < c.currentUsage + bytes) :
    MemoryCeiling.evictLoop bytes (d :: rest) freed c
      = MemoryCeiling.evictLoop bytes rest (evictNext bytes freed c d).1
          (evictNext bytes freed c d).2 :=
  if_pos hmore

theorem evictLoop_fits {c : MemoryCeiling w} {d : IdleDoc w} {rest : List (IdleDoc w)}
    (hmore : ¬ c.budgetBytes < c.currentUsage + bytes) :
    MemoryCeiling.evictLoop bytes (d :: rest) freed c
      = (freed, { c.note (c.currentUsage.uaddOverflow bytes) with idle := d :: rest }) :=
  if_neg hmore

/-- The loop has the documents from its list, and not from the ceiling. -/
theorem evictLoop_idle (docs : List (IdleDoc w)) :
    ∀ (freed : BitVec w) (c : MemoryCeiling w) (idle : List (IdleDoc w)),
      MemoryCeiling.evictLoop bytes docs freed { c with idle }
        = MemoryCeiling.evictLoop bytes docs freed c := by
  induction docs with
  | nil => exact fun _ _ _ => rfl
  | cons d rest ih =>
    intro freed c idle
    by_cases hmore : c.budgetBytes < c.currentUsage + bytes
    · rw [evictLoop_more hmore, evictLoop_more (c := { c with idle }) hmore]
      exact ih _ (evictNext bytes freed c d).2 idle
    · rw [evictLoop_fits hmore, evictLoop_fits (c := { c with idle }) hmore]
      rfl

/-- The condition of the loop, with documents that are left. -/
theorem advance_evicting {d : IdleDoc w} {rest : List (IdleDoc w)}
    (hphase : s.phases t = .evicting bytes freed) (hidle : s.ceiling.idle = d :: rest) :
    s.next (.advance t)
      = some (if s.ceiling.budgetBytes < s.ceiling.currentUsage + bytes then
          SharedCeiling.goto ⟨s.ceiling.note (s.ceiling.currentUsage.uaddOverflow bytes), s.lock,
            s.phases, s.held⟩ t (.evictFirst bytes freed)
        else
          SharedCeiling.goto ⟨s.ceiling.note (s.ceiling.currentUsage.uaddOverflow bytes), none,
            s.phases, s.held⟩ t (.reload bytes)) := by
  simp only [SharedCeiling.next, SharedCeiling.advance, hphase, hidle, List.isEmpty_cons]
  exact (apply_ite some _ _ _).symm

/-- The body of the loop. -/
theorem advance_evictFirst (s : SharedCeiling w T) {d : IdleDoc w} {rest : List (IdleDoc w)}
    (hphase : s.phases t = .evictFirst bytes freed) (hidle : s.ceiling.idle = d :: rest) :
    s.next (.advance t)
      = some (SharedCeiling.goto
          ⟨{ (s.ceiling.evict d.sizeBytes).note (freed.uaddOverflow
              (if s.ceiling.currentBytes < d.sizeBytes then s.ceiling.currentBytes
                else d.sizeBytes)) with idle := rest }, s.lock, s.phases, s.held⟩ t
          (.evicting bytes (freed + if s.ceiling.currentBytes < d.sizeBytes then
            s.ceiling.currentBytes else d.sizeBytes))) := by
  simp only [SharedCeiling.next, SharedCeiling.advance, hphase, hidle]

/-- An eviction: a step for the condition of the loop, and one for its body. -/
theorem evictNext_steps {d : IdleDoc w} {rest : List (IdleDoc w)}
    (hphase : s.phases t = .evicting bytes freed) (hidle : s.ceiling.idle = d :: rest)
    (hmore : s.ceiling.budgetBytes < s.ceiling.currentUsage + bytes) :
    runActions SharedCeiling.next s [.advance t, .advance t]
      = some (SharedCeiling.goto
          ⟨{ (evictNext bytes freed s.ceiling d).2 with idle := rest }, s.lock, s.phases, s.held⟩ t
          (.evicting bytes (evictNext bytes freed s.ceiling d).1)) := by
  have hcondition := advance_evicting hphase hidle
  rw [if_pos hmore] at hcondition
  have hphase' : (SharedCeiling.goto ⟨s.ceiling.note (s.ceiling.currentUsage.uaddOverflow bytes),
      s.lock, s.phases, s.held⟩ t (.evictFirst bytes freed)).phases t
      = .evictFirst bytes freed := by simp
  rw [runActions, hcondition, Option.bind_some, runActions, advance_evictFirst _ hphase' hidle]
  simp only [Option.bind_some, runActions, goto_phases, goto_mk_goto]
  rfl

/-- The steps in the loop of `evict_to_fit` are `evictLoop`. -/
theorem evictLoop_steps (docs : List (IdleDoc w)) :
    ∀ (s : SharedCeiling w T) (freed : BitVec w), s.phases t = .evicting bytes freed →
      s.ceiling.idle = docs →
      ∃ acts, (∀ a ∈ acts, a = .advance t) ∧ runActions SharedCeiling.next s acts
        = some (SharedCeiling.goto ⟨(MemoryCeiling.evictLoop bytes docs freed s.ceiling).2, none,
            s.phases, s.held⟩ t (.reload bytes)) := by
  induction docs with
  | nil =>
    intro s freed hphase hidle
    have hceiling : { s.ceiling with idle := [] } = s.ceiling := by rw [← hidle]
    refine ⟨[.advance t], by simp, ?_⟩
    simp [runActions, SharedCeiling.next, SharedCeiling.advance, hphase, hidle,
      MemoryCeiling.evictLoop, hceiling]
  | cons d rest ih =>
    intro s freed hphase hidle
    by_cases hmore : s.ceiling.budgetBytes < s.ceiling.currentUsage + bytes
    · obtain ⟨acts, hacts, hrun⟩ := ih (SharedCeiling.goto
        ⟨{ (evictNext bytes freed s.ceiling d).2 with idle := rest }, s.lock, s.phases, s.held⟩ t
        (.evicting bytes (evictNext bytes freed s.ceiling d).1))
        (evictNext bytes freed s.ceiling d).1 (by simp) rfl
      refine ⟨[.advance t, .advance t] ++ acts, by simpa using hacts, ?_⟩
      rw [runActions_append (evictNext_steps hphase hidle hmore) hrun, evictLoop_more hmore]
      simp only [goto_ceiling, goto_phases, goto_held, goto_mk_goto]
      rw [evictLoop_idle rest _ (evictNext bytes freed s.ceiling d).2 rest]
    · have hceiling : { s.ceiling.note (s.ceiling.currentUsage.uaddOverflow bytes) with
          idle := d :: rest } = s.ceiling.note (s.ceiling.currentUsage.uaddOverflow bytes) := by
        rw [← hidle]
        rfl
      refine ⟨[.advance t], by simp, ?_⟩
      rw [runActions, advance_evicting hphase hidle, if_neg hmore, evictLoop_fits hmore, hceiling]
      rfl

/-- The steps from the lock on are `evict_to_fit`. -/
theorem evictToFit_steps (s : SharedCeiling w T) (hphase : s.phases t = .lock bytes)
    (hlock : s.lock = none) :
    ∃ acts, (∀ a ∈ acts, a = .advance t) ∧ runActions SharedCeiling.next s acts
      = some (SharedCeiling.goto ⟨(s.ceiling.evictToFit bytes).2, none, s.phases, s.held⟩ t
          (.reload bytes)) := by
  unfold MemoryCeiling.evictToFit
  cases hempty : s.ceiling.idle.isEmpty with
  | true =>
    refine ⟨[.advance t], by simp, ?_⟩
    simp only [runActions, SharedCeiling.next, SharedCeiling.advance, hphase, hlock, hempty,
      if_true, Option.bind_some]
    rw [← hlock]
  | false =>
    have hstep : s.next (.advance t) = some (SharedCeiling.goto
        ⟨{ s.ceiling with idle := s.ceiling.sortedIdle }, some t, s.phases, s.held⟩ t
        (.evicting bytes 0)) := by
      simp [SharedCeiling.next, SharedCeiling.advance, hphase, hlock, hempty]
    have hevicting : (SharedCeiling.goto
        ⟨{ s.ceiling with idle := s.ceiling.sortedIdle }, some t, s.phases, s.held⟩ t
        (.evicting bytes 0)).phases t = .evicting bytes 0 := by simp
    obtain ⟨acts, hacts, hrun⟩ := evictLoop_steps s.ceiling.sortedIdle _ 0 hevicting rfl
    refine ⟨.advance t :: acts, by simpa using hacts, ?_⟩
    rw [runActions, hstep, Option.bind_some, hrun]
    simp only [goto_ceiling, goto_phases, goto_held, goto_mk_goto, evictLoop_idle]
    rfl

/-- The second check loads the counter again. -/
theorem reload_steps (s : SharedCeiling w T) (bytes : BitVec w)
    (hphase : s.phases t = .reload bytes) :
    runActions SharedCeiling.next s [.advance t, .advance t]
      = some (SharedCeiling.goto ⟨(s.ceiling.tryAllocInner bytes).2, s.lock, s.phases,
          s.held + if (s.ceiling.tryAllocInner bytes).1 then bytes.toNat else 0⟩ t
          (.ready (some (s.ceiling.tryAllocInner bytes).1))) := by
  have hload : s.next (.advance t)
      = some (s.goto t (.loaded bytes s.ceiling.currentUsage true)) := by
    simp [SharedCeiling.next, SharedCeiling.advance, hphase]
  have hloaded : (s.goto t (.loaded bytes s.ceiling.currentUsage true)).phases t
      = .loaded bytes s.ceiling.currentUsage true := by simp
  have hcheck := advance_loaded hloaded
  rw [runActions, hload, Option.bind_some, runActions, hcheck]
  cases hinner : s.ceiling.tryAllocInner bytes with
  | mk ok c => cases ok <;> simp [runActions, afterInner, hinner]

/-- A `try_alloc` that nothing comes in between is `MemoryCeiling.tryAlloc`. -/
theorem tryAlloc_steps (s : SharedCeiling w T) {result : Option Bool}
    (hphase : s.phases t = .ready result) (hlock : s.lock = none) (bytes : BitVec w) :
    ∃ acts, (∀ a ∈ acts, a = .tryAlloc t bytes ∨ a = .advance t) ∧
      runActions SharedCeiling.next s acts
        = some (SharedCeiling.goto ⟨(s.ceiling.tryAlloc bytes).2, none, s.phases,
            s.held + if (s.ceiling.tryAlloc bytes).1 then bytes.toNat else 0⟩ t
            (.ready (some (s.ceiling.tryAlloc bytes).1))) := by
  have hcall : s.next (.tryAlloc t bytes)
      = some (s.goto t (.loaded bytes s.ceiling.currentUsage false)) := by
    simp [SharedCeiling.next, hphase]
  have hloaded : (s.goto t (.loaded bytes s.ceiling.currentUsage false)).phases t
      = .loaded bytes s.ceiling.currentUsage false := by simp
  have hcheck := advance_loaded hloaded
  cases hinner : s.ceiling.tryAllocInner bytes with
  | mk ok c =>
    cases ok with
    | true =>
      have halloc : s.ceiling.tryAlloc bytes = (true, c) := by rw [MemoryCeiling.tryAlloc, hinner]
      refine ⟨[.tryAlloc t bytes, .advance t], by simp, ?_⟩
      rw [runActions, hcall, Option.bind_some, runActions, hcheck, halloc]
      simp [runActions, afterInner, hinner, hlock]
    | false =>
      have halloc : s.ceiling.tryAlloc bytes = (c.evictToFit bytes).2.tryAllocInner bytes := by
        rw [MemoryCeiling.tryAlloc, hinner]
      -- the check has failed, and documents are evicted
      have hlocked : (SharedCeiling.goto ⟨c, none, s.phases, s.held⟩ t (.lock bytes)).phases t
          = .lock bytes := by simp
      obtain ⟨acts, hacts, hevict⟩ := evictToFit_steps _ hlocked rfl
      simp only [goto_ceiling, goto_phases, goto_held, goto_mk_goto] at hevict
      have hreload := reload_steps (SharedCeiling.goto ⟨(c.evictToFit bytes).2, none, s.phases,
        s.held⟩ t (.reload bytes)) bytes (t := t) (by simp)
      simp only [goto_ceiling, goto_lock, goto_phases, goto_held, goto_mk_goto, ← halloc] at hreload
      refine ⟨.tryAlloc t bytes :: .advance t :: (acts ++ [.advance t, .advance t]), ?_, ?_⟩
      · intro a ha
        simp only [List.mem_cons, List.mem_append, List.not_mem_nil, or_false] at ha
        rcases ha with rfl | rfl | ha | rfl | rfl
        · exact .inl rfl
        · exact .inr rfl
        · exact .inr (hacts a ha)
        · exact .inr rfl
        · exact .inr rfl
      rw [runActions, hcall, Option.bind_some, runActions, hcheck]
      simp only [Option.bind_some, afterInner, goto_ceiling, hinner, goto_lock, goto_phases,
        goto_held, goto_mk_goto, hlock]
      exact runActions_append hevict hreload

/-- A `release` that nothing comes in between is `MemoryCeiling.release`. -/
theorem release_steps (s : SharedCeiling w T) {result : Option Bool}
    (hphase : s.phases t = .ready result) (bytes : BitVec w) :
    ∃ acts, (∀ a ∈ acts, a = .release t bytes ∨ a = .advance t) ∧
      runActions SharedCeiling.next s acts
        = some (SharedCeiling.goto ⟨s.ceiling.release bytes, s.lock, s.phases,
            s.held - bytes.toNat⟩ t (.ready none)) := by
  by_cases hunder : s.ceiling.currentBytes < bytes
  · refine ⟨[.release t bytes, .advance t], by simp, ?_⟩
    simp [runActions, SharedCeiling.next, SharedCeiling.advance, hphase, hunder,
      MemoryCeiling.release]
  · refine ⟨[.release t bytes], by simp, ?_⟩
    simp [runActions, SharedCeiling.next, hphase, hunder, MemoryCeiling.release]

end

/-! ### The lock -/

/-- The thread is in the loop of `evict_to_fit`. -/
def InLoop : CeilingPhase w → Prop
  | .evicting _ _ => True
  | .evictFirst _ _ => True
  | _ => False

/-- The lock is with the thread in the loop, and there is a document to evict when the condition
of the loop was met. -/
structure LockOk (s : SharedCeiling w T) : Prop where
  owner : ∀ t, InLoop (s.phases t) ↔ s.lock = some t
  first : ∀ t bytes freed, s.phases t = .evictFirst bytes freed → s.ceiling.idle ≠ []

/-- One thread goes on. It leaves the lock and the idle documents to a thread that has the lock. -/
theorem LockOk.goto {s : SharedCeiling w T} (h : LockOk s) {ceiling : MemoryCeiling w}
    {lock : Option T} {held : Nat} {t : T} {phase : CeilingPhase w}
    (hself : InLoop phase ↔ lock = some t) (hothers : ∀ i ≠ t, s.lock = some i ↔ lock = some i)
    (hidle : ceiling.idle = s.ceiling.idle ∨ ∀ i ≠ t, s.lock ≠ some i)
    (hfirst : ∀ bytes freed, phase = .evictFirst bytes freed → ceiling.idle ≠ []) :
    LockOk (SharedCeiling.goto ⟨ceiling, lock, s.phases, held⟩ t phase) := by
  constructor
  · intro i
    rcases eq_or_ne i t with rfl | hne
    · simpa using hself
    · simpa [hne] using (h.owner i).trans (hothers i hne)
  · intro i bytes freed hphase
    rcases eq_or_ne i t with rfl | hne
    · exact hfirst bytes freed (by simpa using hphase)
    · have hold : s.phases i = .evictFirst bytes freed := by simpa [hne] using hphase
      rcases hidle with hsame | hfree
      · simpa [hsame] using h.first i bytes freed hold
      · exact absurd ((h.owner i).mp (by rw [hold]; trivial)) (hfree i hne)

/-- A step that leaves the lock and the idle documents. -/
theorem LockOk.goto_same {s : SharedCeiling w T} (h : LockOk s) {ceiling : MemoryCeiling w}
    {held : Nat} {t : T} {phase : CeilingPhase w} (hself : InLoop phase ↔ InLoop (s.phases t))
    (hidle : ceiling.idle = s.ceiling.idle)
    (hfirst : ∀ bytes freed, phase = .evictFirst bytes freed → s.ceiling.idle ≠ []) :
    LockOk (SharedCeiling.goto ⟨ceiling, s.lock, s.phases, held⟩ t phase) :=
  h.goto (hself.trans (h.owner t)) (fun _ _ => Iff.rfl) (.inl hidle)
    fun bytes freed hphase => hidle ▸ hfirst bytes freed hphase

/-- A step of a thread that takes the lock, has it or gives it back. -/
theorem LockOk.goto_owner {s : SharedCeiling w T} (h : LockOk s) {ceiling : MemoryCeiling w}
    {lock : Option T} {held : Nat} {t : T} {phase : CeilingPhase w}
    (hbefore : s.lock = none ∨ s.lock = some t) (hafter : lock = none ∨ lock = some t)
    (hself : InLoop phase ↔ lock = some t)
    (hfirst : ∀ bytes freed, phase = .evictFirst bytes freed → ceiling.idle ≠ []) :
    LockOk (SharedCeiling.goto ⟨ceiling, lock, s.phases, held⟩ t phase) := by
  have hnot : ∀ l : Option T, l = none ∨ l = some t → ∀ i ≠ t, l ≠ some i := by
    rintro l (rfl | rfl) i hne
    · simp
    · simpa using hne.symm
  refine h.goto hself (fun i hne => ?_) (.inr (hnot _ hbefore)) hfirst
  exact iff_of_false (hnot _ hbefore i hne) (hnot _ hafter i hne)

/-- The lock is right after every step. -/
theorem lockOk_step {s u : SharedCeiling w T} {a : ThreadAction w T} (hstep : s.next a = some u)
    (h : LockOk s) : LockOk u := by
  cases ceiling_next_cases hstep with
  | call hphase => exact h.goto_same (by simp [InLoop, hphase]) rfl (by simp)
  | alloc hphase hfits => exact h.goto_same (by simp [InLoop, hphase]) rfl (by simp)
  | @refuse t bytes current retry hphase hfits =>
    cases retry with
    | true => exact h.goto_same (by simp [InLoop, hphase]) rfl (by simp)
    | false => exact h.goto_same (by simp [InLoop, hphase]) rfl (by simp)
  | lockEmpty hphase hlock => exact h.goto_same (by simp [InLoop, hphase]) rfl (by simp)
  | lockTake hphase hlock => exact h.goto_owner (.inl hlock) (.inr rfl) (by simp [InLoop]) (by simp)
  | @evictEmpty t bytes freed hphase =>
    have hlock := (h.owner t).mp (by rw [hphase]; trivial)
    exact h.goto_owner (.inr hlock) (.inl rfl) (by simp [InLoop]) (by simp)
  | evictMore hphase hidle =>
    exact h.goto_same (by simp [InLoop, hphase]) rfl fun _ _ _ => hidle
  | @evictFits t bytes freed hphase =>
    have hlock := (h.owner t).mp (by rw [hphase]; trivial)
    exact h.goto_owner (.inr hlock) (.inl rfl) (by simp [InLoop]) (by simp)
  | @evictFirst t bytes freed evicted rest hphase hidle =>
    have hlock := (h.owner t).mp (by rw [hphase]; trivial)
    exact h.goto_owner (.inr hlock) (.inr hlock) (by simp [InLoop, hlock]) (by simp)
  | reload hphase => exact h.goto_same (by simp [InLoop, hphase]) rfl (by simp)
  | release hphase =>
    refine h.goto_same ?_ rfl ?_
    · split
      · simp [InLoop, hphase]
      · simp [InLoop, hphase]
    · split
      · simp
      · simp
  | reset hphase => exact h.goto_same (by simp [InLoop, hphase]) rfl (by simp)
  | registerIdle hphase hlock =>
    exact h.goto_owner (.inl hlock) (.inl hlock) (by simp [InLoop, hlock]) (by simp)
  | evictIdle hphase hlock =>
    exact h.goto_owner (.inl hlock) (.inl hlock) (by simp [InLoop, hlock]) (by simp)

omit [DecidableEq T] in
theorem lockOk_start (budget : BitVec w) : LockOk (SharedCeiling.start T budget) :=
  ⟨fun t => by simp [SharedCeiling.start, InLoop], by simp [SharedCeiling.start]⟩

/-! ### Every call returns -/

/-- The steps that a call takes at most, apart from those of the evictions. -/
def phaseSteps : CeilingPhase w → Nat
  | .ready _ => 0
  | .loaded _ _ true => 1
  | .loaded _ _ false => 5
  | .lock _ => 4
  | .evicting _ _ => 3
  | .evictFirst _ _ => 2
  | .reload _ => 2
  | .reset => 1

/-- The steps that are left when no further call begins, at most. -/
def stepsLeft [Fintype T] (s : SharedCeiling w T) : Nat :=
  ∑ t, phaseSteps (s.phases t) + 2 * s.ceiling.idle.length

/-- The next step of a call leaves fewer steps: an eviction costs two, and takes a document. -/
theorem stepsLeft_lt [Fintype T] {s u : SharedCeiling w T} {t : T} (h : s.advance t = some u) :
    stepsLeft u < stepsLeft s := by
  have hless : ∀ (ceiling : MemoryCeiling w) (lock : Option T) (held : Nat)
      (phase : CeilingPhase w),
      phaseSteps phase + 2 * ceiling.idle.length
        < phaseSteps (s.phases t) + 2 * s.ceiling.idle.length →
      stepsLeft (SharedCeiling.goto ⟨ceiling, lock, s.phases, held⟩ t phase) < stepsLeft s := by
    intro ceiling lock held phase hlt
    have hsum : ∑ i, phaseSteps ((SharedCeiling.goto ⟨ceiling, lock, s.phases, held⟩ t
        phase).phases i) + phaseSteps (s.phases t)
        = ∑ i, phaseSteps (s.phases i) + phaseSteps phase :=
      sum_goto phaseSteps
    unfold stepsLeft
    simp only [goto_ceiling]
    omega
  cases advance_cases h with
  | @alloc _ bytes current retry hphase hfits =>
    refine hless _ _ _ _ ?_
    cases retry with
    | true => simp [phaseSteps, hphase, MemoryCeiling.note]
    | false => simp [phaseSteps, hphase, MemoryCeiling.note]
  | @refuse _ bytes current retry hphase hfits =>
    refine hless _ _ _ _ ?_
    cases retry with
    | true => simp [phaseSteps, hphase, MemoryCeiling.note]
    | false => simp [phaseSteps, hphase, MemoryCeiling.note]
  | lockEmpty hphase hlock => exact hless _ _ _ _ (by simp [phaseSteps, hphase])
  | lockTake hphase hlock =>
    have hlength : s.ceiling.sortedIdle.length = s.ceiling.idle.length :=
      (sortedIdle_perm s.ceiling).length_eq
    exact hless _ _ _ _ (by simp [phaseSteps, hphase, hlength])
  | evictEmpty hphase => exact hless _ _ _ _ (by simp [phaseSteps, hphase])
  | evictMore hphase hidle =>
    exact hless _ _ _ _ (by simp [phaseSteps, hphase, MemoryCeiling.note])
  | evictFits hphase => exact hless _ _ _ _ (by simp [phaseSteps, hphase, MemoryCeiling.note])
  | evictFirst hphase hidle =>
    refine hless _ _ _ _ ?_
    simp only [phaseSteps, hphase, hidle, List.length_cons]
    omega
  | reload hphase => exact hless _ _ _ _ (by simp [phaseSteps, hphase])
  | reset hphase => exact hless _ _ _ _ (by simp [phaseSteps, hphase])

theorem phaseSteps_le (phase : CeilingPhase w) : phaseSteps phase ≤ 5 := by
  unfold phaseSteps
  split <;> decide

/-- A thread that has the lock can go on. -/
theorem advance_of_lock {s : SharedCeiling w T} (h : LockOk s) {t : T} (hlock : s.lock = some t) :
    s.advance t ≠ none := by
  have hloop := (h.owner t).mpr hlock
  unfold SharedCeiling.advance
  cases hphase : s.phases t with
  | evicting bytes freed =>
    simp only
    split
    · simp
    · split <;> simp
  | evictFirst bytes freed =>
    simp only
    split
    · exact absurd ‹_› (h.first t bytes freed hphase)
    · simp
  | _ => simp [hphase, InLoop] at hloop

/-- If no thread can go on, no thread is in a call. -/
theorem ready_of_stuck {s : SharedCeiling w T} (h : LockOk s) (hstuck : ∀ t, s.advance t = none)
    (t : T) : ∃ result, s.phases t = .ready result := by
  -- a thread that waits for the lock waits for one that can go on
  have hfree : s.lock = none := by
    cases hlock : s.lock with
    | none => rfl
    | some i => exact absurd (hstuck i) (advance_of_lock h hlock)
  have hnone := hstuck t
  have hnot : ¬ InLoop (s.phases t) := by simp [h.owner t, hfree]
  unfold SharedCeiling.advance at hnone
  cases hphase : s.phases t with
  | ready result => exact ⟨result, rfl⟩
  | loaded bytes current retry =>
    simp only [hphase] at hnone
    split at hnone
    · cases hnone
    · split at hnone <;> cases hnone
  | lock bytes =>
    simp only [hphase, hfree] at hnone
    split at hnone <;> cases hnone
  | evicting bytes freed => exact absurd (by rw [hphase]; trivial) hnot
  | evictFirst bytes freed => exact absurd (by rw [hphase]; trivial) hnot
  | reload bytes => simp [hphase] at hnone
  | reset => simp [hphase] at hnone

/-- The step goes on with a call that has begun. -/
def GoesOn (_ : SharedCeiling w T) (a : ThreadAction w T) : Prop := ∃ t, a = .advance t

/-- Steps of calls that have begun are no more than `stepsLeft`. -/
theorem length_le_stepsLeft [Fintype T] {s u : SharedCeiling w T}
    {h : List (SharedCeiling w T × ThreadAction w T)} (hrun : Exec SharedCeiling.next s h u)
    (hgoes : Steps GoesOn h) : h.length + stepsLeft u ≤ stepsLeft s := by
  induction hrun with
  | nil => simp
  | snoc prev step ih =>
    obtain ⟨hprev, t, rfl⟩ := steps_snoc.mp hgoes
    have hlt := stepsLeft_lt step
    have hbefore := ih hprev
    rw [List.length_append, List.length_singleton]
    omega

/-- In every state that the threads reach, with any calls and sizes: if no further call begins, the
calls that have begun take at most five steps each and two for each idle document, in any order,
and when no thread can go on, all of them have returned. -/
theorem sharedCalls_return [Fintype T] {budget : BitVec w} {s u : SharedCeiling w T}
    {h h' : List (SharedCeiling w T × ThreadAction w T)}
    (hrun : Exec SharedCeiling.next (.start T budget) h s)
    (hrest : Exec SharedCeiling.next s h' u) (hgoes : Steps GoesOn h') :
    h'.length ≤ 5 * Fintype.card T + 2 * s.ceiling.idle.length ∧
      ((∀ t, u.next (.advance t) = none) → ∀ t, ∃ result, u.phases t = .ready result) := by
  have hok : LockOk u :=
    (hrun.append hrest).invariant (fun _ _ _ => lockOk_step) (lockOk_start budget)
  refine ⟨?_, fun hstuck t => ready_of_stuck hok hstuck t⟩
  have hsteps := length_le_stepsLeft hrest hgoes
  have hphases : ∑ t, phaseSteps (s.phases t) ≤ 5 * Fintype.card T := by
    calc ∑ t, phaseSteps (s.phases t)
        ≤ ∑ _t : T, 5 := Finset.sum_le_sum fun t _ => phaseSteps_le (s.phases t)
      _ = 5 * Fintype.card T := by
        rw [Finset.sum_const, Finset.card_univ, Nat.nsmul_eq_mul, Nat.mul_comm]
  unfold stepsLeft at hsteps
  omega

/-- Two threads check before one of them adds, and both calls return. -/
theorem sharedCalls_return_two : ∃ h s h' u,
    Exec SharedCeiling.next (.start Bool (10 : BitVec 64)) h s ∧
    h.map Prod.snd = [.tryAlloc true 7, .tryAlloc false 7] ∧
    Exec SharedCeiling.next s h' u ∧ h'.map Prod.snd = [.advance false, .advance true] ∧
    (h'.length ≤ 5 * Fintype.card Bool + 2 * s.ceiling.idle.length ∧
      ∀ t, ∃ result, u.phases t = .ready result) := by
  have hrun : Exec SharedCeiling.next (.start Bool (10 : BitVec 64)) _
      (((SharedCeiling.start Bool 10).goto true (.loaded 7 0 false)).goto false
        (.loaded 7 0 false)) :=
    Exec.snoc (Exec.snoc .nil (a := .tryAlloc true 7) rfl) (a := .tryAlloc false 7) rfl
  have hrest : Exec SharedCeiling.next (((SharedCeiling.start Bool (10 : BitVec 64)).goto true
      (.loaded 7 0 false)).goto false (.loaded 7 0 false)) _ _ :=
    Exec.snoc (Exec.snoc .nil (a := .advance false) rfl) (a := .advance true) rfl
  obtain ⟨hlength, hready⟩ :=
    sharedCalls_return hrun hrest (steps_of_actions rfl (by simp [GoesOn]))
  exact ⟨_, _, _, _, hrun, rfl, hrest, rfl, hlength, hready fun t => by cases t <;> rfl⟩

end GrafeoLoro.Proofs
