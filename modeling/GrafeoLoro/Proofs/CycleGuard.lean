import GrafeoLoro.Lib.Exec
import GrafeoLoro.Lib.Maps
import GrafeoLoro.Schema.CycleGuard

/-!
# `GrafeoLoro.Proofs.CycleGuard`: what keeps the parent map acyclic

`Parent guard` is the relation of the parent pointers. A call of `apply_move` writes a pointer
only when the node is not above its new parent, so it adds no cycle, and a walk in an acyclic map
ends at a root. `record_parent_unchecked` writes any pointer. A cycle that it closes has no root
above it, and a walk from there for a node that is not on the way goes round for ever.

* `cycleGuard_exact`: in a run of `apply_move` and `detach`, the map is acyclic, and
  `would_create_cycle` returns and is right.
* `guardReturns_iff`: in any run, `would_create_cycle` and `apply_move` always return exactly
  when no unchecked binding closes a cycle.
* `unchecked_cycle_hangs`: two unchecked bindings after which a walk does not end.
-/

set_option autoImplicit false

namespace GrafeoLoro.Proofs

open GrafeoLoro GrafeoLoro.Lib Relation

/-! ### The parent pointers -/

/-- `p` is the recorded parent of `c`. -/
abbrev Parent (guard : CycleGuard) : String → String → Prop := Above guard.parentOf.lookup

variable {guard : CycleGuard} {node newParent : String}

theorem acyclic_new : Acyclic (Parent .new) :=
  fun x hx => not_transGen_root (f := CycleGuard.new.parentOf.lookup) (x := x) rfl hx

/-- Only finitely many nodes have a parent. -/
theorem parents_finite (guard : CycleGuard) : {c | guard.parentOf.lookup c ≠ none}.Finite := by
  have hkeys : {c | guard.parentOf.lookup c ≠ none} ⊆ ↑guard.parentOf.keys := by
    intro c hc
    rw [Finset.mem_coe, Finmap.mem_keys, ← Finmap.lookup_isSome]
    exact Option.isSome_iff_ne_none.mpr hc
  exact guard.parentOf.keys.finite_toSet.subset hkeys

/-- A new binding of a node takes the place of its old one. -/
theorem parent_bind {p c : String} :
    Parent (guard.recordParentUnchecked node newParent) p c ↔
      (Parent guard p c ∧ c ≠ node) ∨ p = newParent ∧ c = node := by
  show (guard.parentOf.insert node newParent).lookup c = some p ↔ _
  rw [finmap_lookup_insert]
  by_cases hc : c = node
  · simp [hc, eq_comm]
  · simp [hc, Above]

/-- A binding closes a cycle exactly when the node is its new parent or above it. -/
theorem acyclic_bind_iff (hacyclic : Acyclic (Parent guard)) :
    Acyclic (Parent (guard.recordParentUnchecked node newParent)) ↔
      ¬ ReflTransGen (Parent guard) node newParent := by
  have hrel : Parent (guard.recordParentUnchecked node newParent) =
      fun p c => (Parent guard p c ∧ c ≠ node) ∨ p = newParent ∧ c = node := by
    funext p c
    exact propext parent_bind
  rw [hrel]
  exact acyclic_move_iff hacyclic (fun _ _ hpc => hpc.1) (fun _ _ hpc hne => ⟨hpc, hne⟩)

/-- A detach closes no cycle. -/
theorem acyclic_detach (hacyclic : Acyclic (Parent guard)) :
    Acyclic (Parent (guard.detach node)) := by
  refine hacyclic.mono fun p c hpc => ?_
  have hlookup : (guard.parentOf.erase node).lookup c = some p := hpc
  rw [finmap_lookup_erase] at hlookup
  by_cases hc : c = node
  · simp [hc] at hlookup
  · simpa [hc, Above] using hlookup

/-! ### `would_create_cycle` and `apply_move` -/

/-- In an acyclic map, `would_create_cycle` returns, and says whether the node is its new parent
or above it. -/
theorem wouldCreateCycle_returns (hacyclic : Acyclic (Parent guard)) (node newParent : String) :
    ∃ fuel result,
      (∀ more, fuel ≤ more → guard.wouldCreateCycle more node newParent = some result) ∧
      (result = true ↔ ReflTransGen (Parent guard) node newParent) := by
  by_cases heq : node = newParent
  · subst heq
    exact ⟨0, true, fun _ _ => by simp [CycleGuard.wouldCreateCycle], by simp [ReflTransGen.refl]⟩
  · obtain ⟨fuel, result, hfuel, hresult⟩ :=
      climb_returns_of_acyclic (parents_finite guard) hacyclic node newParent
    refine ⟨fuel, result, fun more hmore => ?_, hresult⟩
    simp [CycleGuard.wouldCreateCycle, heq, hfuel more hmore]

/-- A walk that comes to a root did not pass the node. -/
theorem wouldCreateCycle_false {fuel : Nat}
    (h : guard.wouldCreateCycle fuel node newParent = some false) :
    ¬ ReflTransGen (Parent guard) node newParent := by
  by_cases heq : node = newParent
  · simp [CycleGuard.wouldCreateCycle, heq] at h
  · exact (climb_eq_false (by simpa [CycleGuard.wouldCreateCycle, heq] using h)).1

/-- A walk that finds the node passed it. -/
theorem wouldCreateCycle_true {fuel : Nat}
    (h : guard.wouldCreateCycle fuel node newParent = some true) :
    ReflTransGen (Parent guard) node newParent := by
  by_cases heq : node = newParent
  · rw [heq]
  · exact climb_eq_true (by simpa [CycleGuard.wouldCreateCycle, heq] using h)

/-- A call of `apply_move` that returns rejects the move and leaves the guard as it is, or it
binds a node that is not above its new parent. -/
theorem applyMove_cases {fuel : Nat} {out : Except CycleError Unit} {after : CycleGuard}
    (h : guard.applyMove fuel node newParent = some (out, after)) :
    (out = .error ⟨node, newParent⟩ ∧ after = guard) ∨
      (out = .ok () ∧ after = guard.recordParentUnchecked node newParent ∧
        ¬ ReflTransGen (Parent guard) node newParent) := by
  unfold CycleGuard.applyMove at h
  split at h
  · cases h
  · cases h
    exact .inl ⟨rfl, rfl⟩
  · rename_i hfalse
    cases h
    exact .inr ⟨rfl, rfl, wouldCreateCycle_false hfalse⟩

/-- A move is rejected only if the node is its new parent or above it. -/
theorem applyMove_error {fuel : Nat} {e : CycleError} {after : CycleGuard}
    (h : guard.applyMove fuel node newParent = some (.error e, after)) :
    ReflTransGen (Parent guard) node newParent := by
  unfold CycleGuard.applyMove at h
  split at h
  · cases h
  · rename_i htrue
    exact wouldCreateCycle_true htrue
  · cases h

/-- `apply_move` returns whenever `would_create_cycle` does. -/
theorem applyMove_isSome {fuel : Nat} (guard : CycleGuard) :
    (guard.applyMove fuel node newParent).isSome =
      (guard.wouldCreateCycle fuel node newParent).isSome := by
  unfold CycleGuard.applyMove
  split
  · rename_i h
    simp [h]
  · rename_i h
    simp [h]
  · rename_i h
    simp [h]

/-! ### The calls -/

/-- A call of `apply_move` or `detach`. -/
def Checked (_ : CycleGuard) : GuardCall → Prop
  | .recordParentUnchecked _ _ => False
  | _ => True

/-- An unchecked call binds a node that is neither its new parent nor above it. -/
def BindsUpward (guard : CycleGuard) : GuardCall → Prop
  | .recordParentUnchecked node parent => ¬ ReflTransGen (Parent guard) node parent
  | _ => True

/-- What the step does to the guard: nothing, a detach, or one binding. A binding by `apply_move`
closes no cycle. -/
theorem guardStep_cases {s t : CycleGuard} {a : GuardCall} (hstep : s.next a = some t) :
    (∃ fuel node newParent, a = .applyMove fuel node newParent ∧ t = s) ∨
    (∃ fuel node newParent, a = .applyMove fuel node newParent ∧
      t = s.recordParentUnchecked node newParent ∧ ¬ ReflTransGen (Parent s) node newParent) ∨
    (∃ node, a = .detach node ∧ t = s.detach node) ∨
    (∃ node parent, a = .recordParentUnchecked node parent ∧
      t = s.recordParentUnchecked node parent) := by
  cases a with
  | applyMove fuel node newParent =>
    obtain ⟨⟨out, after⟩, hcall, rfl⟩ := Option.map_eq_some_iff.mp hstep
    rcases applyMove_cases hcall with ⟨-, hafter⟩ | ⟨-, hafter, hnot⟩
    · exact .inl ⟨fuel, node, newParent, rfl, hafter⟩
    · exact .inr (.inl ⟨fuel, node, newParent, rfl, hafter, hnot⟩)
  | detach node => exact .inr (.inr (.inl ⟨node, rfl, (Option.some.inj hstep).symm⟩))
  | recordParentUnchecked node parent =>
    exact .inr (.inr (.inr ⟨node, parent, rfl, (Option.some.inj hstep).symm⟩))

/-- A call keeps the map acyclic exactly when it binds upward. -/
theorem acyclic_step_iff {s t : CycleGuard} {a : GuardCall} (hstep : s.next a = some t)
    (hacyclic : Acyclic (Parent s)) : Acyclic (Parent t) ↔ BindsUpward s a := by
  rcases guardStep_cases hstep with ⟨fuel, node, newParent, rfl, rfl⟩ |
    ⟨fuel, node, newParent, rfl, rfl, hnot⟩ | ⟨node, rfl, rfl⟩ | ⟨node, parent, rfl, rfl⟩
  · simp [BindsUpward, hacyclic]
  · simp [BindsUpward, acyclic_bind_iff hacyclic, hnot]
  · simp [BindsUpward, acyclic_detach hacyclic]
  · simp [BindsUpward, acyclic_bind_iff hacyclic]

theorem Checked.bindsUpward {s : CycleGuard} {a : GuardCall} (h : Checked s a) :
    BindsUpward s a := by
  cases a with
  | applyMove fuel node newParent => trivial
  | detach node => trivial
  | recordParentUnchecked node parent => exact absurd h id

/-! ### Runs of checked calls -/

/-- After any calls of `apply_move` and `detach`: the map is acyclic; `would_create_cycle` returns
and is `true` exactly when the node is its new parent or above it, which is when the binding
would close a cycle; and a rejected move leaves the guard as it was. -/
theorem cycleGuard_exact {h : List (CycleGuard × GuardCall)} {t : CycleGuard}
    (hrun : Exec CycleGuard.next .new h t) (hchecked : Steps Checked h) :
    Acyclic (Parent t) ∧
    (∀ node newParent, ∃ fuel result,
      (∀ more, fuel ≤ more → t.wouldCreateCycle more node newParent = some result) ∧
      (result = true ↔ node = newParent ∨ TransGen (Parent t) node newParent) ∧
      (result = true ↔ ¬ Acyclic (Parent (t.recordParentUnchecked node newParent)))) ∧
    (∀ fuel node newParent e after,
      t.applyMove fuel node newParent = some (.error e, after) → after = t) := by
  have hacyclic : Acyclic (Parent t) :=
    (hrun.invariant_of_steps (I := fun s => Acyclic (Parent s))
      (fun s a u hstep hC hs => (acyclic_step_iff hstep hs).mpr hC.bindsUpward)
      acyclic_new hchecked).2
  refine ⟨hacyclic, fun node newParent => ?_, fun fuel node newParent e after hcall => ?_⟩
  · obtain ⟨fuel, result, hfuel, hresult⟩ := wouldCreateCycle_returns hacyclic node newParent
    refine ⟨fuel, result, hfuel, ?_, ?_⟩
    · rw [hresult, reflTransGen_iff_eq_or_transGen, eq_comm]
    · rw [hresult, acyclic_bind_iff hacyclic, not_not]
  · rcases applyMove_cases hcall with ⟨-, hafter⟩ | ⟨hok, -, -⟩
    · exact hafter
    · cases hok

/-- Below two moves and a rejected third one, `a` is above `c`. -/
theorem cycleGuard_exact_deep : ∃ h t,
    Exec CycleGuard.next .new h t ∧
    h.map Prod.snd = [.applyMove 9 "b" "a", .applyMove 9 "c" "b", .applyMove 9 "a" "c"] ∧
    Acyclic (Parent t) ∧
    ∃ fuel, ∀ more, fuel ≤ more → t.wouldCreateCycle more "a" "c" = some true := by
  let t : CycleGuard := (CycleGuard.new.recordParentUnchecked "b" "a").recordParentUnchecked "c" "b"
  have hcalls : runActions CycleGuard.next .new
      [.applyMove 9 "b" "a", .applyMove 9 "c" "b", .applyMove 9 "a" "c"] = some t := by
    decide +kernel
  obtain ⟨h, hrun, hmap⟩ := exec_of_run hcalls
  have hchecked : Steps Checked h := by
    refine steps_of_actions hmap fun a ha _ => ?_
    simp only [List.mem_cons, List.not_mem_nil, or_false] at ha
    rcases ha with rfl | rfl | rfl
    all_goals trivial
  obtain ⟨hacyclic, hexact, -⟩ := cycleGuard_exact hrun hchecked
  obtain ⟨fuel, result, hfuel, habove, -⟩ := hexact "a" "c"
  have hb : Parent t "a" "b" := show t.parentOf.lookup "b" = some "a" by decide +kernel
  have hc : Parent t "b" "c" := show t.parentOf.lookup "c" = some "b" by decide +kernel
  have hresult : result = true := habove.mpr (.inr (.head hb (.single hc)))
  exact ⟨h, t, hrun, hmap, hacyclic, fuel, hresult ▸ hfuel⟩

/-! ### Runs with unchecked calls -/

/-- `would_create_cycle` and `apply_move` return for all arguments. -/
def Returns (guard : CycleGuard) : Prop :=
  ∀ node newParent, ∃ fuel, (guard.wouldCreateCycle fuel node newParent).isSome ∧
    (guard.applyMove fuel node newParent).isSome

/-- From a node of a cycle, a walk for a node that is not above it does not end. -/
theorem wouldCreateCycle_hangs (hcycle : TransGen (Parent guard) newParent newParent)
    (hnot : ¬ ReflTransGen (Parent guard) node newParent) (fuel : Nat) :
    guard.wouldCreateCycle fuel node newParent = none := by
  have hne : node ≠ newParent := fun heq => hnot (heq ▸ .refl)
  rw [CycleGuard.wouldCreateCycle, if_neg hne]
  exact climb_runs_on hcycle hnot fuel

/-- Some string is not above a given node. -/
theorem exists_not_above (guard : CycleGuard) (newParent : String) :
    ∃ node, ¬ ReflTransGen (Parent guard) node newParent := by
  -- what is above is the node itself, or the parent of one of finitely many nodes
  have hfin : (insert newParent
      ((fun c => (guard.parentOf.lookup c).getD c) '' {c | guard.parentOf.lookup c ≠ none})).Finite :=
    ((parents_finite guard).image _).insert newParent
  obtain ⟨node, hnode⟩ := hfin.exists_notMem
  refine ⟨node, fun hpath => hnode ?_⟩
  cases ReflTransGen.cases_head hpath with
  | inl heq => exact .inl heq
  | inr hfirst =>
    obtain ⟨c, hc, -⟩ := hfirst
    have hlookup : guard.parentOf.lookup c = some node := hc
    exact .inr ⟨c, by simp [hlookup], by simp [hlookup]⟩

/-- The calls return exactly on acyclic maps. -/
theorem returns_iff : Returns guard ↔ Acyclic (Parent guard) := by
  constructor
  · intro hreturns x hx
    obtain ⟨node, hnot⟩ := exists_not_above guard x
    obtain ⟨fuel, hsome, -⟩ := hreturns node x
    simp [wouldCreateCycle_hangs hx hnot fuel] at hsome
  · intro hacyclic node newParent
    obtain ⟨fuel, result, hfuel, -⟩ := wouldCreateCycle_returns hacyclic node newParent
    have hresult := hfuel fuel (Nat.le_refl fuel)
    exact ⟨fuel, by simp [hresult], by simp [applyMove_isSome, hresult]⟩

/-- In every run, the calls return in all states exactly when every unchecked call binds a node
that is neither its new parent nor above it. -/
theorem guardReturns_iff {h : List (CycleGuard × GuardCall)} {t : CycleGuard}
    (hrun : Exec CycleGuard.next .new h t) : Always Returns h t ↔ Steps BindsUpward h := by
  refine hrun.always_iff (I := fun _ => True) (G := fun _ _ => True) (fun _ _ _ _ _ _ => trivial)
    trivial (returns_iff.mpr acyclic_new) (fun s a u hstep _ _ hreturns => ?_)
    (fun _ _ => trivial)
  rw [returns_iff, acyclic_step_iff hstep (returns_iff.mp hreturns)]

/-- A binding of `b` under `a` closes no cycle, and one of `a` under `b` after it does. -/
theorem guardReturns_iff_two : ∃ h t h' t',
    Exec CycleGuard.next .new h t ∧ h.map Prod.snd = [.recordParentUnchecked "b" "a"] ∧
    Always Returns h t ∧
    Exec CycleGuard.next t h' t' ∧ h'.map Prod.snd = [.recordParentUnchecked "a" "b"] ∧
    ¬ Always Returns (h ++ h') t' := by
  let t : CycleGuard := CycleGuard.new.recordParentUnchecked "b" "a"
  let t' : CycleGuard := t.recordParentUnchecked "a" "b"
  have hfirst : Exec CycleGuard.next .new [(.new, .recordParentUnchecked "b" "a")] t :=
    .snoc .nil rfl
  have hsecond : Exec CycleGuard.next t [(t, .recordParentUnchecked "a" "b")] t' := .snoc .nil rfl
  refine ⟨_, t, _, t', hfirst, rfl, (guardReturns_iff hfirst).mpr ?_, hsecond, rfl, ?_⟩
  · intro p hp
    rw [List.mem_singleton.mp hp]
    -- no node has a parent yet
    intro hpath
    rcases reflTransGen_iff_eq_or_transGen.mp hpath with heq | hup
    · simp at heq
    · exact not_transGen_root (f := CycleGuard.new.parentOf.lookup) rfl hup
  · rw [guardReturns_iff (hfirst.append hsecond), steps_snoc]
    intro hsteps
    have hparent : Parent t "a" "b" := show t.parentOf.lookup "b" = some "a" by decide +kernel
    exact hsteps.2 (.single hparent)

/-- The node `x` is not on the cycle of `a` and `b`, and the walk from `a` does not end: neither
`would_create_cycle` nor `apply_move` returns. -/
theorem unchecked_cycle_hangs : ∃ h t,
    Exec CycleGuard.next .new h t ∧
    h.map Prod.snd = [.recordParentUnchecked "b" "a", .recordParentUnchecked "a" "b"] ∧
    ∀ fuel, t.wouldCreateCycle fuel "x" "a" = none ∧ t.applyMove fuel "x" "a" = none := by
  let t : CycleGuard := (CycleGuard.new.recordParentUnchecked "b" "a").recordParentUnchecked "a" "b"
  obtain ⟨h, hrun, hmap⟩ := exec_of_run (show runActions CycleGuard.next .new
    [.recordParentUnchecked "b" "a", .recordParentUnchecked "a" "b"] = some t from rfl)
  have hpair : ∀ fuel, climb t.parentOf.lookup "x" fuel "a" = none ∧
      climb t.parentOf.lookup "x" fuel "b" = none := by
    intro fuel
    have ha : t.parentOf.lookup "a" = some "b" := by decide +kernel
    have hb : t.parentOf.lookup "b" = some "a" := by decide +kernel
    -- one round from each of the two leads to the other
    induction fuel with
    | zero => exact ⟨rfl, rfl⟩
    | succ fuel ih => simp [climb, ha, hb, ih]
  refine ⟨h, t, hrun, hmap, fun fuel => ?_⟩
  have hnone : t.wouldCreateCycle fuel "x" "a" = none := by
    simp [CycleGuard.wouldCreateCycle, hpair fuel]
  exact ⟨hnone, by simp [CycleGuard.applyMove, hnone]⟩

end GrafeoLoro.Proofs
